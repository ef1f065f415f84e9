import Elitra.Swap

namespace Elitra.Swap
open Function Paging

variable {β : Type} {s s' : State β} {x y : Page} {g : Option (Fin (2 ^ 40))}

/-- The area of the swap is as it was. -/
structure SameArea (s s' : State β) : Prop where
  lbaStart : s'.lbaStart = s.lbaStart
  totalSectors : s'.totalSectors = s.totalSectors
  totalSlots : s'.totalSlots = s.totalSlots

lemma SameArea.slotLba (h : SameArea s s') (slot : ℕ) : slotLba s' slot = slotLba s slot := by
  rw [Swap.slotLba, Swap.slotLba, h.lbaStart]

/-- A step without traffic: no entry becomes a swapped one, or one of another slot. -/
structure Quiet (s s' : State β) : Prop extends SameArea s s' where
  used : s'.used = s.used
  disk : s'.disk = s.disk
  entry : ∀ z, swapIsPte (s'.entry z) = true → s'.entry z = s.entry z

lemma Quiet.refl (s : State β) : Quiet s s := ⟨⟨rfl, rfl, rfl⟩, rfl, rfl, fun _ _ => rfl⟩

structure Evicted (s : State β) (x : Page) (slot : ℕ) (s' : State β) : Prop
    extends SameArea s s' where
  alloc : swapAllocSlot s = some slot
  resident : present (s.entry x) = true
  used : s'.used = update s.used slot true
  disk : s'.disk = writePage s.disk (Swap.slotLba s slot) (s.frame (pteFrame (s.entry x)))
  entry : s'.entry x = evictedEntry slot (s.entry x)
  others : ∀ z, z ≠ x → s'.entry z = s.entry z

structure Fetched (s : State β) (x : Page) (f : ℕ) (s' : State β) : Prop extends SameArea s s' where
  swapped : swapIsPte (s.entry x) = true
  small : f < 2 ^ 40
  used : s'.used = update s.used (swapPteToSlot (s.entry x)) false
  disk : s'.disk = s.disk
  frame : s'.frame f = readPage s.disk (Swap.slotLba s (swapPteToSlot (s.entry x)))
  entry : s'.entry x = restoredEntry f (s.entry x)
  others : ∀ z, z ≠ x → s'.entry z = s.entry z

lemma cowResolvePage_spec (s : State β) (x : Page) (g : Option (Fin (2 ^ 40))) :
    Quiet s (cowResolvePage s x g) ∧
      (∀ z, z ≠ x → (cowResolvePage s x g).entry z = s.entry z) ∧
      (cowResolvePage s x g).frame (pteFrame (s.entry x)) = s.frame (pteFrame (s.entry x)) := by
  have hq : ∀ e : Pte, present e = true → ∀ z, swapIsPte (update s.entry x e z) = true →
        update s.entry x e z = s.entry z := by
    intro e he z hz
    by_cases hzx : z = x
    · rw [hzx, update_self, swapIsPte_present he] at hz
      cases hz
    · exact update_of_ne hzx _ _
  unfold cowResolvePage
  dsimp only
  split
  · exact ⟨⟨⟨rfl, rfl, rfl⟩, rfl, rfl, hq _ (present_soleEntry _)⟩,
      fun z hz => update_of_ne hz _ _, rfl⟩
  split
  · exact ⟨⟨⟨rfl, rfl, rfl⟩, rfl, rfl, fun _ _ => rfl⟩, fun _ _ => rfl, rfl⟩
  rename_i f
  have hc : present (copyEntry f) = true := by
    rw [present_eq, flag_copyEntry (by omega)]
    rfl
  refine ⟨⟨⟨rfl, rfl, rfl⟩, rfl, rfl, hq _ hc⟩,
    fun z hz => update_of_ne hz _ _, ?_⟩
  by_cases hf : pteFrame (s.entry x) = f
  · exact hf ▸ update_self ..
  · exact update_of_ne hf _ _

lemma swapEvictPage_cases (s : State β) (x : Page) (g : Option (Fin (2 ^ 40))) (mem io : Bool) :
    ((swapEvictPage s x g mem io).2 = false ∧ Quiet s (swapEvictPage s x g mem io).1 ∧
        ∀ z, z ≠ x → (swapEvictPage s x g mem io).1.entry z = s.entry z) ∨
      ((swapEvictPage s x g mem io).2 = true ∧
        ∃ slot, Evicted s x slot (swapEvictPage s x g mem io).1) := by
  unfold swapEvictPage
  split
  · exact .inl ⟨rfl, Quiet.refl s, fun _ _ => rfl⟩
  rename_i slot hsl
  split
  · exact .inl ⟨rfl, Quiet.refl s, fun _ _ => rfl⟩
  dsimp only
  split
  · exact .inl ⟨rfl, Quiet.refl s, fun _ _ => rfl⟩
  rename_i hpr
  have hp : present (s.entry x) = true := by simpa using hpr
  -- the state after the COW bit, if any, was resolved
  obtain ⟨s1, hs1, hq, ho, hf⟩ : ∃ s1,
      (if cow (s.entry x) then cowResolvePage s x g else s) = s1 ∧ Quiet s s1 ∧
        (∀ z, z ≠ x → s1.entry z = s.entry z) ∧
        s1.frame (pteFrame (s.entry x)) = s.frame (pteFrame (s.entry x)) := by
    split
    · exact ⟨_, rfl, cowResolvePage_spec s x g⟩
    · exact ⟨s, rfl, Quiet.refl s, fun _ _ => rfl, rfl⟩
  rw [hs1]
  split
  · exact .inl ⟨rfl, hq, ho⟩
  split
  · exact .inl ⟨rfl, hq, ho⟩
  split
  · exact .inl ⟨rfl, hq, ho⟩
  refine .inr ⟨rfl, slot, ⟨hq.lbaStart, hq.totalSectors, hq.totalSlots⟩, hsl, hp,
    ?_, ?_, update_self .., fun z hz => ?_⟩
  · dsimp only
    rw [hq.used]
  · dsimp only
    rw [hq.disk, hf, hq.toSameArea.slotLba]
  · exact (update_of_ne hz _ _).trans (ho z hz)

lemma swapHandleFault_cases (s : State β) (x : Page) (g : Option (Fin (2 ^ 40))) (io : Bool) :
    ((swapHandleFault s x g io).2 = false ∧ (swapHandleFault s x g io).1 = s) ∨
      ((swapHandleFault s x g io).2 = true ∧ ∃ f, Fetched s x f (swapHandleFault s x g io).1) := by
  unfold swapHandleFault
  split
  · exact .inl ⟨rfl, rfl⟩
  dsimp only
  split
  · exact .inl ⟨rfl, rfl⟩
  rename_i hpte
  split
  · exact .inl ⟨rfl, rfl⟩
  rename_i f
  split
  · exact .inl ⟨rfl, rfl⟩
  split
  · exact .inl ⟨rfl, rfl⟩
  exact .inr ⟨rfl, f, ⟨rfl, rfl, rfl⟩, by simpa using hpte, f.isLt, rfl, rfl,
    update_self .., update_self .., fun z hz => update_of_ne hz _ _⟩

variable {slot : ℕ}

lemma swapAllocSlot_some (h : swapAllocSlot s = some slot) :
    slot < s.totalSlots ∧ s.used slot = false := by
  have hmem := List.mem_of_find?_eq_some h
  have hf := List.find?_some h
  exact ⟨List.mem_range.mp hmem, by simpa using hf⟩

/-- Every swapped entry names a slot of its own, which is marked used. -/
structure Slots (s : State β) : Prop where
  small : s.totalSlots ≤ maxSwapSlots
  marked : ∀ z, swapIsPte (s.entry z) = true →
    swapPteToSlot (s.entry z) < s.totalSlots ∧ s.used (swapPteToSlot (s.entry z)) = true
  apart : ∀ z w, swapIsPte (s.entry z) = true → swapIsPte (s.entry w) = true →
    swapPteToSlot (s.entry z) = swapPteToSlot (s.entry w) → z = w

lemma Slots.quiet (h : Slots s) (hq : Quiet s s') : Slots s' := by
  have hb : ∀ z, swapIsPte (s'.entry z) = true →
      swapIsPte (s.entry z) = true ∧ s'.entry z = s.entry z := by
    intro z hz
    have heq := hq.entry z hz
    exact ⟨heq ▸ hz, heq⟩
  refine ⟨hq.totalSlots ▸ h.small, fun z hz => ?_, fun z w hz hw hzw => ?_⟩
  · obtain ⟨hz, heq⟩ := hb z hz
    rw [heq, hq.totalSlots, hq.used]
    exact h.marked z hz
  obtain ⟨hz, heq⟩ := hb z hz
  obtain ⟨hw, heq'⟩ := hb w hw
  rw [heq, heq'] at hzw
  exact h.apart z w hz hw hzw

lemma Evicted.slot_eq (he : Evicted s x slot s') (hs : s.totalSlots ≤ maxSwapSlots) :
    swapPteToSlot (s'.entry x) = slot := by
  have hlt := (swapAllocSlot_some he.alloc).1
  unfold maxSwapSlots at hs
  rw [he.entry]
  apply swapPteToSlot_evicted
  omega

/-- The new entry names a slot that was not used, so no other entry names it. -/
lemma Slots.evicted (h : Slots s) (he : Evicted s x slot s') : Slots s' := by
  obtain ⟨hlt, hf⟩ := swapAllocSlot_some he.alloc
  have hs := he.slot_eq h.small
  have ho : ∀ z, z ≠ x → swapIsPte (s'.entry z) = true →
      swapIsPte (s.entry z) = true ∧ s'.entry z = s.entry z ∧ swapPteToSlot (s.entry z) ≠ slot := by
    intro z hz hpte
    have heq := he.others z hz
    have hpte' : swapIsPte (s.entry z) = true := heq ▸ hpte
    refine ⟨hpte', heq, fun hs => ?_⟩
    have hu := (h.marked z hpte').2
    rw [hs, hf] at hu
    cases hu
  refine ⟨he.totalSlots ▸ h.small, fun z hz => ?_, fun z w hz hw hzw => ?_⟩
  · rw [he.totalSlots, he.used]
    by_cases hzx : z = x
    · rw [hzx, hs]
      exact ⟨hlt, update_self ..⟩
    obtain ⟨hpte, heq, hne⟩ := ho z hzx hz
    rw [heq, update_of_ne hne]
    exact h.marked z hpte
  by_cases hzx : z = x
  · by_cases hwx : w = x
    · rw [hzx, hwx]
    obtain ⟨-, heq, hne⟩ := ho w hwx hw
    rw [hzx, hs, heq] at hzw
    exact absurd hzw.symm hne
  obtain ⟨hpte, heq, hne⟩ := ho z hzx hz
  by_cases hwx : w = x
  · rw [hwx, hs, heq] at hzw
    exact absurd hzw hne
  obtain ⟨hpte', heq', -⟩ := ho w hwx hw
  rw [heq, heq'] at hzw
  exact h.apart z w hpte hpte' hzw

lemma Slots.fetched (h : Slots s) {f : ℕ} (hf : Fetched s x f s') : Slots s' := by
  have ho : ∀ z, swapIsPte (s'.entry z) = true → z ≠ x ∧ s'.entry z = s.entry z := by
    intro z hz
    have hzx : z ≠ x := by
      intro heq
      rw [heq, hf.entry, swapIsPte_present present_restored] at hz
      cases hz
    exact ⟨hzx, hf.others z hzx⟩
  refine ⟨hf.totalSlots ▸ h.small, fun z hz => ?_, fun z w hz hw hzw => ?_⟩
  · obtain ⟨hzx, heq⟩ := ho z hz
    rw [heq] at hz ⊢
    have hne : swapPteToSlot (s.entry z) ≠ swapPteToSlot (s.entry x) :=
      fun hs => hzx (h.apart z x hz hf.swapped hs)
    rw [hf.totalSlots, hf.used, update_of_ne hne]
    exact h.marked z hz
  obtain ⟨-, heq⟩ := ho z hz
  obtain ⟨-, heq'⟩ := ho w hw
  rw [heq] at hz hzw
  rw [heq'] at hw hzw
  exact h.apart z w hz hw hzw

lemma present_forked {e : Pte} (h : present e = true) : present (forked e) = true := by
  unfold forked
  split
  · exact present_cowEntry e
  · exact h

/-- The condition on a fork: no entry of the kernel's lower half that goes into the child is a
swapped one. -/
def KernelResident (s : State β) (src copied : ℕ) (cloned : ℕ → Bool) : Prop :=
  ∀ v, cloned v = true → ¬ (v < copied ∧ present (s.entry (src, v)) = true) →
    swapIsPte (s.entry (0, v)) = false

lemma quiet_fork {src child copied : ℕ} {cloned tables : ℕ → Bool}
    (h : KernelResident s src copied cloned) : Quiet s (fork s src child copied cloned tables) := by
  refine ⟨⟨rfl, rfl, rfl⟩, rfl, rfl, fun z hz => ?_⟩
  change swapIsPte (if z.1 = child then _ else _) = true at hz
  change (if z.1 = child then _ else _) = _
  split at hz
  · split at hz
    · rename_i hco
      rw [swapIsPte_present (present_forked hco.2)] at hz
      cases hz
    rename_i hno
    split at hz
    · rename_i hc
      rw [h z.2 hc hno] at hz
      cases hz
    · cases hz
  rename_i hch
  rw [if_neg hch]
  split at hz
  · rename_i hsrc
    rw [swapIsPte_present (present_forked hsrc.2.2)] at hz
    cases hz
  rename_i hsrc
  exact if_neg hsrc

lemma quiet_munmap {dir first last : ℕ} : Quiet s (munmap s dir first last) := by
  refine ⟨⟨rfl, rfl, rfl⟩, rfl, rfl, fun z hz => ?_⟩
  unfold munmap at hz ⊢
  dsimp only at hz ⊢
  split at hz
  · cases hz
  rename_i hno
  exact if_neg hno

def SlotSafe (s : State β) : Op → Prop
  | .fork src _ copied cloned _ => KernelResident s src copied cloned
  | _ => True

lemma Slots.step (h : Slots s) {op : Op} (hop : SlotSafe s op) (hs : op.exec s = some s') :
    Slots s' ∧ SameArea s s' := by
  cases op with
  | evict x g mem io =>
    cases hs
    rcases swapEvictPage_cases s x g mem io with ⟨-, hq, -⟩ | ⟨-, slot, he⟩
    · exact ⟨h.quiet hq, hq.toSameArea⟩
    · exact ⟨h.evicted he, he.toSameArea⟩
  | fault x g io =>
    cases hs
    rcases swapHandleFault_cases s x g io with ⟨-, heq⟩ | ⟨-, f, hf⟩
    · rw [heq]
      exact ⟨h, ⟨rfl, rfl, rfl⟩⟩
    · exact ⟨h.fetched hf, hf.toSameArea⟩
  | fork src child copied cloned tables =>
    rw [Op.exec] at hs
    split at hs
    · cases hs
    cases hs
    exact ⟨h.quiet (quiet_fork hop), ⟨rfl, rfl, rfl⟩⟩
  | munmap dir first last =>
    cases hs
    exact ⟨h.quiet quiet_munmap, ⟨rfl, rfl, rfl⟩⟩

/-- What `krust_swap_init` was passed does not reach beyond the 32-bit sector numbers. -/
def AreaFits (lbaStart totalSectors : ℕ) : Prop := lbaStart + totalSectors ≤ 2 ^ 32

/-- The slots lie one after the other in the area, behind its first page. -/
structure Laid (s : State β) : Prop where
  fits : s.lbaStart + s.totalSectors ≤ 2 ^ 32
  slots : 8 + s.totalSlots * 8 ≤ s.totalSectors

lemma Laid.slotLba_eq (h : Laid s) (hs : slot < s.totalSlots) :
    slotLba s slot = s.lbaStart + 8 + slot * 8 := by
  have := h.fits
  have := h.slots
  exact Nat.mod_eq_of_lt (by omega)

lemma Laid.same (h : Laid s) (hs : SameArea s s') : Laid s' := by
  refine ⟨?_, ?_⟩
  · rw [hs.lbaStart, hs.totalSectors]
    exact h.fits
  rw [hs.totalSlots, hs.totalSectors]
  exact h.slots

lemma init_slots {lbaStart totalSectors : ℕ} (hn : ∀ z, swapIsPte (s.entry z) = false)
    (ha : AreaFits lbaStart totalSectors)
    (hi : (krustSwapInit s lbaStart totalSectors true).2 = 0) :
    Slots (krustSwapInit s lbaStart totalSectors true).1 ∧
      Laid (krustSwapInit s lbaStart totalSectors true).1 := by
  unfold krustSwapInit at hi ⊢
  split at hi
  · cases hi
  rename_i hmin
  rw [if_neg hmin]
  dsimp only at hi ⊢
  split at hi
  · cases hi
  rename_i hs
  push Not at hs
  rw [if_neg (by push Not; exact hs), if_neg (by decide)]
  refine ⟨⟨hs.2, fun z hz => ?_, fun z w hz => ?_⟩, ha, ?_⟩
  · rw [hn z] at hz
    cases hz
  · rw [hn z] at hz
    cases hz
  dsimp only
  omega

lemma Reached.slots (h : Reached AreaFits SlotSafe s) : Slots s ∧ Laid s := by
  induction h with
  | init s lbaStart totalSectors hn ha hi => exact init_slots hn ha hi
  | step op h hop hs ih =>
    obtain ⟨hsl, ha⟩ := ih.1.step hop hs
    exact ⟨hsl, ih.2.same ha⟩

/-- In every run whose forks find no swapped entry in the kernel's lower half, on an area within
the 32-bit sector numbers: different swapped entries name different slots, these are marked used
and below the total, and the sectors of different slots are disjoint and inside the area. -/
theorem safe_run_slots (h : Reached AreaFits SlotSafe s) :
    (∀ x y, swapIsPte (s.entry x) = true → swapIsPte (s.entry y) = true → x ≠ y →
      swapPteToSlot (s.entry x) ≠ swapPteToSlot (s.entry y)) ∧
    (∀ x, swapIsPte (s.entry x) = true →
      s.used (swapPteToSlot (s.entry x)) = true ∧ swapPteToSlot (s.entry x) < s.totalSlots) ∧
    (∀ i j, i < s.totalSlots → j < s.totalSlots → i ≠ j →
      slotLba s i + 8 ≤ slotLba s j ∨ slotLba s j + 8 ≤ slotLba s i) ∧
    ∀ i, i < s.totalSlots →
      s.lbaStart ≤ slotLba s i ∧ slotLba s i + 8 ≤ s.lbaStart + s.totalSectors := by
  obtain ⟨hs, hl⟩ := h.slots
  refine ⟨fun x y hx hy hne hsl => hne (hs.apart x y hx hy hsl),
    fun x hx => (hs.marked x hx).symm, fun i j hi hj hne => ?_, fun i hi => ?_⟩
  · rw [hl.slotLba_eq hi, hl.slotLba_eq hj]
    omega
  rw [hl.slotLba_eq hi]
  have := hl.slots
  omega

/-- A directory of kernel pages, number 0, and a task without pages, number 1. -/
def bare : State ℕ where
  lbaStart := 0
  totalSectors := 0
  totalSlots := 0
  used := fun _ => false
  disk := fun _ => 0
  frame := fun f _ => f
  counts := ⟨4096, 16, fun _ => 0⟩
  table := fun _ => true
  entry := fun x => if x = (0, 5) then 0x3003 else 0

def ready : State ℕ := (krustSwapInit bare 100 24 true).1

lemma bare_none (x : Page) : swapIsPte (bare.entry x) = false := by
  change swapIsPte (if x = (0, 5) then 0x3003 else 0) = false
  split <;> decide

theorem safe_run_slots_evicted :
    Reached AreaFits SlotSafe (swapEvictPage ready (0, 5) none true true).1 ∧
      swapIsPte ((swapEvictPage ready (0, 5) none true true).1.entry (0, 5)) = true ∧
      swapPteToSlot ((swapEvictPage ready (0, 5) none true true).1.entry (0, 5)) < 2 := by
  have hrun : Reached AreaFits SlotSafe (swapEvictPage ready (0, 5) none true true).1 :=
    .step (.evict (0, 5) none true true)
      (.init bare 100 24 bare_none (by unfold AreaFits; decide) (by decide)) trivial rfl
  have hpte : swapIsPte ((swapEvictPage ready (0, 5) none true true).1.entry (0, 5)) = true := by
    decide
  exact ⟨hrun, hpte, ((safe_run_slots hrun).2.1 (0, 5) hpte).2⟩

/-- A page of the kernel's directory, mapped by a thread that runs on it, is swapped out; then any
task forks, and the child's directory names the same slot. -/
theorem fork_duplicates_slot :
    ∃ s₁ s₂ : State ℕ,
      (swapEvictPage ready (0, 5) none true true) = (s₁, true) ∧
      (Op.fork 1 2 0 (fun _ => true) fun _ => true).exec s₁ = some s₂ ∧
      swapIsPte (s₂.entry (0, 5)) = true ∧ swapIsPte (s₂.entry (2, 5)) = true ∧
      swapPteToSlot (s₂.entry (0, 5)) = swapPteToSlot (s₂.entry (2, 5)) :=
  ⟨_, _, rfl, rfl, by decide, by decide, by decide⟩

end Elitra.Swap
