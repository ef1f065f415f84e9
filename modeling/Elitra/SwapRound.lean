import Elitra.SwapRun

namespace Elitra.Swap
open Paging

variable {β : Type} {s s' : State β} {x : Page}

section Disk

variable {disk : ℕ → β} {lba lba' : ℕ} {page : Fin 8 → β}

lemma readPage_writePage : readPage (writePage disk lba page) lba = page := by
  funext i
  have hi := i.isLt
  simp [readPage, writePage]

lemma readPage_writePage_of_apart (h : lba + 8 ≤ lba' ∨ lba' + 8 ≤ lba) :
    readPage (writePage disk lba' page) lba = readPage disk lba := by
  funext i
  have hi := i.isLt
  exact dif_neg (by omega)

end Disk

/-- An eviction or a swap-in fault of another page. -/
def Op.OfOther (x : Page) : Op → Prop
  | .evict y _ _ _ => y ≠ x
  | .fault y _ _ => y ≠ x
  | _ => False

inductive Others (x : Page) : State β → State β → Prop
  | refl (s : State β) : Others x s s
  | step {s₀ s s' : State β} (op : Op) (h : Others x s₀ s) (hop : op.OfOther x)
      (hs : op.exec s = some s') : Others x s₀ s'

/-- The page `x` is out, in the slot that its entry names, and no other entry names that slot. -/
structure Parked (x : Page) (e : Pte) (page : Fin 8 → β) (s : State β) : Prop where
  entry : s.entry x = e
  small : s.totalSlots ≤ maxSwapSlots
  laid : Laid s
  below : swapPteToSlot e < s.totalSlots
  used : s.used (swapPteToSlot e) = true
  page : readPage s.disk (slotLba s (swapPteToSlot e)) = page
  alone : ∀ y, y ≠ x → swapIsPte (s.entry y) = true → swapPteToSlot (s.entry y) ≠ swapPteToSlot e

section Parked

variable {e : Pte} {page : Fin 8 → β} {y : Page}

lemma Parked.quiet (h : Parked x e page s) (hq : Quiet s s') (hx : s'.entry x = s.entry x) :
    Parked x e page s' := by
  refine ⟨hx.trans h.entry, hq.totalSlots ▸ h.small, h.laid.same hq.toSameArea,
    hq.totalSlots ▸ h.below, hq.used ▸ h.used, ?_, fun z hz hpte => ?_⟩
  · rw [hq.disk, hq.toSameArea.slotLba]
    exact h.page
  have heq := hq.entry z hpte
  rw [heq] at hpte ⊢
  exact h.alone z hz hpte

lemma Parked.evicted (h : Parked x e page s) (hy : y ≠ x) {slot : ℕ} (he : Evicted s y slot s') :
    Parked x e page s' := by
  obtain ⟨hlt, hf⟩ := swapAllocSlot_some he.alloc
  have hne : slot ≠ swapPteToSlot e := by
    intro heq
    rw [heq, h.used] at hf
    cases hf
  have hs := he.slot_eq h.small
  refine ⟨(he.others x hy.symm).trans h.entry, he.totalSlots ▸ h.small, h.laid.same he.toSameArea,
    he.totalSlots ▸ h.below, ?_, ?_, fun z hz hpte => ?_⟩
  · rw [he.used, Function.update_of_ne hne.symm]
    exact h.used
  · rw [he.disk, he.toSameArea.slotLba, readPage_writePage_of_apart]
    · exact h.page
    rw [h.laid.slotLba_eq h.below, h.laid.slotLba_eq hlt]
    omega
  by_cases hzy : z = y
  · rw [hzy, hs]
    exact hne
  rw [he.others z hzy] at hpte ⊢
  exact h.alone z hz hpte

lemma Parked.fetched (h : Parked x e page s) (hy : y ≠ x) {f : ℕ} (hf : Fetched s y f s') :
    Parked x e page s' := by
  have hne := h.alone y hy hf.swapped
  refine ⟨(hf.others x hy.symm).trans h.entry, hf.totalSlots ▸ h.small, h.laid.same hf.toSameArea,
    hf.totalSlots ▸ h.below, ?_, ?_, fun z hz hpte => ?_⟩
  · rw [hf.used, Function.update_of_ne hne.symm]
    exact h.used
  · rw [hf.disk, hf.toSameArea.slotLba]
    exact h.page
  by_cases hzy : z = y
  · rw [hzy, hf.entry, swapIsPte_present present_restored] at hpte
    cases hpte
  rw [hf.others z hzy] at hpte ⊢
  exact h.alone z hz hpte

lemma Parked.others {s0 : State β} (h : Parked x e page s0) (hrun : Others x s0 s) :
    Parked x e page s := by
  induction hrun with
  | refl => exact h
  | @step s s' op _ hop hs hp =>
    cases op with
    | evict y g mem io =>
      cases hs
      rcases swapEvictPage_cases s y g mem io with ⟨-, hq, ho⟩ | ⟨-, slot, he⟩
      · exact hp.quiet hq (ho x hop.symm)
      · exact hp.evicted hop he
    | fault y g io =>
      cases hs
      rcases swapHandleFault_cases s y g io with ⟨-, heq⟩ | ⟨-, f, hf⟩
      · rw [heq]
        exact hp
      · exact hp.fetched hop hf
    | fork src child copied cloned tables => exact absurd hop id
    | munmap dir first last => exact absurd hop id

end Parked

/-- The page is back with its flags and its contents. -/
structure Restored (s s' : State β) (x : Page) : Prop where
  present : present (s'.entry x) = true
  writable : writable (s'.entry x) = writable (s.entry x)
  user : user (s'.entry x) = user (s.entry x)
  noExec : noExec (s'.entry x) = noExec (s.entry x)
  contents : s'.frame (pteFrame (s'.entry x)) = s.frame (pteFrame (s.entry x))

/-- A page that is evicted and, after any evictions and faults of other pages, faulted in again has
its contents back, and its flags exactly when none of the three was set: the swap PTE keeps only
the bits 4 to 11. -/
theorem evict_fault_restores_iff (hreach : Reached AreaFits SlotSafe s) {s₁ s₂ s₃ : State β}
    {g g' : Option (Fin (2 ^ 40))} {mem io io' : Bool}
    (hevict : swapEvictPage s x g mem io = (s₁, true)) (hrun : Others x s₁ s₂)
    (hfault : swapHandleFault s₂ x g' io' = (s₃, true)) :
    Restored s s₃ x ↔
      writable (s.entry x) = false ∧ user (s.entry x) = false ∧ noExec (s.entry x) = false := by
  obtain ⟨hs, hl⟩ := hreach.slots
  have hout : ∃ slot, Evicted s x slot s₁ := by
    rcases swapEvictPage_cases s x g mem io with ⟨hno, -⟩ | ⟨-, he⟩
    · rw [hevict] at hno
      cases hno
    · rwa [hevict] at he
  obtain ⟨slot, he⟩ := hout
  have hin : ∃ f, Fetched s₂ x f s₃ := by
    rcases swapHandleFault_cases s₂ x g' io' with ⟨hno, -⟩ | ⟨-, hf⟩
    · rw [hfault] at hno
      cases hno
    · rwa [hfault] at hf
  obtain ⟨f, hf⟩ := hin
  have hs1 := hs.evicted he
  have hpte : swapIsPte (s₁.entry x) = true := he.entry ▸ swapIsPte_evicted
  have hsl := he.slot_eq hs.small
  have hp : Parked x (s₁.entry x) (s.frame (pteFrame (s.entry x))) s₁ := by
    refine ⟨rfl, hs1.small, hl.same he.toSameArea, (hs1.marked x hpte).1,
      (hs1.marked x hpte).2, ?_, fun y hy hy' heq => hy (hs1.apart y x hy' hpte heq)⟩
    rw [hsl, he.disk, he.toSameArea.slotLba, readPage_writePage]
  have hb := hp.others hrun
  have hc : s₃.frame (pteFrame (s₃.entry x)) = s.frame (pteFrame (s.entry x)) := by
    rw [hf.entry, pteFrame_restored hf.small, hf.frame, hb.entry]
    exact hb.page
  have hw : writable (s₃.entry x) = false := by
    rw [hf.entry, writable_eq, restored_getLsbD (by omega)]
  have hu : user (s₃.entry x) = false := by
    rw [hf.entry, user_eq, restored_getLsbD (by omega)]
  have hn : noExec (s₃.entry x) = false := by
    rw [hf.entry, noExec_eq, restored_getLsbD (by omega)]
  constructor
  · intro h
    exact ⟨h.writable.symm.trans hw, h.user.symm.trans hu, h.noExec.symm.trans hn⟩
  intro ⟨hw', hu', hn'⟩
  exact ⟨hf.entry ▸ present_restored, hw.trans hw'.symm, hu.trans hu'.symm, hn.trans hn'.symm, hc⟩

/-- Two read-only supervisor pages, in frames 3 and 4, and an area of two slots. -/
def twoPages : State ℕ :=
  (krustSwapInit { bare with
    entry := fun x => if x = (1, 5) then 0x3021 else if x = (1, 7) then 0x4021 else 0 } 100 24 true).1

theorem evict_fault_restores_iff_readonly :
    ∃ s₁ s₂ s₃ : State ℕ, swapEvictPage twoPages (1, 5) none true true = (s₁, true) ∧
      Others (1, 5) s₁ s₂ ∧ swapIsPte (s₂.entry (1, 7)) = true ∧
      swapHandleFault s₂ (1, 5) (some 9) true = (s₃, true) ∧ Restored twoPages s₃ (1, 5) := by
  have hr : Reached AreaFits SlotSafe twoPages := by
    refine .init _ 100 24 (fun x => ?_) (by unfold AreaFits; decide) (by decide)
    dsimp only
    split
    · decide
    · split <;> decide
  have hrun : Others (1, 5) (swapEvictPage twoPages (1, 5) none true true).1
      (swapEvictPage (swapEvictPage twoPages (1, 5) none true true).1 (1, 7) none true true).1 :=
    .step (.evict (1, 7) none true true) (.refl _) (by simp [Op.OfOther]) rfl
  have he : swapEvictPage twoPages (1, 5) none true true =
      ((swapEvictPage twoPages (1, 5) none true true).1, true) := rfl
  have hf : ∃ s₃, swapHandleFault (swapEvictPage (swapEvictPage twoPages (1, 5) none true true).1
      (1, 7) none true true).1 (1, 5) (some 9) true = (s₃, true) := ⟨_, rfl⟩
  obtain ⟨s₃, hf⟩ := hf
  exact ⟨_, _, s₃, he, hrun, by decide, hf,
    (evict_fault_restores_iff hr he hrun hf).mpr (by decide)⟩

/-- A writable user page without other flags, in frame 3. -/
def userPage : State ℕ :=
  (krustSwapInit { bare with entry := fun x => if x = (1, 5) then 0x3007 else 0 } 100 24 true).1

/-- It comes back read-only and closed to the user. -/
theorem swap_loses_flags :
    ∃ s₁ s₂ : State ℕ, swapEvictPage userPage (1, 5) none true true = (s₁, true) ∧
      swapHandleFault s₁ (1, 5) (some 9) true = (s₂, true) ∧
      writable (userPage.entry (1, 5)) = true ∧ writable (s₂.entry (1, 5)) = false ∧
      user (userPage.entry (1, 5)) = true ∧ user (s₂.entry (1, 5)) = false :=
  ⟨_, _, rfl, rfl, by decide, by decide, by decide, by decide⟩

end Elitra.Swap
