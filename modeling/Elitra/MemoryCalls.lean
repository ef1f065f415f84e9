import Elitra.PageUnmap
import Elitra.VmaCover

namespace Elitra.Vmm
open List Paging

/-- The pages of a loop `while page < end { ..; page += 0x1000 }` between page borders. -/
def pageAt (first k : ℕ) : ℕ := first + k * 4096

def rounds (first stop : ℕ) : ℕ := (stop - first) / 4096

def unmapOne (page : ℕ) (s : Freeing) : Freeing :=
  match krustPagingGetPhys s.machine page with
  | none => s
  | some phys =>
    Freeing.free { s with machine := krustPagingUnmapPage s.machine page } (phys.toNat / 4096)

def unmapPages (first stop : ℕ) (m : Machine) : Freeing :=
  Loop.each (fun k => unmapOne (pageAt first k)) (List.range (rounds first stop)) ⟨m, []⟩

/-- System call 37 with the machine: the areas, the pages with the frames it frees, and `rax`. -/
def sysMunmapIn (s : Space) (m : Machine) (addr length : ℕ) (split : Bool) : Space × Freeing × ℕ :=
  if length = 0 then (s, ⟨m, []⟩, errorValue)
  else (sysMunmap s addr length split,
    unmapPages (alignDown addr) (alignUp (add64 addr length)) m, 0)

def sysBrkIn (s : Space) (m : Machine) (newBrk : ℕ) (split ok : Bool) : Space × Freeing × ℕ :=
  let s' := sysBrk s newBrk split ok
  if newBrk = 0 ∨ newBrk < brkInitial ∨ ustackVaddr - 0x100000 < newBrk ∨ s.programBrk < newBrk then
    (s', ⟨m, []⟩, s'.programBrk)
  else (s', unmapPages (alignUp newBrk) (alignUp s.programBrk) m, s'.programBrk)

section Unmap

variable {m : Machine} {place : Place} {first : ℕ}

lemma physOf_eq_none {v w : ℕ} {l : List Pte} (h : physOf v l = none) : physOf w l = none := by
  unfold physOf at h ⊢
  split at h
  · split_ifs at h with hp
    simp [hp]
  · split_ifs at h with hp
    simp [hp]
  · split_ifs at h with hp
    simp [hp]
  · rfl

lemma hits_trans {p q v : ℕ} (hpq : Hits m p q) (hqv : Hits m q v) : Hits m p v := by
  by_cases hp : Large (walkOf m m.cr3 p)
  · rw [hits_of_large hp] at hpq ⊢
    rcases hqv with ⟨-, hv⟩ | ⟨-, hv⟩
    · omega
    · omega
  rw [hits_of_not_large hp] at hpq ⊢
  have hq : ¬ Large (walkOf m m.cr3 q) := by rw [walkOf_of_page hpq]; exact hp
  exact ((hits_of_not_large hq).mp hqv).trans hpq

/-- The loop after `k` rounds: what the first `k` pages hit is gone, and each of them that was
mapped and not yet gone had its frame freed. -/
structure Cleared (m : Machine) (place : Place) (first k : ℕ) (s : Freeing) : Prop where
  shape : Shape m.cr3 place s.machine
  cr3 : s.machine.cr3 = m.cr3
  gone : ∀ v, (∃ j < k, Hits m (pageAt first j) v) →
    physOf v (walkOf s.machine m.cr3 v) = none ∧ NoGiant (walkOf s.machine m.cr3 v)
  kept : ∀ v, (¬ ∃ j < k, Hits m (pageAt first j) v) →
    walkOf s.machine m.cr3 v = walkOf m m.cr3 v
  freed : ∀ f, f ∈ s.freed ↔ ∃ j < k, ∃ phys,
    physOf (pageAt first j) (walkOf m m.cr3 (pageAt first j)) = some phys ∧
      phys.toNat / 4096 = f ∧ ∀ i < j, ¬ Hits m (pageAt first i) (pageAt first j)

variable {s : Freeing} {k : ℕ}

section Rounds

variable (h : Cleared m place first k s) (hg : ∀ v, NoGiant (walkOf m m.cr3 v))
include h hg

lemma Cleared.noGiant (v : ℕ) : NoGiant (walkOf s.machine m.cr3 v) := by
  by_cases hv : ∃ j < k, Hits m (pageAt first j) v
  · exact (h.gone v hv).2
  rw [h.kept v hv]
  exact hg v

/-- A round that finds nothing mapped: the page went with an earlier one, or never was there. -/
lemma Cleared.skip
    (hgo : ∀ v, Hits m (pageAt first k) v → physOf v (walkOf s.machine m.cr3 v) = none)
    (hf : ∀ phys, physOf (pageAt first k) (walkOf m m.cr3 (pageAt first k)) = some phys →
      ∃ j < k, Hits m (pageAt first j) (pageAt first k)) : Cleared m place first (k + 1) s := by
  refine ⟨h.shape, h.cr3, fun v hv => ?_, fun v hv => ?_, fun f => ?_⟩
  · rcases Nat.exists_lt_succ_right.mp hv with hv | hv
    · exact h.gone v hv
    · exact ⟨hgo v hv, h.noGiant hg v⟩
  · exact h.kept v fun hj => hv (Nat.exists_lt_succ_right.mpr (.inl hj))
  rw [h.freed f, Nat.exists_lt_succ_right]
  refine ⟨.inl, fun hor => hor.resolve_right ?_⟩
  rintro ⟨phys, hp, -, hno⟩
  obtain ⟨j, hj, hjk⟩ := hf phys hp
  exact hno j hj hjk

lemma Cleared.unmap {phys : Pte} (he : ¬ ∃ j < k, Hits m (pageAt first j) (pageAt first k))
    (hp : physOf (pageAt first k) (walkOf m m.cr3 (pageAt first k)) = some phys) :
    Cleared m place first (k + 1)
      (Freeing.free { s with machine := krustPagingUnmapPage s.machine (pageAt first k) }
        (phys.toNat / 4096)) := by
  have hng := h.noGiant hg (pageAt first k)
  rw [← h.cr3] at hng
  have hun := unmapPage_spec (h.cr3 ▸ h.shape) hng
  have hh : ∀ v, Hits s.machine (pageAt first k) v ↔ Hits m (pageAt first k) v := by
    intro v
    unfold Hits
    rw [h.cr3, h.kept _ he]
  rw [h.cr3] at hun
  refine ⟨hun.shape, hun.cr3.trans h.cr3, fun v hv => ?_, fun v hv => ?_, fun f => ?_⟩
  · by_cases hk : Hits m (pageAt first k) v
    · exact hun.gone v ((hh v).mpr hk)
    have hke := hun.kept v (mt (hh v).mp hk)
    change physOf v (walkOf (krustPagingUnmapPage s.machine (pageAt first k)) m.cr3 v) = none ∧
      NoGiant (walkOf (krustPagingUnmapPage s.machine (pageAt first k)) m.cr3 v)
    rw [hke]
    exact h.gone v ((Nat.exists_lt_succ_right.mp hv).resolve_right hk)
  · rw [Nat.exists_lt_succ_right, not_or] at hv
    exact (hun.kept v (mt (hh v).mp hv.2)).trans (h.kept v hv.1)
  change f ∈ s.freed ++ [phys.toNat / 4096] ↔ _
  rw [mem_append, mem_singleton, h.freed f, Nat.exists_lt_succ_right]
  refine or_congr Iff.rfl ⟨fun hf => ⟨phys, hp, hf.symm, fun i hi hik => ?_⟩, ?_⟩
  · exact he ⟨i, hi, hik⟩
  rintro ⟨phys', hs, hf, -⟩
  rw [hp, Option.some.injEq] at hs
  rw [hs, hf]

lemma Cleared.step :
    Cleared m place first (k + 1) (unmapOne (pageAt first k) s) := by
  have hget : krustPagingGetPhys s.machine (pageAt first k) =
      physOf (pageAt first k) (walkOf s.machine m.cr3 (pageAt first k)) := by
    have hng := h.noGiant hg (pageAt first k)
    rw [← h.cr3] at hng ⊢
    exact getPhys_eq hng
  rw [unmapOne, hget]
  by_cases hea : ∃ j < k, Hits m (pageAt first j) (pageAt first k)
  · -- The page went with an earlier one of its 2 MB page.
    rw [(h.gone _ hea).1]
    refine h.skip hg (fun v hv => ?_) fun _ _ => hea
    obtain ⟨j, hj, hjk⟩ := hea
    exact (h.gone v ⟨j, hj, hits_trans hjk hv⟩).1
  have hw := h.kept _ hea
  rw [hw]
  cases hp : physOf (pageAt first k) (walkOf m m.cr3 (pageAt first k)) with
  | none =>
    -- not mapped, hence not in a 2 MB page: only its own addresses are hit
    have hsm : ¬ Large (walkOf m m.cr3 (pageAt first k)) := by
      rintro ⟨a, b, e, hl, he⟩
      rw [hl] at hp
      simp [physOf, he] at hp
    refine h.skip hg (fun v hv => ?_) fun phys hs => ?_
    · rw [walkOf_of_page ((hits_of_not_large hsm).mp hv)]
      exact physOf_eq_none ((congrArg _ hw).trans hp)
    rw [hp] at hs
    cases hs
  | some phys => exact h.unmap hg hea hp

end Rounds

lemma unmapPages_spec (h : Shape m.cr3 place m) (hg : ∀ v, NoGiant (walkOf m m.cr3 v))
    (first stop : ℕ) : Cleared m place first (rounds first stop) (unmapPages first stop m) := by
  refine Loop.each_range (fun k s => Cleared m place first k s) ?_ fun k s _ hs => hs.step hg
  exact ⟨h, rfl, by simp, fun _ _ => rfl, by simp⟩

/-- The addresses that exist: bit 47 is repeated in the bits above it. -/
def Canonical (v : ℕ) : Prop := v < 2 ^ 47 ∨ (2 ^ 64 - 2 ^ 47 ≤ v ∧ v < 2 ^ 64)

/-- The active directory has the kernel's mapping of the address. -/
def KernelMapping (m : Machine) (v : ℕ) : Prop :=
  physOf v (walkOf m m.pml4 v) = physOf v (walkOf m m.cr3 v)

/-- The directory `r` maps the frame `f` with the COW bit. -/
def CowMaps (m : Machine) (r f : ℕ) : Prop :=
  ∃ v a b c e, walkOf m r v = [a, b, c, e] ∧ present e = true ∧ cow e = true ∧ pteFrame e = f

/-- A call by a task with space `s`, from the machine `m`: what it unmaps lies in areas of the task
and is no mapping of the kernel, and no frame it frees is mapped with the COW bit by one of the
other directories. -/
structure Confined (s : Space) (m : Machine) (others : Set ℕ) (r : Freeing) : Prop where
  inside : ∀ v, Canonical v → physOf v (walkOf m m.cr3 v) ≠ none →
    physOf v (walkOf r.machine m.cr3 v) = none →
      (∃ flags, Covered s.vmas v flags) ∧ ¬ KernelMapping m v
  unshared : ∀ f ∈ r.freed, ∀ o ∈ others, ¬ CowMaps m o f

/-- The condition on the range of a call: every mapped page in it, with the rest of its 2 MB page if
it lies in one, is the task's own, and its frame is not shared on write. -/
structure SafeRange (s : Space) (m : Machine) (others : Set ℕ) (first stop : ℕ) : Prop where
  inside : ∀ k < rounds first stop, ∀ v, Canonical v → Hits m (pageAt first k) v →
    physOf v (walkOf m m.cr3 v) ≠ none → (∃ flags, Covered s.vmas v flags) ∧ ¬ KernelMapping m v
  unshared : ∀ k < rounds first stop, ∀ phys,
    physOf (pageAt first k) (walkOf m m.cr3 (pageAt first k)) = some phys →
      (∀ i < k, ¬ Hits m (pageAt first i) (pageAt first k)) →
        ∀ o ∈ others, ¬ CowMaps m o (phys.toNat / 4096)

lemma unmapPages_confined_iff (h : Shape m.cr3 place m) (hg : ∀ v, NoGiant (walkOf m m.cr3 v))
    (s : Space) (others : Set ℕ) (first stop : ℕ) :
    Confined s m others (unmapPages first stop m) ↔ SafeRange s m others first stop := by
  have hsp := unmapPages_spec h hg first stop
  constructor
  · intro hc
    refine ⟨fun k hk v hv hhit hm => ?_, fun k hk phys hp hno => ?_⟩
    · exact hc.inside v hv hm (hsp.gone v ⟨k, hk, hhit⟩).1
    · exact hc.unshared _ ((hsp.freed _).mpr ⟨k, hk, phys, hp, rfl, hno⟩)
  intro hs
  refine ⟨fun v hv hm hgo => ?_, fun f hf => ?_⟩
  · by_cases hhit : ∃ k < rounds first stop, Hits m (pageAt first k) v
    · obtain ⟨k, hk, hhit⟩ := hhit
      exact hs.inside k hk v hv hhit hm
    rw [hsp.kept v hhit] at hgo
    exact absurd hgo hm
  obtain ⟨k, hk, phys, hp, rfl, hno⟩ := (hsp.freed f).mp hf
  exact hs.unshared k hk phys hp hno

/-- An `munmap`, and a `brk` that shrinks, stay within what the task owns exactly when every mapped
page of the range they walk is its own: they ask neither the areas nor the COW counts. -/
theorem unmap_calls_confined_iff (h : Shape m.cr3 place m) (hg : ∀ v, NoGiant (walkOf m m.cr3 v))
    (s : Space) (others : Set ℕ) :
    (∀ addr length split, length ≠ 0 →
      (Confined s m others (sysMunmapIn s m addr length split).2.1 ↔
        SafeRange s m others (alignDown addr) (alignUp (add64 addr length)))) ∧
    ∀ newBrk split ok, brkInitial ≤ newBrk → newBrk ≤ ustackVaddr - 0x100000 →
      newBrk ≤ s.programBrk →
      (Confined s m others (sysBrkIn s m newBrk split ok).2.1 ↔
        SafeRange s m others (alignUp newBrk) (alignUp s.programBrk)) := by
  refine ⟨fun addr length split hl => ?_, fun newBrk split ok hlow hh hs => ?_⟩
  · rw [sysMunmapIn, if_neg hl]
    exact unmapPages_confined_iff h hg s others _ _
  have hpos : newBrk ≠ 0 := by
    unfold brkInitial at hlow
    omega
  rw [sysBrkIn, if_neg (by omega)]
  exact unmapPages_confined_iff h hg s others _ _

end Unmap

section Protect

variable {m : Machine} {place : Place} {first : ℕ} {flags : Pte}

def protectOne (flags : Pte) (page : ℕ) (m : Machine) : Machine :=
  match krustPagingGetPhys m page with
  | none => m
  | some phys => (krustPagingMapPage m page phys flags).1

/-- The address lies in one of the first `k` pages. -/
def Visited (first k v : ℕ) : Prop := ∃ j < k, v / 4096 % 2 ^ 36 = pageAt first j / 4096 % 2 ^ 36

/-- The loop after `k` rounds: the mapped pages among the first `k` have the new flags, all other
walks are as they were. -/
structure Protected (m : Machine) (place : Place) (first : ℕ) (flags : Pte) (k : ℕ) (m' : Machine) :
    Prop where
  shape : Shape m.cr3 place m'
  cr3 : m'.cr3 = m.cr3
  changed : ∀ v, Visited first k v → ∀ a b c e, walkOf m m.cr3 v = [a, b, c, e] →
    present e = true → walkOf m' m.cr3 v = [a, b, c, leafEntry e flags]
  kept : ∀ v, ¬ Visited first k v ∨ physOf v (walkOf m m.cr3 v) = none →
    walkOf m' m.cr3 v = walkOf m m.cr3 v

variable {m' : Machine}

variable {v k : ℕ}

lemma Protected.current (h : Protected m place first flags k m')
    {a b c e : Pte} (hw : walkOf m m.cr3 v = [a, b, c, e]) (hp : present e = true) :
    ∃ e', walkOf m' m.cr3 v = [a, b, c, e'] ∧ present e' = true ∧
      e' &&& pteMask = e &&& pteMask := by
  by_cases hv : Visited first k v
  · exact ⟨_, h.changed v hv a b c e hw hp, present_leafEntry _ _, addr_leafEntry _ _⟩
  · exact ⟨e, (h.kept v (.inl hv)).trans hw, hp, rfl⟩

lemma Protected.skip (h : Protected m place first flags k m')
    (hph : physOf (pageAt first k) (walkOf m m.cr3 (pageAt first k)) = none) :
    Protected m place first flags (k + 1) m' := by
  refine ⟨h.shape, h.cr3, fun v hv a b c e hw hp => ?_, fun v hv => h.kept v ?_⟩
  · rcases Nat.exists_lt_succ_right.mp hv with hv | hv
    · exact h.changed v hv a b c e hw hp
    rw [← walkOf_of_page hv, hw] at hph
    simp [physOf, hp] at hph
  · exact hv.imp_left fun hnot hj => hnot (Nat.exists_lt_succ_right.mpr (.inl hj))

lemma protectOne_mapped {a b c e : Pte} (h : Shape m.cr3 place m)
    (hg : NoGiant (walkOf m m.cr3 v)) (hw : walkOf m m.cr3 v = [a, b, c, e])
    (hp : present e = true) (hoff : v % 4096 = 0) :
    Shape m.cr3 place (protectOne flags v m) ∧ (protectOne flags v m).cr3 = m.cr3 ∧
      ∀ w, walkOf (protectOne flags v m) m.cr3 w =
        if w / 4096 % 2 ^ 36 = v / 4096 % 2 ^ 36 then [a, b, c, leafEntry e flags]
        else walkOf m m.cr3 w := by
  have hget : krustPagingGetPhys m v = some (e &&& pteMask) := by
    rw [getPhys_eq hg, hw, physOf, if_pos hp, hoff, BitVec.or_zero]
  obtain ⟨t, ht⟩ := descend_of_four (show (walkOf m m.cr3 v).length = 4 by rw [hw]; rfl)
  have hone : protectOne flags v m = writeEntry m t (ptI v) (leafEntry e flags) := by
    rw [protectOne, hget]
    change (krustPagingMapPageIn m m.cr3 _ _ _).1 = _
    rw [mapPageIn_inplace ht, leafEntry_mask]
  have hv : indices v = [pml4I v, pdpI v, pdI v] ++ [ptI v] := rfl
  obtain ⟨hsh, -, hh, ho⟩ := h.write (fullPath_of_append v hv (by simp)) ht (i := ptI v)
    (e := leafEntry e flags) (.inl rfl)
  have htr : Radix.trail linkNext m.mem m.cr3 [pml4I v, pdpI v, pdI v] = [a, b, c] := by
    have hs := walkOf_append ht hv
    rw [hw, Radix.trail_single, show [a, b, c, e] = [a, b, c] ++ [e] from rfl] at hs
    exact (append_inj' hs rfl).1.symm
  rw [hone]
  refine ⟨hsh, rfl, fun w => ?_⟩
  split
  · rename_i hsa
    rw [hh w [] ((indices_eq_iff w v).mpr hsa), htr]
    rfl
  rename_i hne
  exact ho w fun ys hys => hne ((through_page w v).mp ⟨ys, hys⟩)

lemma Protected.step (h : Protected m place first flags k m')
    (hf : first % 4096 = 0) (hg : ∀ v, NoGiant (walkOf m m.cr3 v))
    (hsm : ¬ Large (walkOf m m.cr3 (pageAt first k))) :
    Protected m place first flags (k + 1) (protectOne flags (pageAt first k) m') := by
  by_cases hph : physOf (pageAt first k) (walkOf m m.cr3 (pageAt first k)) = none
  · -- nothing is mapped, so `krust_paging_get_phys` fails and the round ends
    have hke := h.kept _ (.inr hph)
    have hget : krustPagingGetPhys m' (pageAt first k) = none := by
      rw [getPhys_eq (by rw [h.cr3, hke]; exact hg _), h.cr3, hke, hph]
    rw [protectOne, hget]
    exact h.skip hph
  obtain ⟨a, b, c, e, hw, hp⟩ := walk_of_mapped (hg _) hsm hph
  obtain ⟨e', hw', hp', ha⟩ := h.current hw hp
  have hoff : pageAt first k % 4096 = 0 := by
    unfold pageAt
    omega
  have hng : NoGiant (walkOf m' m.cr3 (pageAt first k)) := by
    have := hg (pageAt first k)
    rw [hw] at this
    rw [hw']
    exact this
  rw [← h.cr3] at hng hw'
  obtain ⟨hs, hcr3, hwa⟩ := protectOne_mapped (h.cr3 ▸ h.shape) hng hw' hp' hoff
  rw [h.cr3] at hs hcr3 hwa
  -- an earlier round over the same page, after a wrap, left the address as it was
  have he : leafEntry e' flags = leafEntry e flags := by rw [leafEntry, leafEntry, ha]
  refine ⟨hs, hcr3, fun v hv a' b' c' e0 hw0 hp0 => ?_, fun v hv => ?_⟩
  · rw [hwa v]
    by_cases hk : v / 4096 % 2 ^ 36 = pageAt first k / 4096 % 2 ^ 36
    · have hsa : [a', b', c', e0] = [a, b, c, e] := by rw [← hw0, ← hw, walkOf_of_page hk]
      simp only [cons.injEq] at hsa
      rw [if_pos hk, he]
      simp [hsa]
    rw [if_neg hk]
    exact h.changed v ((Nat.exists_lt_succ_right.mp hv).resolve_right hk) a' b' c' e0 hw0 hp0
  have hk : ¬ v / 4096 % 2 ^ 36 = pageAt first k / 4096 % 2 ^ 36 := by
    intro hk
    rcases hv with hv | hn
    · exact hv (Nat.exists_lt_succ_right.mpr (.inr hk))
    rw [walkOf_of_page hk, hw] at hn
    simp [physOf, hp] at hn
  rw [hwa v, if_neg hk]
  exact h.kept v (hv.imp_left fun hnot hj => hnot (Nat.exists_lt_succ_right.mpr (.inl hj)))

end Protect

/-- A task's directory with one page; the kernel's directory, in frame 15, is empty. -/
def taskMachine : Machine := { smallMachine 0x4007#64 0x9007#64 with pml4 := 15 }

lemma taskMachine_kernel (v : ℕ) : physOf v (walkOf taskMachine 15 v) = none := by
  have hz : taskMachine.mem 15 (pml4I v) = 0#64 := by simp [taskMachine, smallMachine]
  have hw : walkOf taskMachine 15 v = [] ++ [0#64] := by
    rw [walkOf, indices, Radix.trail_stop (linkNext_absent (by rw [hz]; decide)), hz]
    rfl
  rw [hw, physOf_absent [] (by decide)]

theorem unmap_calls_confined_iff_page :
    Confined ⟨[⟨0x5000, 0x6000, 0x103⟩], brkInitial⟩ taskMachine ∅
      (sysMunmapIn ⟨[⟨0x5000, 0x6000, 0x103⟩], brkInitial⟩ taskMachine 0x5000 0x1000 true).2.1 := by
  refine ((unmap_calls_confined_iff (m := taskMachine) (smallMachine_tree (.inr (by decide))).forest
    (smallMachine_noGiant _ _) _ ∅).1 0x5000 0x1000 true (by decide)).mpr
    ⟨?_, fun _ _ _ _ _ o ho => absurd ho (by simp)⟩
  intro k hk v hv hhit hm
  have hk0 : k = 0 := by
    have : rounds (alignDown 0x5000) (alignUp (add64 0x5000 0x1000)) = 1 := by decide
    omega
  subst hk0
  have hp : v / 4096 % 2 ^ 36 = 5 := by
    rcases hhit with ⟨-, hp⟩ | ⟨⟨a, b, e, hl, -⟩, -⟩
    · exact hp
    have hf : (walkOf taskMachine 1 0x5000).length = 4 := by decide
    have := hf.symm.trans (congrArg length hl)
    simp at this
  refine ⟨⟨0x103, ⟨0x5000, 0x6000, 0x103⟩, by simp, ?_⟩, fun hke => hm ?_⟩
  · unfold Canonical at hv
    refine ⟨?_, ?_, rfl⟩
    · dsimp only
      omega
    dsimp only
    omega
  rw [← hke]
  exact taskMachine_kernel v

/-- The kernel's directory in frame 1 and a task's in frame 5 share the kernel's half of the address
space, with a page in frame 9. The task shares its page at 0x5000, in frame 10, with the directory
in frame 11. -/
def callMachine : Machine where
  mem t i :=
    if i = 256 then if t = 1 ∨ t = 5 then 0x2003#64 else 0#64
    else if i = 0 then
      if t = 2 then 0x3003#64 else if t = 3 then 0x4003#64
      else if t = 5 then 0x6007#64 else if t = 6 then 0x7007#64 else if t = 7 then 0x8007#64
      else if t = 11 then 0xC007#64 else if t = 12 then 0xD007#64 else if t = 13 then 0xE007#64
      else 0#64
    else if i = 5 then
      if t = 4 then 0x9003#64 else if t = 8 ∨ t = 14 then 0xA205#64 else 0#64
    else 0#64
  pmm := smallPmm
  cow := ⟨0, 0, fun _ => 0⟩
  pml4 := 1
  cr3 := 5

/-- The task has no areas. An `munmap` of a kernel page unmaps it for everybody and frees its frame;
an `munmap` of the shared page frees the frame that the other task still maps. -/
theorem munmap_frees_foreign_pages :
    ¬ Confined ⟨[], brkInitial⟩ callMachine {11}
      (sysMunmapIn ⟨[], brkInitial⟩ callMachine 0xFFFF800000005000 0x1000 true).2.1 ∧
    (sysMunmapIn ⟨[], brkInitial⟩ callMachine 0xFFFF800000005000 0x1000 true).2.1.freed = [9] ∧
    ¬ Confined ⟨[], brkInitial⟩ callMachine {11}
      (sysMunmapIn ⟨[], brkInitial⟩ callMachine 0x5000 0x1000 true).2.1 ∧
    (sysMunmapIn ⟨[], brkInitial⟩ callMachine 0x5000 0x1000 true).2.1.freed = [10] ∧
    CowMaps callMachine 11 10 := by
  have hf : (sysMunmapIn ⟨[], brkInitial⟩ callMachine 0x5000 0x1000 true).2.1.freed = [10] := by
    decide
  have hcow : CowMaps callMachine 11 10 :=
    ⟨0x5000, 0xC007#64, 0xD007#64, 0xE007#64, 0xA205#64, by decide⟩
  refine ⟨fun h => ?_, by decide, fun h => ?_, hf, hcow⟩
  · obtain ⟨⟨flags, hcov⟩, -⟩ := h.inside 0xFFFF800000005000 (.inr (by decide)) (by decide)
      (by decide)
    exact covered_nil hcov
  · exact h.unshared 10 (by rw [hf]; simp) 11 rfl hcow

end Elitra.Vmm
