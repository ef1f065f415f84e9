import Elitra.PageMap

namespace Elitra.Paging
open List Radix

section Unmap

variable {m : Machine} {root virt : ℕ} {place : Place}

/-- The walk ends in a 2 MB page. -/
def Large (l : List Pte) : Prop := ∃ a b e, l = [a, b, e] ∧ present e = true

/-- The addresses for which `hit` holds are unmapped, all others keep their walks. -/
structure Unmaps (root : ℕ) (place : Place) (hit : ℕ → Prop) (m m' : Machine) : Prop where
  shape : Shape root place m'
  cr3 : m'.cr3 = m.cr3
  gone : ∀ v, hit v → physOf v (walkOf m' root v) = none ∧ NoGiant (walkOf m' root v)
  kept : ∀ v, ¬ hit v → walkOf m' root v = walkOf m root v

lemma noGiant_stop {path : List ℕ} {t : ℕ} (ht : descend linkNext m.mem root path = some t) :
    NoGiant (trail linkNext m.mem root path ++ [0]) := by
  intro a ha hp
  rcases mem_append.mp (mem_of_mem_take ha) with hmem | hmem
  · obtain ⟨u, hu⟩ := next_of_mem_trail ht a hmem
    exact (linkNext_eq_some hu).2.1
  rw [mem_singleton.mp hmem] at hp
  exact absurd hp (by decide)

lemma Shape.clear (h : Shape root place m) {path : List ℕ} {t i : ℕ} (hp : FullPath path)
    (ht : descend linkNext m.mem root path = some t) :
    Unmaps root place (fun v => ∃ ys, indices v = path ++ i :: ys) m (writeEntry m t i 0) := by
  obtain ⟨hs, -, hh, ho⟩ := h.write hp ht (i := i) (e := 0) (.inr (by decide))
  refine ⟨hs, rfl, ?_, fun v hv => ho v fun ys hys => hv ⟨ys, hys⟩⟩
  rintro v ⟨ys, hys⟩
  rw [hh v ys hys]
  exact ⟨physOf_absent _ present_zero, noGiant_stop ht⟩

lemma through_page (v virt : ℕ) :
    (∃ ys, indices v = [pml4I virt, pdpI virt, pdI virt] ++ ptI virt :: ys) ↔
      v / 4096 % 2 ^ 36 = virt / 4096 % 2 ^ 36 := by
  rw [← indices_eq_iff]
  constructor
  · rintro ⟨ys, hys⟩
    rw [hys, indices_last hys rfl]
    rfl
  · exact fun heq => ⟨[], heq⟩

lemma through_large (v virt : ℕ) :
    (∃ ys, indices v = [pml4I virt, pdpI virt] ++ pdI virt :: ys) ↔
      v / 2 ^ 21 % 2 ^ 27 = virt / 2 ^ 21 % 2 ^ 27 := by
  constructor
  · rintro ⟨ys, hys⟩
    simp only [indices, cons_append, nil_append, cons.injEq, pml4I, pdpI, pdI] at hys
    omega
  intro h
  refine ⟨[ptI v], ?_⟩
  simp only [indices, cons_append, nil_append, cons.injEq, pml4I, pdpI, pdI, and_true]
  omega

lemma descend_of_four (h : (walkOf m root virt).length = 4) :
    ∃ t, descend linkNext m.mem root [pml4I virt, pdpI virt, pdI virt] = some t := by
  cases ht : descend linkNext m.mem root [pml4I virt, pdpI virt, pdI virt] with
  | some t => exact ⟨t, rfl⟩
  | none =>
    have := walk_short (show indices virt = _ ++ [ptI virt] from rfl) (by simp) ht
    omega

lemma walk_of_mapped (hg : NoGiant (walkOf m root virt)) (hs : ¬ Large (walkOf m root virt))
    (hm : physOf virt (walkOf m root virt) ≠ none) :
    ∃ a b c e, walkOf m root virt = [a, b, c, e] ∧ present e = true := by
  rcases guarded_cases hg () (fun _ => ()) (fun _ => ()) with
    ⟨t, ht, -⟩ | ⟨t, ht, hp, hh, -⟩ | ⟨xs, e, hw, he, -⟩
  · obtain ⟨a, b, c, hw⟩ := walkOf_small ht
    refine ⟨a, b, c, _, hw, ?_⟩
    by_contra hp
    rw [hw] at hm
    simp [physOf, hp] at hm
  · obtain ⟨a, b, hw⟩ := walkOf_large ht hh
    exact absurd ⟨a, b, _, hw, hp⟩ hs
  rw [hw, physOf_absent xs he] at hm
  exact absurd rfl hm

/-- A walk that does not reach a page table is shared by all addresses with the same upper indices. -/
lemma walkOf_of_short {v : ℕ} (h : (walkOf m root virt).length ≤ 3)
    (hv : v / 2 ^ 21 % 2 ^ 27 = virt / 2 ^ 21 % 2 ^ 27) : walkOf m root v = walkOf m root virt := by
  have hn : descend linkNext m.mem root [pml4I virt, pdpI virt, pdI virt] = none := by
    cases ht : descend linkNext m.mem root [pml4I virt, pdpI virt, pdI virt] with
    | none => rfl
    | some t =>
      obtain ⟨a, b, c, hw⟩ := walkOf_small ht
      rw [hw] at h
      simp at h
  obtain ⟨ys, hys⟩ := (through_large v virt).mpr hv
  have hs : indices v = [pml4I virt, pdpI virt, pdI virt] ++ ys := hys
  have hs' : indices virt = [pml4I virt, pdpI virt, pdI virt] ++ [ptI virt] := rfl
  rw [walkOf, walkOf, hs, hs', trail_append_none hn, trail_append_none hn]

/-- The addresses that unmapping `virt` takes away: the page of `virt`, or the 2 MB page. -/
def Hits (m : Machine) (virt v : ℕ) : Prop :=
  (¬ Large (walkOf m m.cr3 virt) ∧ v / 4096 % 2 ^ 36 = virt / 4096 % 2 ^ 36) ∨
    (Large (walkOf m m.cr3 virt) ∧ v / 2 ^ 21 % 2 ^ 27 = virt / 2 ^ 21 % 2 ^ 27)

lemma hits_of_not_large (h : ¬ Large (walkOf m m.cr3 virt)) {v : ℕ} :
    Hits m virt v ↔ v / 4096 % 2 ^ 36 = virt / 4096 % 2 ^ 36 := by
  simp [Hits, h]

lemma hits_of_large (h : Large (walkOf m m.cr3 virt)) {v : ℕ} :
    Hits m virt v ↔ v / 2 ^ 21 % 2 ^ 27 = virt / 2 ^ 21 % 2 ^ 27 := by
  simp [Hits, h]

lemma Unmaps.congr {hit hit' : ℕ → Prop} {m' : Machine} (h : Unmaps root place hit m m')
    (heq : ∀ v, hit' v ↔ hit v) : Unmaps root place hit' m m' :=
  ⟨h.shape, h.cr3, fun v hv => h.gone v ((heq v).mp hv), fun v hv => h.kept v (mt (heq v).mpr hv)⟩

lemma unmapPage_spec (h : Shape m.cr3 place m) (hg : NoGiant (walkOf m m.cr3 virt)) :
    Unmaps m.cr3 place (Hits m virt) m (krustPagingUnmapPage m virt) := by
  have hgu : krustPagingUnmapPage m virt = guarded m m.cr3 virt m
      (fun t => writeEntry m t (pdI virt) 0) (fun t => writeEntry m t (ptI virt) 0) := rfl
  rw [hgu]
  rcases guarded_cases hg m (fun t => writeEntry m t (pdI virt) 0)
    (fun t => writeEntry m t (ptI virt) 0) with
    ⟨t, ht, heq⟩ | ⟨t, ht, hp, hh, heq⟩ | ⟨xs, e, hw, he, heq⟩
  · rw [heq]
    have hs : ¬ Large (walkOf m m.cr3 virt) := by
      rintro ⟨a, b, e, hl, -⟩
      obtain ⟨a', b', c', hw⟩ := walkOf_small ht
      rw [hl] at hw
      simp at hw
    have hp : FullPath [pml4I virt, pdpI virt, pdI virt] :=
      fullPath_of_append virt (show indices virt = _ ++ [ptI virt] from rfl) (by simp)
    exact (h.clear hp ht).congr fun v => by rw [hits_of_not_large hs, through_page]
  · rw [heq]
    have hla : Large (walkOf m m.cr3 virt) := by
      obtain ⟨a, b, hw⟩ := walkOf_large ht hh
      exact ⟨a, b, _, hw, hp⟩
    have hp2 : FullPath [pml4I virt, pdpI virt] :=
      fullPath_of_append virt (show indices virt = _ ++ [pdI virt, ptI virt] from rfl) (by simp)
    exact (h.clear hp2 ht).congr fun v => by rw [hits_of_large hla, through_large]
  rw [heq]
  have hn : ∀ v, physOf v (walkOf m m.cr3 virt) = none := fun v => by
    rw [hw, physOf_absent xs he]
  have hs : ¬ Large (walkOf m m.cr3 virt) := by
    rintro ⟨a, b, e', hl, he'⟩
    have := hn virt
    rw [hl] at this
    simp [physOf, he'] at this
  refine ⟨h, rfl, fun v hv => ?_, fun v _ => rfl⟩
  rw [walkOf_of_page ((hits_of_not_large hs).mp hv)]
  exact ⟨hn v, hg⟩

/-- Unmapping takes away the page of the address and nothing else exactly when the address does not
lie in a 2 MB page. -/
theorem unmapPage_exact_iff (h : Shape m.cr3 place m) (hg : NoGiant (walkOf m m.cr3 virt)) :
    (∀ v, (v / 4096 % 2 ^ 36 = virt / 4096 % 2 ^ 36 →
        physOf v (walkOf (krustPagingUnmapPage m virt) m.cr3 v) = none) ∧
      (v / 4096 % 2 ^ 36 ≠ virt / 4096 % 2 ^ 36 →
        physOf v (walkOf (krustPagingUnmapPage m virt) m.cr3 v) =
          physOf v (walkOf m m.cr3 v))) ↔
    ¬ Large (walkOf m m.cr3 virt) := by
  have hun := unmapPage_spec h hg
  by_cases hla : Large (walkOf m m.cr3 virt)
  · refine iff_of_false (fun hex => ?_) fun hnot => hnot hla
    -- The next page of the same 2 MB page was mapped and is gone as well.
    let v := virt / 2 ^ 21 * 2 ^ 21 + (virt / 4096 + 1) % 512 * 4096
    have hgo := (hun.gone v ((hits_of_large hla).mpr (by simp only [v]; omega))).1
    have hk := (hex v).2 (by simp only [v]; omega)
    obtain ⟨a, b, e, hl, he⟩ := hla
    have hw : walkOf m m.cr3 v = walkOf m m.cr3 virt :=
      walkOf_of_short (by rw [hl]; exact Nat.le_refl 3) (by simp only [v]; omega)
    rw [hgo, hw, hl] at hk
    simp [physOf, he] at hk
  refine iff_of_true (fun v => ⟨fun hv => ?_, fun hv => ?_⟩) hla
  · exact (hun.gone v ((hits_of_not_large hla).mpr hv)).1
  · rw [hun.kept v (mt (hits_of_not_large hla).mp hv)]

theorem unmapPage_exact_iff_table :
    physOf 0x5000 (walkOf (krustPagingUnmapPage (smallMachine 0x4007#64 0) 0x5000) 1 0x5000) = none :=
  ((unmapPage_exact_iff (m := smallMachine 0x4007#64 0) (smallMachine_tree (.inr (by decide))).forest
    (smallMachine_noGiant _ _ _)).mpr (by
      have hf : (walkOf (smallMachine 0x4007#64 0) 1 0x5000).length = 4 := by decide
      rintro ⟨a, b, e, hl, -⟩
      have := hf.symm.trans (congrArg length hl)
      simp at this) 0x5000).1 rfl

/-- Unmapping the page at 0x5000 inside a 2 MB page takes the page at 0x3000 with it. -/
theorem unmapPage_takes_large_page :
    physIn (smallMachine 0x200087#64 0) 1 0x3000 = some 0x203000#64 ∧
      physIn (krustPagingUnmapPage (smallMachine 0x200087#64 0) 0x5000) 1 0x3000 = none := by
  decide

end Unmap

end Elitra.Paging
