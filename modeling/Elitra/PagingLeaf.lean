import Elitra.PagingTables

namespace Elitra.Paging
open Radix

/-- The entry of page `v₀` of the space `r₀` becomes `e`, and all other pages keep theirs. -/
structure Rewrite (spaces kern : Set ℕ) (place place' : Place) (r₀ v₀ : ℕ) (e : Pte)
    (m m' : Machine) : Prop extends Frames place place' m m' where
  tables : Tables spaces kern place' m'
  leaf : ∀ r v, r ∈ spaces → v < userPages →
    Paging.leaf m' r v = if r = r₀ ∧ v = v₀ then e else Paging.leaf m r v

/-- The addresses of the lower half. -/
def userAddrs : ℕ := 2 ^ 47

def shared (e : Pte) : Bool := present e && cow e

lemma shared_zero : shared 0 = false := by decide

section Leaf

variable {spaces kern : Set ℕ} {place place' : Place} {m m' m'' : Machine} {r r₀ v v₀ addr : ℕ}
  {e : Pte}

lemma page_lt (h : addr < userAddrs) : addr / 4096 < userPages := by
  unfold userAddrs at h
  unfold userPages
  omega

lemma walk_page (m : Machine) (r addr : ℕ) : walk m r addr = walk m r (addr / 4096 * 4096) := by
  have h4 : pml4I (addr / 4096 * 4096) = pml4I addr := by unfold pml4I; omega
  have h3 : pdpI (addr / 4096 * 4096) = pdpI addr := by unfold pdpI; omega
  have h2 : pdI (addr / 4096 * 4096) = pdI addr := by unfold pdI; omega
  rw [walk, walk, h4, h3, h2]

lemma ptI_addr (addr : ℕ) : ptI addr = addr / 4096 % 512 := by unfold ptI; omega

lemma leaf_congr_mem (h : m'.mem = m.mem) (r v : ℕ) : leaf m' r v = leaf m r v := by
  unfold leaf walk child
  rw [h]

lemma Tables.rewrite (h : Tables spaces kern place m) {t : ℕ} (hr0 : r₀ ∈ spaces)
    (hv0 : v₀ < userPages) (ht : descend pteNext m.mem r₀ (pathOf v₀) = some t) (e : Pte) :
    Rewrite spaces kern place place r₀ v₀ e m (writeEntry m t (v₀ % 512) e) := by
  obtain ⟨ht', hf, hl, -⟩ := h.writeLeaf hr0 hv0 ht e
  exact ⟨hf, ht', hl⟩

lemma Rewrite.of_grown (hg : Grown spaces place place' m m') {place'' : Place}
    (h : Rewrite spaces kern place' place'' r₀ v₀ e m' m'') :
    Rewrite spaces kern place place'' r₀ v₀ e m m'' := by
  refine ⟨hg.toFrames.trans h.toFrames, h.tables, fun r v hr hv => ?_⟩
  rw [h.leaf r v hr hv, hg.leaf r hr v hv]

lemma Rewrite.leaf_self (h : Rewrite spaces kern place place' r₀ v₀ e m m') (hr : r₀ ∈ spaces)
    (hv : v₀ < userPages) : Paging.leaf m' r₀ v₀ = e := by
  rw [h.leaf r₀ v₀ hr hv, if_pos ⟨rfl, rfl⟩]

lemma Tables.recount (h : Tables spaces kern place m) (c : Cow.State) :
    Tables spaces kern place { m with cow := c } :=
  ⟨h.pmm, h.forest, h.used, h.flat, h.kernel, h.dir⟩

lemma Frames.recount (c : Cow.State) : Frames place place m { m with cow := c } :=
  ⟨fun _ _ _ => rfl, fun _ hx => hx, fun _ _ hx => hx, fun _ _ hx => Or.inl hx, rfl, rfl⟩

lemma Rewrite.of_recount {c : Cow.State}
    (h : Rewrite spaces kern place place' r₀ v₀ e { m with cow := c } m') :
    Rewrite spaces kern place place' r₀ v₀ e m m' :=
  ⟨(Frames.recount c).trans h.toFrames, h.tables, h.leaf⟩

lemma pathOf_addr (addr : ℕ) : pathOf (addr / 4096) = [pml4I addr, pdpI addr, pdI addr] := by
  unfold pathOf pml4I pdpI pdI
  simp only [List.cons.injEq, and_true]
  omega

lemma splitHuge_flat (h : Tables spaces kern place m) (hr : r ∈ spaces) {path : List ℕ} {t i u : ℕ}
    (hlen : path.length = 2) (hp : TablePath (path ++ [i]))
    (ht : descend pteNext m.mem r path = some t)
    (hu : descend pteNext m.mem r (path ++ [i]) = some u) : splitHuge m t i = (m, true) := by
  rw [descend_snoc, ht, Option.bind_some] at hu
  have hpl := h.place_table hr (tablePath_closed _ _ hp) ht
  rw [splitHuge, h.flat t r path i hpl hlen hp (present_of_pteNext hu).1]
  rfl

/-- How a call that stores the entry `e` ends: the entry is stored, or a table was missing. -/
def Stored (spaces kern : Set ℕ) (place : Place) (r v : ℕ) (e : Pte) (m : Machine)
    (x : Machine × Bool) : Prop :=
  ∃ place', (x.2 = true → Rewrite spaces kern place place' r v e m x.1) ∧
    (x.2 = false → Tables spaces kern place' x.1 ∧ Grown spaces place place' m x.1) ∧
    x.1.cow = m.cow

lemma ensureTable_then {place1 : Place} {m1 : Machine} {path : List ℕ} {t i : ℕ}
    {rest : Machine → Machine × Bool} (h : Tables spaces kern place1 m1)
    (hg : Grown spaces place place1 m m1) (hr : r ∈ spaces) (hp : TablePath (path ++ [i]))
    (ht : descend pteNext m1.mem r path = some t)
    (hre : ∀ place2 m2, Tables spaces kern place2 m2 → Grown spaces place place2 m m2 →
      descend pteNext m2.mem r path = some t →
      descend pteNext m2.mem r (path ++ [i]) = some (child m2 t i) →
      Stored spaces kern place r v e m (rest m2)) :
    Stored spaces kern place r v e m (Loop.seq (ensureTable m1 t i 3#64) rest) := by
  obtain ⟨place2, ht2, hg2, hc⟩ := ensureTable_spec h hr hp ht (Or.inl rfl)
  have hgr := hg.trans hg2
  rw [Loop.seq_eq]
  cases hf : (ensureTable m1 t i 3#64).2 with
  | true =>
    rw [if_pos rfl]
    exact hre place2 _ ht2 hgr
      (hg2.descend r hr path t (tablePath_closed _ _ hp) ht) (hc hf)
  | false =>
    rw [if_neg (by simp)]
    exact ⟨place2, fun hgo => absurd hgo (by simp [hf]), fun _ => ⟨ht2, hgr⟩, hgr.cow⟩

lemma krustPagingMapPageIn_spec (h : Tables spaces kern place m) (hr : r ∈ spaces)
    (ha : addr < userAddrs) (phys flags : Pte) :
    Stored spaces kern place r (addr / 4096) (leafEntry phys flags) m
      (krustPagingMapPageIn m r addr phys flags) := by
  have hpa := tablePath_pathOf (page_lt ha)
  rw [pathOf_addr] at hpa
  have hp1 : TablePath ([] ++ [pml4I addr]) := tablePath_closed [pml4I addr] _ hpa
  have hp2 : TablePath ([pml4I addr] ++ [pdpI addr]) :=
    tablePath_closed [pml4I addr, pdpI addr] _ hpa
  have hp3 : TablePath ([pml4I addr, pdpI addr] ++ [pdI addr]) := hpa
  unfold krustPagingMapPageIn
  refine ensureTable_then h (Grown.refl place m) hr hp1 rfl fun place1 m1 h1 hg1 _ ht1 => ?_
  refine ensureTable_then h1 hg1 hr hp2 ht1 fun place2 m2 h2 hg2 _ ht2 => ?_
  refine ensureTable_then h2 hg2 hr hp3 ht2 fun place3 m3 h3 hg3 hpd ht3 => ?_
  rw [splitHuge_flat h3 hr rfl hp3 hpd ht3, Loop.seq_eq, if_pos rfl, ptI_addr]
  have hd : descend pteNext m3.mem r (pathOf (addr / 4096)) =
      some (child m3 (child m2 (child m1 r (pml4I addr)) (pdpI addr)) (pdI addr)) := by
    rw [pathOf_addr]
    exact ht3
  exact ⟨place3, fun _ => .of_grown hg3 (h3.rewrite hr (page_lt ha) hd _),
    fun hf => by simp at hf, hg3.cow⟩

/-- A write fault on a page, or its resolution before the page is swapped out. -/
inductive Resolved (spaces kern : Set ℕ) (place : Place) (r v : ℕ) (m : Machine) :
    Machine × Bool → Prop
  | none (hs : shared (leaf m r v) = false) : Resolved spaces kern place r v m (m, false)
  | sole {m' : Machine} (hs : shared (leaf m r v) = true)
    (hlast : (Cow.krustCowRefdec m.cow (frame32 (leaf m r v))).2 = 0)
    (hw : Rewrite spaces kern place place r v (soleEntry (leaf m r v)) m m')
    (hcow : m'.cow = (Cow.krustCowRefdec m.cow (frame32 (leaf m r v))).1)
    (hpmm : m'.pmm = m.pmm) : Resolved spaces kern place r v m (m', true)
  | full (hs : shared (leaf m r v) = true)
    (hmore : (Cow.krustCowRefdec m.cow (frame32 (leaf m r v))).2 ≠ 0) (hfull : freeSet m = ∅) :
    Resolved spaces kern place r v m
      ({ m with cow := (Cow.krustCowRefdec m.cow (frame32 (leaf m r v))).1 }, false)
  | copy {m' : Machine} {f : ℕ} (hs : shared (leaf m r v) = true)
    (hmore : (Cow.krustCowRefdec m.cow (frame32 (leaf m r v))).2 ≠ 0) (hf : f ∈ freeSet m)
    (hw : Rewrite spaces kern place place r v (copyEntry f) m m')
    (hcow : m'.cow = (Cow.krustCowRefdec m.cow (frame32 (leaf m r v))).1)
    (hfree : freeSet m' = (freeSet m).erase f)
    (hmem : m'.mem f = m.mem (pteFrame (leaf m r v))) :
    Resolved spaces kern place r v m (m', true)

lemma cowResolvePage_spec (h : Tables spaces kern place m) (hr : r ∈ spaces)
    (ha : addr < userAddrs) :
    Resolved spaces kern place r (addr / 4096) m (cowResolvePage m r addr) := by
  have hv := page_lt ha
  unfold cowResolvePage
  rw [walk_page, h.walk_eq hr hv, ptI_addr]
  cases hd : descend pteNext m.mem r (pathOf (addr / 4096)) with
  | none =>
    refine .none ?_
    rw [h.leaf_eq hr hv, hd]
    exact shared_zero
  | some p1 =>
    have he : m.mem p1 (addr / 4096 % 512) = leaf m r (addr / 4096) := by
      rw [h.leaf_eq hr hv, hd]
    dsimp only
    rw [he]
    cases hpr : present (leaf m r (addr / 4096)) with
    | false => exact .none (by rw [shared, hpr]; rfl)
    | true =>
      cases hc : cow (leaf m r (addr / 4096)) with
      | false => exact .none (by rw [shared, hc, Bool.and_false])
      | true =>
        have hs : shared (leaf m r (addr / 4096)) = true := by rw [shared, hpr, hc]; rfl
        set c := Cow.krustCowRefdec m.cow (frame32 (leaf m r (addr / 4096))) with hcd
        have h1 := h.recount c.1
        simp only [Bool.not_true, Bool.false_eq_true, if_false]
        by_cases hl : c.2 = 0
        · rw [if_pos hl]
          exact .sole hs hl (.of_recount (h1.rewrite hr hv hd _)) rfl rfl
        rw [if_neg hl]
        rcases allocFrame_cases h1.pmm with ⟨heq, hem⟩ | ⟨p, f, heq, hne, hf, hfr, hgo⟩
        · rw [heq, if_pos rfl]
          exact .full hs hl hem
        rw [heq, if_neg hne]
        dsimp only
        obtain ⟨h2, hg2⟩ := h1.take hf hgo hfr (m.mem (pteFrame (leaf m r (addr / 4096))))
        have hd2 := hg2.descend r hr _ p1 (tablePath_pathOf hv) hd
        have hp1 := h.place_table hr (tablePath_pathOf hv) hd
        have hpf : f ≠ p1 := by
          rintro rfl
          exact h.used f _ hp1 hf
        refine .copy hs hl hf (.of_recount (.of_grown hg2 (h2.rewrite hr hv hd2 (copyEntry f))))
          rfl hfr ?_
        simp only [writeEntry, fillFrame]
        rw [Function.update_of_ne hpf, Function.update_self]

end Leaf

end Elitra.Paging
