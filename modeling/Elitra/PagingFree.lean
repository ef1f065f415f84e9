import Elitra.PageOrder

namespace Elitra.Paging
open List Radix

def dropShare (c : Cow.State) (e : Pte) : Cow.State :=
  if shared e then (Cow.krustCowRefdec c (frame32 e)).1 else c

/-- The share counts after the teardown went over the first `k` pages. -/
def dropUpTo (m : Machine) (root k : ℕ) : Cow.State :=
  (List.range k).foldl (fun c v => dropShare c (leaf m root v)) m.cow

/-- Why the teardown of `root` frees a frame. -/
inductive Reason (m : Machine) (root f : ℕ) : Prop
  | leaf (v : ℕ) (hv : v < userPages) (hp : present (leaf m root v) = true)
    (hc : cow (Paging.leaf m root v) = false) (hf : pteFrame (Paging.leaf m root v) = f)
  | share (v : ℕ) (hv : v < userPages) (hs : shared (Paging.leaf m root v) = true)
    (hlast : (Cow.krustCowRefdec (dropUpTo m root v) (frame32 (Paging.leaf m root v))).2 = 0)
    (hf : pteFrame (Paging.leaf m root v) = f)
  | table (path : List ℕ) (hp : TablePath path) (ht : descend pteNext m.mem root path = some f)

/-- A teardown in progress: the pages below `k` are done. Freeing writes no page table. -/
structure Released (m : Machine) (root : ℕ) (s : Freeing) (k : ℕ) : Prop where
  mem : s.machine.mem = m.mem
  pml4 : s.machine.pml4 = m.pml4
  cr3 : s.machine.cr3 = m.cr3
  pmm : Pmm.Good s.machine.pmm
  counts : s.machine.cow = dropUpTo m root k
  free : freeSet m ⊆ freeSet s.machine
  freed : ∀ f ∈ freeSet s.machine, f ∈ freeSet m ∨ f ∈ s.freed
  reason : ∀ f ∈ s.freed, Reason m root f

lemma dropUpTo_succ (m : Machine) (root k : ℕ) :
    dropUpTo m root (k + 1) = dropShare (dropUpTo m root k) (leaf m root k) := by
  rw [dropUpTo, range_succ, foldl_append]
  rfl

lemma untracked_dropUpTo (m : Machine) (root k f : ℕ) :
    Cow.untracked (dropUpTo m root k) f = Cow.untracked m.cow f := by
  induction k with
  | zero => rfl
  | succ k ih =>
    rw [dropUpTo_succ, dropShare]
    split
    · rw [Cow.untracked_refdec, ih]
    · exact ih

/-- The pages below `k` that hold a share of the frame `f`. -/
def sharesBelow (m : Machine) (root f k : ℕ) : Finset ℕ :=
  (Finset.range k).filter fun v =>
    shared (leaf m root v) = true ∧ frame32 (leaf m root v) = f

lemma refcount_dropUpTo (m : Machine) (root f k : ℕ) :
    Cow.krustCowRefcount (dropUpTo m root k) f =
      Cow.krustCowRefcount m.cow f - (sharesBelow m root f k).card := by
  induction k with
  | zero => rfl
  | succ k ih =>
    rw [dropUpTo_succ, dropShare, sharesBelow, Finset.range_add_one, Finset.filter_insert]
    by_cases hs : shared (leaf m root k) = true
    · rw [if_pos hs, Cow.refcount_refdec, ih]
      by_cases hf : f = frame32 (leaf m root k)
      · rw [if_pos hf, if_pos ⟨hs, hf.symm⟩, Finset.card_insert_of_notMem (by simp), sharesBelow]
        omega
      rw [if_neg hf, if_neg fun h => hf h.2.symm]
      rfl
    rw [if_neg hs, ih, if_neg fun h => hs h.1]
    rfl

section Free

variable {spaces kern : Set ℕ} {place : Place} {m : Machine} {root k : ℕ} {s : Freeing}

lemma Released.start (h : Pmm.Good m.pmm) : Released m root ⟨m, []⟩ 0 :=
  ⟨rfl, rfl, rfl, h, rfl, subset_rfl, fun _ hf => .inl hf, by simp⟩

lemma Released.release (h : Released m root s k) {f : ℕ} (hf : Reason m root f) :
    Released m root (s.free f) k := by
  obtain ⟨hgo, hsub, hnew⟩ := h.pmm.free f
  refine ⟨h.mem, h.pml4, h.cr3, hgo, h.counts, h.free.trans hsub, ?_, ?_⟩
  · intro g hg
    rcases Finset.mem_insert.mp (hnew hg) with rfl | hg
    · exact .inr (by simp [Freeing.free])
    rcases h.freed g hg with hg | hg
    · exact .inl hg
    · exact .inr (by simp [Freeing.free, hg])
  intro g hg
  rcases mem_append.mp hg with hg | hg
  · exact h.reason g hg
  · exact mem_singleton.mp hg ▸ hf

lemma Released.skip (h : Released m root s k) {k' : ℕ} (hk : k ≤ k')
    (habs : ∀ v, k ≤ v → v < k' → shared (leaf m root v) = false) : Released m root s k' := by
  have hc : dropUpTo m root k' = dropUpTo m root k := by
    induction k', hk using Nat.le_induction with
    | base => rfl
    | succ n hn ih =>
      rw [dropUpTo_succ, dropShare, habs n hn (by omega), ih fun v hv hv' => habs v hv (by omega)]
      rfl
  exact ⟨h.mem, h.pml4, h.cr3, h.pmm, h.counts.trans hc.symm, h.free, h.freed, h.reason⟩

lemma freeLeaf_spec (hT : Tables spaces kern place m) (hr : root ∈ spaces) (hk : k < userPages)
    {t : ℕ} (ht : descend pteNext m.mem root (pathOf k) = some t) (h : Released m root s k) :
    Released m root (freeLeaf t (k % 512) s) (k + 1) := by
  have he : s.machine.mem t (k % 512) = leaf m root k := by
    rw [h.mem, hT.leaf_eq hr hk, ht]
  have hn : ∀ {s' : Freeing}, Released m root s' k → shared (leaf m root k) = false →
      Released m root s' (k + 1) := by
    intro s' h' hs
    refine h'.skip (Nat.le_succ k) fun v hv hv' => ?_
    obtain rfl : v = k := by omega
    exact hs
  unfold freeLeaf
  dsimp only
  rw [he]
  cases hp : present (leaf m root k) with
  | false => exact hn h (by rw [shared, hp]; rfl)
  | true =>
    cases hcow : cow (leaf m root k) with
    | false => exact hn (h.release (.leaf k hk hp hcow rfl)) (by rw [shared, hcow, Bool.and_false])
    | true =>
      have hs : shared (leaf m root k) = true := by rw [shared, hp, hcow]; rfl
      have hd : Released m root { s with machine := { s.machine with
          cow := (Cow.krustCowRefdec s.machine.cow (frame32 (leaf m root k))).1 } } (k + 1) := by
        refine ⟨h.mem, h.pml4, h.cr3, h.pmm, ?_, h.free, h.freed, h.reason⟩
        rw [dropUpTo_succ, dropShare, hs, ← h.counts]
        rfl
      by_cases hl : (Cow.krustCowRefdec s.machine.cow (frame32 (leaf m root k))).2 = 0
      · have := hd.release (.share k hk hs (h.counts ▸ hl) rfl)
        simpa [hl] using this
      · simpa [hl] using hd

/-- What one round does to an entry of a table of the dying space. -/
def FreeOk (m : Machine) (root n : ℕ) (round : ℕ → ℕ → Freeing → Freeing) : Prop :=
  ∀ path t i s, path.length = n → Slot path i → descend pteNext m.mem root path = some t →
    Released m root s (firstPage path i) → Released m root (round t i s) (firstPage path (i + 1))

lemma FreeOk.loop {n : ℕ} {round : ℕ → ℕ → Freeing → Freeing} (h : FreeOk m root n round)
    (path : List ℕ) (len : ℕ) {t : ℕ} (hlen : path.length = n)
    (hsl : ∀ i, i < len → Slot path i) (ht : descend pteNext m.mem root path = some t)
    (hs : Released m root s (firstPage path 0)) :
    Released m root (Loop.each (round t) (List.range len) s) (firstPage path len) :=
  Loop.each_range (fun i s => Released m root s (firstPage path i)) hs
    fun i s hi hs => h path t i s hlen (hsl i hi) ht hs

section Frees

variable (hT : Tables spaces kern place m)
include hT

lemma freeLeaf_ok (hr : root ∈ spaces) :
    FreeOk m root 3 freeLeaf := by
  intro path t i s hlen hsl ht hs
  obtain ⟨hk, hp, hi⟩ := hsl.page hlen
  rw [← hp] at ht
  have := freeLeaf_spec hT hr hk ht hs
  rw [hi] at this
  rwa [firstPage_succ, hlen]

lemma freeLevel_ok {n : ℕ} {inner : ℕ → ℕ → Freeing → Freeing}
    (hr : root ∈ spaces) (hn : n ≤ 2) (h : FreeOk m root (n + 1) inner) :
    FreeOk m root n (freeLevel inner) := by
  intro path t i s hlen hsl ht hs
  have hle : path.length ≤ 2 := hlen ▸ hn
  unfold freeLevel
  rw [child, hs.mem]
  cases hp : present (m.mem t i) with
  | false =>
    refine hs.skip (by rw [firstPage_succ]; omega) fun v hlo hhi => ?_
    rw [hsl.leaf_absent hT hr hle ht hp hlo hhi]
    rfl
  | true =>
    have hc : descend pteNext m.mem root (path ++ [i]) = some (pteFrame (m.mem t i)) := by
      rw [descend_snoc, ht, Option.bind_some, pteNext_present hp]
    have hl := h.loop (path ++ [i]) 512 (by simp [hlen]) (fun j hj => hsl.step hle hj) hc
      (by rwa [firstPage_zero hle])
    rw [firstPage_end hle] at hl
    dsimp only
    rw [if_neg (by simp), child, hl.mem, hp, if_pos rfl]
    exact hl.release (.table (path ++ [i]) (hsl.tablePath hle) hc)

lemma freeTable_ok (hr : root ∈ spaces) :
    FreeOk m root 2 freeTable := by
  intro path t i s hlen hsl ht hs
  rw [freeTable, if_neg (by rw [hs.mem, hsl.not_huge hT hr hlen ht]; simp)]
  exact freeLevel_ok hT hr le_rfl (freeLeaf_ok hT hr) path t i s hlen hsl ht hs

lemma krustPagingFreeUserPages_spec (hr : root ∈ spaces) :
    Released m root (krustPagingFreeUserPages m root) userPages := by
  have hpdp : FreeOk m root 0 freePdp :=
    freeLevel_ok hT hr (by omega) (freeLevel_ok hT hr (by omega) (freeTable_ok hT hr))
  have hl := hpdp.loop [] 256 rfl (fun i hi => slot_root hi) rfl (Released.start hT.pmm)
  rw [firstPage_root] at hl
  exact hl.release (.table [] ⟨by simp, by simp, by simp⟩ rfl)

end Frees

end Free

end Elitra.Paging
