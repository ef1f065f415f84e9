import Elitra.Cow
import Mathlib.Algebra.Ring.Nat
import Mathlib.Data.Finset.Option
import Mathlib.Tactic.Common

namespace Elitra.Lifecycle
open List

/-- A present entry of the lower half of a directory: with the COW bit, or without it and then
possibly writable for the user, which is what a fork turns into COW. Frame numbers fit `u32`. -/
inductive Leaf where
  | cow (f : ℕ)
  | plain (f : ℕ) (writable : Bool)
  deriving DecidableEq, Repr

abbrev Space := ℕ → Option Leaf

@[irreducible]
def pages : ℕ := 2 ^ 35

/-- An address space: the entries of the lower half, and the frames of the directory and of its
tables. A 2 MB page of the kernel stands as its 512 pages, which is what the clone makes of it. -/
structure Directory where
  space : Space
  tables : List ℕ

/-- `krust_paging_clone_kernel_dir` when every table finds a frame. Only what is below `PML4[0]` is
copied. -/
def krustPagingCloneKernelDir (kernel : Directory) (tables : List ℕ) : Directory :=
  ⟨fun v => if v < 2 ^ 27 then kernel.space v else none, tables⟩

/-- One entry of the teardown, with the frames that were handed to `krust_pmm_free_frame`. -/
def freedLeaf (p : List ℕ × Cow.State) : Option Leaf → List ℕ × Cow.State
  | none => p
  | some (.cow f) =>
    let r := Cow.krustCowRefdec p.2 f
    (if r.2 = 0 then p.1 ++ [f] else p.1, r.1)
  | some (.plain f _) => (p.1 ++ [f], p.2)

def freedPages (e : Space) (c : Cow.State) (n : ℕ) : List ℕ × Cow.State :=
  (List.range n).foldl (fun p v => freedLeaf p (e v)) ([], c)

/-- The frames that `krust_paging_free_user_pages` frees: those of the pages, the tables and the
directory. A table goes after its pages; the order is not kept here. -/
def krustPagingFreeUserPages (c : Cow.State) (d : Directory) : List ℕ :=
  (freedPages d.space c pages).1 ++ d.tables

def Leaf.frame : Leaf → ℕ
  | .cow f => f
  | .plain f _ => f

/-- One of the address spaces, or the kernel's directory, has the frame. -/
def Mapped (others : List Directory) (f : ℕ) : Prop :=
  ∃ d ∈ others, f ∈ d.tables ∨ ∃ v < pages, ∃ l, d.space v = some l ∧ l.frame = f

/-- The teardown frees no frame twice and none that the others still have. -/
def TornDown (c : Cow.State) (d : Directory) (others : List Directory) : Prop :=
  (krustPagingFreeUserPages c d).Nodup ∧ ∀ f ∈ krustPagingFreeUserPages c d, ¬ Mapped others f

/-- The pages below `n` that hold `f` with the COW bit. -/
def sharesBelow (e : Space) (f n : ℕ) : Finset ℕ :=
  (Finset.range n).filter fun v => e v = some (.cow f)

/-- The pages below `n` that hold `f` without the COW bit. -/
def plainsBelow (e : Space) (f n : ℕ) : Finset ℕ :=
  (Finset.range n).filter fun v => e v = some (.plain f true) ∨ e v = some (.plain f false)

/-- How often the teardown frees `f`: once for each entry without the COW bit, for each COW entry
beyond the count, and for each table. -/
def timesFreed (c : Cow.State) (d : Directory) (f : ℕ) : ℕ :=
  (plainsBelow d.space f pages).card +
    ((sharesBelow d.space f pages).card - Cow.krustCowRefcount c f) + d.tables.count f

section Count

variable {e : Space} {c : Cow.State} {f n : ℕ}

lemma freedPages_succ : freedPages e c (n + 1) = freedLeaf (freedPages e c n) (e n) := by
  unfold freedPages
  rw [range_succ, foldl_append]
  rfl

lemma sharesBelow_succ :
    (sharesBelow e f (n + 1)).card =
      (sharesBelow e f n).card + if e n = some (.cow f) then 1 else 0 := by
  unfold sharesBelow
  rw [Finset.range_add_one, Finset.filter_insert]
  split
  · rw [Finset.card_insert_of_notMem (by simp)]
  · rfl

lemma plainsBelow_succ :
    (plainsBelow e f (n + 1)).card = (plainsBelow e f n).card +
      if e n = some (.plain f true) ∨ e n = some (.plain f false) then 1 else 0 := by
  unfold plainsBelow
  rw [Finset.range_add_one, Finset.filter_insert]
  split
  · rw [Finset.card_insert_of_notMem (by simp)]
  · rfl

/-- The loop over the pages: how often a frame was freed, and the counts that are left. -/
lemma count_freedPages (e : Space) (c : Cow.State) (n : ℕ) :
    (∀ f, (freedPages e c n).1.count f = (plainsBelow e f n).card +
      ((sharesBelow e f n).card - Cow.krustCowRefcount c f)) ∧
    ∀ f, Cow.krustCowRefcount (freedPages e c n).2 f =
      Cow.krustCowRefcount c f - (sharesBelow e f n).card := by
  induction n with
  | zero => simp [freedPages, plainsBelow, sharesBelow]
  | succ n ih =>
    obtain ⟨ht, hc⟩ := ih
    rw [freedPages_succ]
    cases hl : e n with
    | none => simp [freedLeaf, plainsBelow_succ, sharesBelow_succ, hl, ht, hc]
    | some l =>
      cases l with
      | plain g w =>
        refine ⟨fun f => ?_, fun f => ?_⟩
        · rw [freedLeaf, count_append, ht, plainsBelow_succ, sharesBelow_succ, hl]
          by_cases hfg : g = f
          · cases w <;> simp [hfg] <;> omega
          · simp [hfg]
        · simp [freedLeaf, sharesBelow_succ, hl, hc]
      | cow g =>
        refine ⟨fun f => ?_, fun f => ?_⟩
        · rw [freedLeaf, Cow.refdec_snd, hc, plainsBelow_succ, sharesBelow_succ, hl]
          by_cases hfg : g = f
          · -- freed when the counts are used up, one more time for each further entry
            subst hfg
            split
            · simp [ht]
              omega
            simp [ht]
            omega
          have hco : (if Cow.krustCowRefcount c g - (sharesBelow e g n).card = 0 then
              (freedPages e c n).1 ++ [g] else (freedPages e c n).1).count f =
              (freedPages e c n).1.count f := by
            split
            · simp [hfg]
            · rfl
          simp [hco, ht, hfg]
        rw [freedLeaf, Cow.refcount_refdec, sharesBelow_succ, hl, hc]
        by_cases hfg : f = g
        · simp [hfg]
          omega
        · simp [hfg, Ne.symm hfg]

lemma count_krustPagingFreeUserPages (c : Cow.State) (d : Directory) (f : ℕ) :
    (krustPagingFreeUserPages c d).count f = timesFreed c d f := by
  rw [krustPagingFreeUserPages, count_append, (count_freedPages d.space c pages).1 f]
  rfl

end Count

/-- The teardown is clean exactly when it frees no frame that the others have, and each other frame
at most once. -/
theorem tornDown_iff (c : Cow.State) (d : Directory) (others : List Directory) :
    TornDown c d others ↔
      ∀ f, (Mapped others f → timesFreed c d f = 0) ∧ timesFreed c d f ≤ 1 := by
  have hc := count_krustPagingFreeUserPages c d
  unfold TornDown
  rw [nodup_iff_count_le_one]
  constructor
  · intro ⟨ho, hnot⟩ f
    refine ⟨fun hm => ?_, hc f ▸ ho f⟩
    rw [← hc f]
    exact count_eq_zero_of_not_mem fun hmem => hnot f hmem hm
  intro h
  refine ⟨fun f => hc f ▸ (h f).2, fun f hmem hm => ?_⟩
  have hpos := count_pos_iff.mpr hmem
  rw [hc f, (h f).1 hm] at hpos
  exact Nat.lt_irrefl 0 hpos

/-- The kernel's directory after boot: 2 GB of identity map, with the heap at `0x40000000` in it. -/
def kernelDirectory : Directory where
  space := fun v =>
    if v < 0x40000 then some (.plain v false)
    else if v < 0x40400 then some (.plain (0x2000 + (v - 0x40000)) false)
    else if v < 0x80000 then some (.plain v false)
    else none
  tables := [0x101, 0x102, 0x103, 0x104, 0x1800, 0x1801]

def noShares : Cow.State := ⟨0x80000, 16, fun _ => 0⟩

lemma mem_krustPagingFreeUserPages {c : Cow.State} {d : Directory} {v f : ℕ}
    (hv : v < pages) (hl : d.space v = some (.plain f false)) :
    f ∈ krustPagingFreeUserPages c d := by
  apply count_pos_iff.mp
  rw [count_krustPagingFreeUserPages]
  have hin : v ∈ plainsBelow d.space f pages :=
    Finset.mem_filter.mpr ⟨Finset.mem_range.mpr hv, .inr hl⟩
  have hpos := Finset.card_pos.mpr ⟨v, hin⟩
  unfold timesFreed
  omega

/-- The teardown of a fresh clone, without a single user page, frees the clone's directory, which
the identity map still maps, the kernel's own directory and the first frame of the heap. -/
theorem clone_teardown_frees_kernel :
    let d := krustPagingCloneKernelDir kernelDirectory (range' 0x1000 1028)
    0x1000 ∈ krustPagingFreeUserPages noShares d ∧ Mapped [kernelDirectory] 0x1000 ∧
      0x101 ∈ krustPagingFreeUserPages noShares d ∧ 0x101 ∈ kernelDirectory.tables ∧
      0x2000 ∈ krustPagingFreeUserPages noShares d ∧
      ¬ TornDown noShares d [kernelDirectory] := by
  intro d
  have hlow : 0x40000 < pages := by
    unfold pages
    decide
  have hdir : 0x1000 ∈ krustPagingFreeUserPages noShares d :=
    mem_append_right _ (mem_range'_1.mpr (by decide))
  have hm : Mapped [kernelDirectory] 0x1000 :=
    ⟨kernelDirectory, mem_singleton.mpr rfl,
      .inr ⟨0x1000, by omega, .plain 0x1000 false, by decide, rfl⟩⟩
  have hown : d.space 0x101 = some (.plain 0x101 false) := by decide
  have hh : d.space 0x40000 = some (.plain 0x2000 false) := by decide
  exact ⟨hdir, hm, mem_krustPagingFreeUserPages (by omega) hown, by decide,
    mem_krustPagingFreeUserPages hlow hh, fun h => h.2 0x1000 hdir hm⟩

end Elitra.Lifecycle
