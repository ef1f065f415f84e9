import Mathlib.Data.List.Sort
import Mathlib.Data.List.Lex
import Mathlib.Data.List.Pairwise
import Mathlib.Tactic.Common

namespace Elitra.Sort
open List

abbrev Byte := Fin 256

abbrev Line := List Byte

def newline : Byte := 10

/-- The sign of the result: bytes are compared up to the shorter length, then the lengths. -/
def cmpLines : Line → Line → ℤ
  | [], [] => 0
  | [], _ :: _ => -1
  | _ :: _, [] => 1
  | a :: as, b :: bs => if a < b then -1 else if b < a then 1 else cmpLines as bs

/-- A vector of 4096 lines; what does not fit is dropped. -/
def push (lines : List Line) (line : Line) : List Line :=
  if lines.length < 4096 then lines ++ [line] else lines

def readByte (s : List Line × Line) (b : Byte) : List Line × Line :=
  if b = newline then (push s.1 s.2, [])
  else if s.2.length < 255 then (s.1, s.2 ++ [b])
  else s

/-- `reads` are the contents of the buffer after each call of `sys_read`. -/
def readLines (reads : List (List Byte)) : List Line :=
  let (lines, line) := reads.foldl (fun s buf => buf.foldl readByte s) ([], [])
  if 0 < line.length then push lines line else lines

def shouldSwap (reverse : Bool) (x y : Line) : Bool :=
  if reverse then cmpLines x y < 0 else 0 < cmpLines x y

/-- The inner loop: a line moves forward past the lines before it, which are given last first. -/
def sink (reverse : Bool) (x : Line) : List Line → List Line
  | [] => [x]
  | y :: ys => if shouldSwap reverse x y then y :: sink reverse x ys else x :: y :: ys

/-- The lines as `rust_main` prints them. -/
def rustMain (reverse : Bool) (reads : List (List Byte)) : List Line :=
  ((readLines reads).foldl (fun sorted x => sink reverse x sorted) []).reverse

/-- Complete lines and what stands behind the last newline. -/
def text (lines : List Line) (rest : Line) : List Byte := lines.flatMap (· ++ [newline]) ++ rest

def allLines (lines : List Line) (rest : Line) : List Line :=
  if rest = [] then lines else lines ++ [rest]

variable {reverse : Bool} {lines done : List Line} {l pre rest x y : Line}

/-- The order in which the lines should be printed. -/
def Ordered (reverse : Bool) (x y : Line) : Prop := if reverse then y ≤ x else x ≤ y

instance : DecidableRel (Ordered reverse) := fun _ _ => inferInstanceAs (Decidable (ite ..))
instance : Std.Total (Ordered reverse) := ⟨fun x y => by
  cases reverse
  exacts [le_total x y, le_total y x]⟩
instance : IsTrans Line (Ordered reverse) := ⟨fun x y z hxy hyz => by
  cases reverse
  exacts [le_trans hxy hyz, le_trans hyz hxy]⟩

lemma cmpLines_sign (x y : Line) :
    (cmpLines x y < 0 ↔ x < y) ∧ (0 < cmpLines x y ↔ y < x) := by
  fun_induction cmpLines x y with
  | case1 | case2 | case3 => simp
  | case4 _ _ _ _ hlt | case5 _ _ _ _ _ hlt =>
    simp [cons_lt_cons_iff, hlt, hlt.not_gt, hlt.ne']
  | case6 a as b bs hge hle ih =>
    obtain rfl := le_antisymm (not_lt.mp hle) (not_lt.mp hge)
    simpa [cons_lt_cons_iff] using ih

lemma shouldSwap_iff : shouldSwap reverse x y = true ↔ ¬ Ordered reverse x y := by
  cases reverse <;> simp [shouldSwap, Ordered, cmpLines_sign]

lemma sink_eq_orderedInsert (sorted : List Line) :
    sink reverse x sorted = sorted.orderedInsert (Ordered reverse) x := by
  induction sorted with
  | nil => rfl
  | cons y ys ih =>
    rw [sink, orderedInsert_cons]
    by_cases h : Ordered reverse x y
    · rw [if_neg (fun hs => shouldSwap_iff.mp hs h), if_pos h]
    · rw [if_pos (shouldSwap_iff.mpr h), if_neg h, ih]

lemma foldl_readByte (hl : newline ∉ l) (hlen : pre.length + l.length ≤ 255) :
    l.foldl readByte (done, pre) = (done, pre ++ l) := by
  induction l generalizing pre with
  | nil => simp
  | cons b l ih =>
    obtain ⟨hb, hl⟩ := not_or.mp (mt mem_cons.mpr hl)
    rw [length_cons] at hlen
    rw [foldl_cons, readByte, if_neg (Ne.symm hb), if_pos (show pre.length < 255 by omega),
      ih hl (by simp; omega), append_assoc, singleton_append]

lemma foldl_text (hl : ∀ l ∈ lines, newline ∉ l ∧ l.length ≤ 255)
    (hr : newline ∉ rest ∧ rest.length ≤ 255) (hc : done.length + lines.length ≤ 4096) :
    (text lines rest).foldl readByte (done, []) = (done ++ lines, rest) := by
  induction lines generalizing done with
  | nil => simpa [text] using foldl_readByte hr.1 (show [].length + _ ≤ _ by simpa using hr.2)
  | cons l lines ih =>
    have hll := hl l (mem_cons_self ..)
    rw [length_cons] at hc
    have htext : text (l :: lines) rest = l ++ newline :: text lines rest := by simp [text]
    rw [htext, foldl_append, foldl_readByte hll.1 (by simpa using hll.2), foldl_cons, readByte,
      if_pos rfl, push, if_pos (show done.length < 4096 by omega), nil_append,
      ih (fun k hk => hl k (mem_cons_of_mem _ hk)) (by simp; omega), append_assoc]
    rfl

lemma readLines_text {reads : List (List Byte)} (hreads : reads.flatten = text lines rest)
    (hl : ∀ l ∈ rest :: lines, newline ∉ l ∧ l.length ≤ 255)
    (hc : (allLines lines rest).length ≤ 4096) : readLines reads = allLines lines rest := by
  have hcount : lines.length ≤ (allLines lines rest).length := by
    unfold allLines
    split <;> simp
  unfold readLines
  rw [← foldl_flatten, hreads, foldl_text (fun l h => hl l (mem_cons_of_mem _ h))
    (hl rest (mem_cons_self ..)) (by simp; omega)]
  unfold allLines at hc ⊢
  by_cases hrest : rest = []
  · simp [hrest]
  · rw [if_neg hrest, length_append, length_singleton] at hc
    simp [push, hrest, length_pos_iff, show lines.length < 4096 by omega]

/-- However the input is split, its lines are printed in the opposite order. -/
theorem rustMain_opposite {reads : List (List Byte)} (hreads : reads.flatten = text lines rest)
    (hl : ∀ l ∈ rest :: lines, newline ∉ l ∧ l.length ≤ 255)
    (hc : (allLines lines rest).length ≤ 4096) :
    (rustMain reverse reads).Perm (allLines lines rest) ∧
      (rustMain reverse reads).Pairwise (Ordered !reverse) ∧
      ((rustMain reverse reads).Pairwise (Ordered reverse) ↔
        ∀ x ∈ allLines lines rest, ∀ y ∈ allLines lines rest, x = y) := by
  have hsort : rustMain reverse reads =
      ((allLines lines rest).reverse.insertionSort (Ordered reverse)).reverse := by
    simp only [rustMain, readLines_text hreads hl hc, sink_eq_orderedInsert, insertionSort,
      foldr_reverse]
  have hperm : (rustMain reverse reads).Perm (allLines lines rest) := by
    rw [hsort]
    exact (reverse_perm _).trans ((perm_insertionSort ..).trans (reverse_perm _))
  have hflip : (rustMain reverse reads).Pairwise fun x y => Ordered reverse y x := by
    rw [hsort, pairwise_reverse]
    exact pairwise_insertionSort ..
  refine ⟨hperm, hflip.imp fun h => ?_, fun h => ?_, fun h => ?_⟩
  · cases reverse <;> exact h
  · have heq : (rustMain reverse reads).Pairwise (· = ·) := (h.and hflip).imp fun ⟨h1, h2⟩ => by
      cases reverse
      exacts [le_antisymm h1 h2, le_antisymm h2 h1]
    exact fun x hx y hy => heq.forall_of_forall (fun _ _ => rfl) (hperm.mem_iff.mpr hx)
      (hperm.mem_iff.mpr hy)
  · refine pairwise_of_forall_mem_list fun x hx y hy => ?_
    rw [h x (hperm.mem_iff.mp hx) y (hperm.mem_iff.mp hy)]
    cases reverse <;> exact le_refl y

theorem rustMain_opposite_one : (rustMain true [[97, 10], [97]]).Pairwise (Ordered true) :=
  (rustMain_opposite (show _ = text [[97]] [97] from rfl) (by decide) (by decide)).2.2.mpr
    (by decide)

/-- The two lines of the input are printed the last first, with `-r` the first. -/
theorem rustMain_ab :
    rustMain false [[97, 10, 98, 10]] = [[98], [97]] ∧
      rustMain true [[97, 10, 98, 10]] = [[97], [98]] := by
  decide

end Elitra.Sort
