import Elitra.Pmm

namespace Elitra.Cow
open Function

/-- The statics of `cow.rs`; `refcount = 0` is the null pointer, `count` holds the `u16` cells. -/
structure State where
  refcount : ℕ
  totalFrames : ℕ
  count : ℕ → ℕ

/-- The frames that `krust_cow_init` takes behind the first one. -/
def allocMore : ℕ → Pmm.State → Pmm.State × Bool
  | 0, p => (p, true)
  | n + 1, p =>
    let r := Pmm.krustPmmAllocFrame p
    if r.2 = Pmm.noFrame then (r.1, false) else allocMore n r.1

def krustCowInit (p : Pmm.State) (s : State) (totalFrames : ℕ) : Pmm.State × State × ℤ :=
  let framesNeeded := (totalFrames * 2 + 4095) / 4096
  let first := Pmm.krustPmmAllocFrame p
  if first.2 = Pmm.noFrame then (first.1, s, -1)
  else
    let s := { s with refcount := first.2 * 4096, totalFrames := totalFrames }
    let more := allocMore (framesNeeded - 1) first.1
    if more.2 then (more.1, { s with count := fun f => if f < totalFrames then 0 else s.count f }, 0)
    else (more.1, s, -1)

/-- Frames without a cell: beyond the table, or any frame before the table exists. -/
def untracked (s : State) (frame : ℕ) : Bool :=
  decide (s.totalFrames ≤ frame) || s.refcount == 0

def krustCowRefinc (s : State) (frame : ℕ) : State :=
  if untracked s frame then s
  else
    let prev := s.count frame
    { s with count := update s.count frame (if 0xFFFE ≤ prev then 0xFFFF else prev + 1) }

/-- Returns the count before the decrement. -/
def krustCowRefdec (s : State) (frame : ℕ) : State × ℕ :=
  if untracked s frame then (s, 0)
  else
    let prev := s.count frame
    (if 0 < prev then { s with count := update s.count frame (prev - 1) } else s, prev)

def krustCowRefcount (s : State) (frame : ℕ) : ℕ :=
  if untracked s frame then 0 else s.count frame

section Lemmas

variable {s : State} {frame g : ℕ}

lemma untracked_refinc : untracked (krustCowRefinc s frame) g = untracked s g := by
  unfold krustCowRefinc
  split
  · rfl
  · rfl

lemma untracked_refdec : untracked (krustCowRefdec s frame).1 g = untracked s g := by
  unfold krustCowRefdec
  split
  · rfl
  dsimp only
  split
  · rfl
  · rfl

lemma refcount_refinc : krustCowRefcount (krustCowRefinc s frame) g =
    if g = frame ∧ untracked s frame = false then
      (if 0xFFFE ≤ krustCowRefcount s g then 0xFFFF else krustCowRefcount s g + 1)
    else krustCowRefcount s g := by
  unfold krustCowRefcount
  rw [untracked_refinc]
  by_cases hg : g = frame
  · subst hg
    cases hu : untracked s g with
    | true => simp
    | false => simp [krustCowRefinc, hu]
  have hc : (krustCowRefinc s frame).count g = s.count g := by
    unfold krustCowRefinc
    split
    · rfl
    · exact update_of_ne hg _ _
  rw [hc]
  simp only [hg, false_and, if_false]

lemma refdec_snd : (krustCowRefdec s frame).2 = krustCowRefcount s frame := by
  unfold krustCowRefdec krustCowRefcount
  split
  · rfl
  · rfl

lemma refcount_refdec : krustCowRefcount (krustCowRefdec s frame).1 g =
    if g = frame then krustCowRefcount s g - 1 else krustCowRefcount s g := by
  unfold krustCowRefcount
  rw [untracked_refdec]
  by_cases hg : g = frame
  · subst hg
    rw [if_pos rfl]
    cases hu : untracked s g with
    | true => simp
    | false =>
      simp only [krustCowRefdec, hu, Bool.false_eq_true, ↓reduceIte]
      split
      · simp
      · omega
  have hc : (krustCowRefdec s frame).1.count g = s.count g := by
    unfold krustCowRefdec
    split
    · rfl
    dsimp only
    split
    · exact update_of_ne hg _ _
    · rfl
  rw [hc, if_neg hg]

end Lemmas

end Elitra.Cow
