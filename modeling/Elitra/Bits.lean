import Mathlib.Data.Nat.Bitwise
import Mathlib.Data.Finset.Max
import Mathlib.Tactic.Linarith

namespace Elitra.Bits
open BitVec

/-- The C idiom `x & (1 << k) != 0`. -/
def hasBit {w : ℕ} (x : BitVec w) (k : ℕ) : Bool := x &&& (1#w <<< k) != 0#w

lemma hasBit_eq {w : ℕ} (x : BitVec w) {k : ℕ} (hk : k < w) : hasBit x k = x.getLsbD k := by
  rw [hasBit, ← twoPow_eq, and_twoPow]
  cases hx : x.getLsbD k with
  | false => simp
  | true =>
    have hne : twoPow w k ≠ 0#w := by
      intro h
      have hb := congrArg (fun y : BitVec w => y.getLsbD k) h
      simp [hk] at hb
    simpa using hne

lemma hasBit_or {w : ℕ} (x : BitVec w) {j k : ℕ} (hk : k < w) :
    hasBit (x ||| (1#w <<< j)) k = (hasBit x k || decide (k = j)) := by
  rw [hasBit_eq _ hk, hasBit_eq _ hk, ← twoPow_eq, getLsbD_or, getLsbD_twoPow]
  by_cases hjk : k = j
  · subst hjk
    simp [hk]
  · simp [hjk, Ne.symm hjk]

lemma hasBit_and_not {w : ℕ} (x : BitVec w) {j k : ℕ} (hk : k < w) :
    hasBit (x &&& ~~~(1#w <<< j)) k = (hasBit x k && !decide (k = j)) := by
  rw [hasBit_eq _ hk, hasBit_eq _ hk, ← twoPow_eq, getLsbD_and, getLsbD_not, getLsbD_twoPow]
  by_cases hjk : k = j
  · subst hjk
    simp [hk]
  · simp [hjk, Ne.symm hjk, hk]

end Elitra.Bits
