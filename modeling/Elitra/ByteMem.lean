import Mathlib.Tactic.Linarith
import Mathlib.Tactic.Ring

namespace Elitra
open Function

/-- Byte-addressed memory. -/
abbrev Mem := ℕ → BitVec 8

namespace ByteMem

/-- The little-endian value of the `n` bytes at `a`. -/
def readLE (m : Mem) : ℕ → ℕ → ℕ
  | _, 0 => 0
  | a, n + 1 => (m a).toNat + 256 * readLE m (a + 1) n

/-- Store the low `n` bytes of `v` at `a`, least significant first. -/
def writeLE : Mem → ℕ → ℕ → ℕ → Mem
  | m, _, _, 0 => m
  | m, a, v, n + 1 => writeLE (update m a (BitVec.ofNat 8 v)) (a + 1) (v / 256) n

/-- `ptr::copy_nonoverlapping(src, dst, n)`. -/
def copyBytes (m : Mem) (src dst n : ℕ) : Mem :=
  fun x => if dst ≤ x ∧ x < dst + n then m (src + (x - dst)) else m x

lemma readLE_congr {m m' : Mem} {a n : ℕ} (h : ∀ x, a ≤ x → x < a + n → m' x = m x) :
    readLE m' a n = readLE m a n := by
  induction n generalizing a with
  | zero => rfl
  | succ n ih =>
    rw [readLE, readLE, h a (Nat.le_refl a) (by omega)]
    rw [ih fun x h1 h2 => h x (by omega) (by omega)]

variable {m : Mem}

lemma writeLE_of_outside {a v n x : ℕ} (h : x < a ∨ a + n ≤ x) :
    writeLE m a v n x = m x := by
  induction n generalizing m a v with
  | zero => rfl
  | succ n ih =>
    rw [writeLE, ih (by omega), update_of_ne (by omega)]

lemma readLE_writeLE_of_disjoint {a b v n k : ℕ} (h : b + k ≤ a ∨ a + n ≤ b) :
    readLE (writeLE m a v n) b k = readLE m b k :=
  readLE_congr fun _ _ _ => writeLE_of_outside (by omega)

lemma readLE_writeLE (m : Mem) (a v n : ℕ) : readLE (writeLE m a v n) a n = v % 256 ^ n := by
  induction n generalizing m a v with
  | zero => simp [readLE, Nat.mod_one]
  | succ n ih =>
    have hh : writeLE (update m a (BitVec.ofNat 8 v)) (a + 1) (v / 256) n a = BitVec.ofNat 8 v := by
      rw [writeLE_of_outside (by omega), update_self]
    rw [readLE, writeLE, ih, hh, BitVec.toNat_ofNat, pow_succ 256, Nat.mul_comm (256 ^ n) 256,
      Nat.mod_mul]

lemma readLE_writeLE_of_lt (m : Mem) {a v n : ℕ} (h : v < 256 ^ n) :
    readLE (writeLE m a v n) a n = v := by
  rw [readLE_writeLE, Nat.mod_eq_of_lt h]

lemma readLE_update_of_outside {a x n : ℕ} {v : BitVec 8} (h : x < a ∨ a + n ≤ x) :
    readLE (update m x v) a n = readLE m a n :=
  readLE_congr fun y _ _ => update_of_ne (by omega) _ _

lemma copyBytes_of_outside {src dst n x : ℕ} (h : x < dst ∨ dst + n ≤ x) :
    copyBytes m src dst n x = m x := by
  rw [copyBytes, if_neg (by omega)]

lemma copyBytes_apply {src dst n i : ℕ} (h : i < n) :
    copyBytes m src dst n (dst + i) = m (src + i) := by
  rw [copyBytes, if_pos (by omega), Nat.add_sub_cancel_left]

end ByteMem
end Elitra
