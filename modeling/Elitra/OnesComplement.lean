import Mathlib.Tactic.Common
import Mathlib.Algebra.Ring.Nat

namespace Elitra.OnesComplement

/-- Adds the carries above bit 16 back in until there are none. -/
def fold (s : ℕ) : ℕ := if s < 2 ^ 16 then s else fold (s % 2 ^ 16 + s / 2 ^ 16)
termination_by s

lemma fold_lt (s : ℕ) : fold s < 2 ^ 16 := by
  fun_induction fold s with
  | case1 s h => exact h
  | case2 s h ih => exact ih

lemma fold_mod (s : ℕ) : fold s % 65535 = s % 65535 := by
  fun_induction fold s with
  | case1 s h => rfl
  | case2 s h ih => omega

lemma fold_pos {s : ℕ} (h : 0 < s) : 0 < fold s := by
  fun_induction fold s with
  | case1 s hs => exact h
  | case2 s hs ih => exact ih (by omega)

lemma fold_eq_max {s : ℕ} (h : 0 < s) : fold s = 65535 ↔ s % 65535 = 0 := by
  have hl := fold_lt s
  have hm := fold_mod s
  have hp := fold_pos h
  omega

/-- The word that a checksum field gets for the sum of the other words. -/
def complement (s : ℕ) : ℕ := 65535 - fold s

lemma complement_lt (s : ℕ) : complement s < 2 ^ 16 := by
  unfold complement
  omega

lemma add_complement_mod (s : ℕ) : (s + complement s) % 65535 = 0 := by
  have hl := fold_lt s
  have hm := fold_mod s
  unfold complement
  omega

lemma add_complement_pos (s : ℕ) : 0 < s + complement s := by
  rcases s with _ | s
  · rw [complement, fold]
    decide
  · omega

/-- The sum of the 16-bit words of a byte string, where `p` and `q` are the weights of the first and
the second byte of a word. An odd byte string gets a zero at its end. -/
def wordSum (p q : ℕ) : List (BitVec 8) → ℕ
  | [] => 0
  | [a] => p * a.toNat
  | a :: b :: l => p * a.toNat + q * b.toNat + wordSum p q l

lemma wordSum_swap (l : List (BitVec 8)) :
    256 * wordSum 1 256 l % 65535 = wordSum 256 1 l % 65535 := by
  fun_induction wordSum 256 1 l with
  | case1 => rfl
  | case2 a => simp [wordSum]
  | case3 a b l ih =>
    rw [wordSum]
    omega

lemma wordSum_le (l : List (BitVec 8)) : 2 * wordSum 256 1 l ≤ 65535 * (l.length + 1) := by
  fun_induction wordSum 256 1 l with
  | case1 => simp
  | case2 a =>
    rw [List.length_singleton]
    omega
  | case3 a b l ih =>
    rw [List.length_cons, List.length_cons]
    omega

/-- A sum keeps its value when the bytes of a word are swapped only if they are equal. -/
lemma swap_mod_iff {s x k k' : ℕ} (hx : x < 2 ^ 16) (hk : k' % 65535 = k % 65535)
    (h : (s + (256 * (x % 256) + x / 256) + k) % 65535 = 0) :
    (s + x + k') % 65535 = 0 ↔ x % 256 = x / 256 := by
  have hd : (256 * (x % 256) + x / 256) % 65535 = x % 65535 ↔ x % 256 = x / 256 := by omega
  omega

/-- The words of the bytes, with the checksum among them, add up to minus zero. -/
def Valid (l : List (BitVec 8)) : Prop := fold (wordSum 256 1 l) = 65535

instance (l : List (BitVec 8)) : Decidable (Valid l) := inferInstanceAs (Decidable (_ = _))

def be16 (x : ℕ) : List (BitVec 8) := [BitVec.ofNat 8 (x / 2 ^ 8), BitVec.ofNat 8 x]
def le16 (x : ℕ) : List (BitVec 8) := [BitVec.ofNat 8 x, BitVec.ofNat 8 (x / 2 ^ 8)]

lemma be16_word {x : ℕ} (h : x < 2 ^ 16) :
    256 * (BitVec.ofNat 8 (x / 2 ^ 8)).toNat + (BitVec.ofNat 8 x).toNat = x := by
  simp only [BitVec.toNat_ofNat]
  omega

lemma le16_word {x : ℕ} (h : x < 2 ^ 16) :
    256 * (BitVec.ofNat 8 x).toNat + (BitVec.ofNat 8 (x / 2 ^ 8)).toNat =
      256 * (x % 256) + x / 256 := by
  simp only [BitVec.toNat_ofNat]
  omega

end Elitra.OnesComplement
