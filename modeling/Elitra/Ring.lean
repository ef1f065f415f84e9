import Mathlib.Algebra.Ring.Nat
import Mathlib.Data.List.Range

namespace Elitra
open Function List

/-- A circular buffer: what is in it stands from `tail` to just before `head`. -/
structure Ring (α : Type) where
  buf : ℕ → α
  head : ℕ
  tail : ℕ

namespace Ring

variable {α : Type} {N : ℕ} {r : Ring α} {x : α}

def count (N : ℕ) (r : Ring α) : ℕ := (r.head + N - r.tail) % N

def items (N : ℕ) (r : Ring α) : List α :=
  (List.range (r.count N)).map fun i => r.buf ((r.tail + i) % N)

def push (N : ℕ) (r : Ring α) (x : α) : Ring α :=
  { r with buf := update r.buf r.head x, head := (r.head + 1) % N }

def pop (N : ℕ) (r : Ring α) : Ring α := { r with tail := (r.tail + 1) % N }

/-- Both indices are cells of the buffer. -/
structure Fits (N : ℕ) (r : Ring α) : Prop where
  head : r.head < N
  tail : r.tail < N

lemma mod_succ {n : ℕ} (h : n < N) : (n + 1) % N = if n + 1 = N then 0 else n + 1 := by
  split
  · rename_i heq
    rw [heq, Nat.mod_self]
  · exact Nat.mod_eq_of_lt (by omega)

section Items

variable (h : Fits N r)
include h

lemma Fits.count_eq :
    r.count N = if r.tail ≤ r.head then r.head - r.tail else r.head + N - r.tail := by
  have hh := h.head
  have ht := h.tail
  unfold count
  split
  · rw [show r.head + N - r.tail = r.head - r.tail + N by omega, Nat.add_mod_right]
    exact Nat.mod_eq_of_lt (by omega)
  · exact Nat.mod_eq_of_lt (by omega)

lemma Fits.count_lt : r.count N < N := Nat.mod_lt _ (Nat.zero_lt_of_lt h.head)

lemma Fits.push : Fits N (r.push N x) :=
  ⟨Nat.mod_lt _ (Nat.zero_lt_of_lt h.head), h.tail⟩

lemma Fits.pop : Fits N (r.pop N) :=
  ⟨h.head, Nat.mod_lt _ (Nat.zero_lt_of_lt h.head)⟩

lemma Fits.count_push (hr : (r.head + 1) % N ≠ r.tail) :
    (r.push N x).count N = r.count N + 1 := by
  have hh := h.head
  have ht := h.tail
  rw [(h.push).count_eq, h.count_eq]
  change (if r.tail ≤ (r.head + 1) % N then (r.head + 1) % N - r.tail
    else (r.head + 1) % N + N - r.tail) = _
  rw [mod_succ hh] at hr ⊢
  split_ifs at * <;> omega

lemma Fits.count_pop (hne : r.head ≠ r.tail) :
    r.count N = (r.pop N).count N + 1 := by
  have hh := h.head
  have ht := h.tail
  rw [(h.pop).count_eq, h.count_eq]
  change _ = (if (r.tail + 1) % N ≤ r.head then r.head - (r.tail + 1) % N
    else r.head + N - (r.tail + 1) % N) + 1
  rw [mod_succ ht]
  split_ifs <;> omega

lemma Fits.tail_add_count : (r.tail + r.count N) % N = r.head := by
  have hh := h.head
  have ht := h.tail
  rw [h.count_eq]
  split
  · rw [show r.tail + (r.head - r.tail) = r.head by omega]
    exact Nat.mod_eq_of_lt hh
  rw [show r.tail + (r.head + N - r.tail) = r.head + N by omega, Nat.add_mod_right]
  exact Nat.mod_eq_of_lt hh

lemma Fits.cell_ne_head {i : ℕ} (hi : i < r.count N) :
    (r.tail + i) % N ≠ r.head := by
  have hh := h.head
  have ht := h.tail
  rw [h.count_eq] at hi
  have hc : (r.tail + i) % N = if r.tail + i < N then r.tail + i else r.tail + i - N := by
    split at hi
    · rw [if_pos (by omega), Nat.mod_eq_of_lt (by omega)]
    split
    · exact Nat.mod_eq_of_lt (by assumption)
    · rw [Nat.mod_eq_sub_mod (by omega), Nat.mod_eq_of_lt (by omega)]
  rw [hc]
  split_ifs at * <;> omega

lemma Fits.items_push (hr : (r.head + 1) % N ≠ r.tail) :
    (r.push N x).items N = r.items N ++ [x] := by
  unfold items
  rw [h.count_push hr, range_succ, map_append]
  congr 1
  · apply map_congr_left
    intro i hi
    exact update_of_ne (h.cell_ne_head (mem_range.mp hi)) _ _
  change [update r.buf r.head x ((r.tail + r.count N) % N)] = [x]
  rw [h.tail_add_count, update_self]

lemma Fits.items_pop (hne : r.head ≠ r.tail) :
    r.items N = r.buf r.tail :: (r.pop N).items N := by
  unfold items
  rw [h.count_pop hne, range_succ_eq_map, map_cons, map_map]
  congr 1
  · rw [Nat.add_zero, Nat.mod_eq_of_lt h.tail]
  apply map_congr_left
  intro i _
  change r.buf ((r.tail + (i + 1)) % N) = r.buf (((r.tail + 1) % N + i) % N)
  rw [Nat.mod_add_mod, Nat.add_assoc, Nat.add_comm 1 i]

end Items

end Ring
end Elitra
