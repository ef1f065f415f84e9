import Elitra.PagingLeaf

namespace Elitra.Paging
open List Radix

/-- An entry of a table, by the table's path and the entry's index. -/
structure Slot (path : List ℕ) (i : ℕ) : Prop where
  short : path.length ≤ 3
  index : ∀ j ∈ path ++ [i], j < 512
  lower : ∀ j, (path ++ [i]).head? = some j → j < 256

/-- How many pages an entry covers, by the length of its table's path. -/
def width : ℕ → ℕ
  | 0 => 2 ^ 27
  | 1 => 2 ^ 18
  | 2 => 2 ^ 9
  | _ => 1

lemma width_pos (n : ℕ) : 0 < width n := by
  unfold width
  split <;> decide

lemma width_step {n : ℕ} (h : n ≤ 2) : 512 * width (n + 1) = width n := by
  match n, h with
  | 0, _ => decide
  | 1, _ => decide
  | 2, _ => decide

/-- The first page below a table. -/
def pageOf : List ℕ → ℕ
  | [] => 0
  | [i] => i * 2 ^ 27
  | [i, j] => i * 2 ^ 27 + j * 2 ^ 18
  | i :: j :: l :: _ => i * 2 ^ 27 + j * 2 ^ 18 + l * 2 ^ 9

def firstPage (path : List ℕ) (i : ℕ) : ℕ := pageOf path + i * width path.length

lemma slot_root {i : ℕ} (h : i < 256) : Slot [] i := by
  refine ⟨by simp, ?_, ?_⟩
  · intro j hj
    simp only [nil_append, mem_singleton] at hj
    omega
  intro j hj
  simp only [nil_append, head?_cons, Option.some.injEq] at hj
  omega

variable {m : Machine} {place : Place}

section Order

variable {path : List ℕ} {i j v : ℕ}

lemma Slot.tablePath (h : Slot path i) (hlen : path.length ≤ 2) : TablePath (path ++ [i]) := by
  refine ⟨?_, h.index, h.lower⟩
  rw [length_append, length_singleton]
  omega

lemma Slot.step (h : Slot path i) (hlen : path.length ≤ 2) (hj : j < 512) :
    Slot (path ++ [i]) j := by
  have hp := h.tablePath hlen
  refine ⟨hp.short, ?_, ?_⟩
  · intro l hl
    rw [mem_append, mem_singleton] at hl
    rcases hl with hl | rfl
    · exact h.index l hl
    · exact hj
  intro l hl
  apply h.lower
  cases path with
  | nil => simpa using hl
  | cons a rest => simpa using hl

lemma path_cases (h : path.length ≤ 3) :
    path = [] ∨ (∃ a, path = [a]) ∨ (∃ a b, path = [a, b]) ∨ ∃ a b c, path = [a, b, c] := by
  match path with
  | [] => exact .inl rfl
  | [a] => exact .inr (.inl ⟨a, rfl⟩)
  | [a, b] => exact .inr (.inr (.inl ⟨a, b, rfl⟩))
  | [a, b, c] => exact .inr (.inr (.inr ⟨a, b, c, rfl⟩))
  | a :: b :: c :: d :: rest =>
    simp only [length_cons] at h
    omega

lemma firstPage_zero (hlen : path.length ≤ 2) : firstPage (path ++ [i]) 0 = firstPage path i := by
  rcases path_cases (Nat.le_succ_of_le hlen) with rfl | ⟨a, rfl⟩ | ⟨a, b, rfl⟩ | ⟨a, b, c, rfl⟩
  · simp [firstPage, pageOf, width]
  · simp [firstPage, pageOf, width]
  · simp [firstPage, pageOf, width]
  · simp at hlen

lemma firstPage_succ (path : List ℕ) (i : ℕ) :
    firstPage path (i + 1) = firstPage path i + width path.length := by
  rw [firstPage, firstPage, Nat.add_mul, Nat.one_mul, Nat.add_assoc]

lemma firstPage_mono (path : List ℕ) {i j : ℕ} (h : i ≤ j) : firstPage path i ≤ firstPage path j :=
  Nat.add_le_add_left (Nat.mul_le_mul_right _ h) _

lemma firstPage_end (hlen : path.length ≤ 2) :
    firstPage (path ++ [i]) 512 = firstPage path (i + 1) := by
  have hw : 512 * width (path ++ [i]).length = width path.length := by
    rw [length_append, length_singleton, width_step hlen]
  rw [firstPage_succ path i, ← firstPage_zero hlen, ← hw, firstPage, firstPage, Nat.zero_mul, Nat.add_zero]

lemma firstPage_root (i : ℕ) : firstPage [] i = i * 2 ^ 27 := Nat.zero_add _

lemma Slot.below (h : Slot path i) (hlo : firstPage path i ≤ v) (hhi : v < firstPage path (i + 1)) :
    v < userPages ∧ ∃ rest, pathOf v ++ [v % 512] = path ++ [i] ++ rest := by
  have hi := h.index
  have hl := h.lower
  unfold userPages pathOf
  rcases path_cases h.short with rfl | ⟨a, rfl⟩ | ⟨a, b, rfl⟩ | ⟨a, b, c, rfl⟩
  · have h0 : i < 256 := hl i rfl
    simp only [firstPage, pageOf, width, length_nil] at hlo hhi
    refine ⟨by omega, [v / 2 ^ 18 % 512, v / 2 ^ 9 % 512, v % 512], ?_⟩
    rw [show v / 2 ^ 27 % 512 = i by omega]
    rfl
  · have h0 : a < 256 := hl a rfl
    have h1 : i < 512 := hi i (by simp)
    simp only [firstPage, pageOf, width, length_cons, length_nil] at hlo hhi
    refine ⟨by omega, [v / 2 ^ 9 % 512, v % 512], ?_⟩
    rw [show v / 2 ^ 27 % 512 = a by omega, show v / 2 ^ 18 % 512 = i by omega]
    rfl
  · have h0 : a < 256 := hl a rfl
    have h1 : b < 512 := hi b (by simp)
    have h2 : i < 512 := hi i (by simp)
    simp only [firstPage, pageOf, width, length_cons, length_nil] at hlo hhi
    refine ⟨by omega, [v % 512], ?_⟩
    rw [show v / 2 ^ 27 % 512 = a by omega, show v / 2 ^ 18 % 512 = b by omega,
      show v / 2 ^ 9 % 512 = i by omega]
    rfl
  have h0 : a < 256 := hl a rfl
  have h1 : b < 512 := hi b (by simp)
  have h2 : c < 512 := hi c (by simp)
  have h3 : i < 512 := hi i (by simp)
  simp only [firstPage, pageOf, width, length_cons, length_nil] at hlo hhi
  refine ⟨by omega, [], ?_⟩
  rw [show v / 2 ^ 27 % 512 = a by omega, show v / 2 ^ 18 % 512 = b by omega,
    show v / 2 ^ 9 % 512 = c by omega, show v % 512 = i by omega]
  rfl

lemma Slot.next_le (h : Slot path i) : firstPage path (i + 1) ≤ userPages := by
  have hpos := width_pos path.length
  have hs := firstPage_succ path i
  have hl := (h.below (v := firstPage path (i + 1) - 1) (by omega) (by omega)).1
  omega

lemma Slot.page (h : Slot path i) (hlen : path.length = 3) :
    firstPage path i < userPages ∧ pathOf (firstPage path i) = path ∧ firstPage path i % 512 = i := by
  have hw : width path.length = 1 := by rw [hlen]; rfl
  obtain ⟨hv, rest, heq⟩ := h.below le_rfl (by rw [firstPage_succ, hw]; omega)
  have hr : rest = [] := by
    have := congrArg length heq
    simp only [length_append, pathOf, length_cons, length_nil, hlen] at this
    exact eq_nil_of_length_eq_zero (by omega)
  rw [hr, append_nil] at heq
  obtain ⟨hp, hi⟩ := append_inj' heq rfl
  exact ⟨hv, hp, by simpa using hi⟩

lemma Slot.leaf_absent {spaces kern : Set ℕ} {r t : ℕ}
    (h : Slot path i) (hT : Tables spaces kern place m) (hr : r ∈ spaces) (hlen : path.length ≤ 2)
    (ht : descend pteNext m.mem r path = some t) (habs : present (m.mem t i) = false)
    (hlo : firstPage path i ≤ v) (hhi : v < firstPage path (i + 1)) : leaf m r v = 0 := by
  obtain ⟨hv, rest, heq⟩ := h.below hlo hhi
  have hne : rest ≠ [] := by
    rintro rfl
    have := congrArg length heq
    simp only [length_append, pathOf, length_cons, length_nil] at this
    omega
  obtain ⟨front, last, rfl⟩ := (eq_nil_or_concat rest).resolve_left hne
  rw [concat_eq_append, ← append_assoc] at heq
  obtain ⟨hp, -⟩ := append_inj' heq rfl
  rw [hT.leaf_eq hr hv, hp, descend_append, descend_snoc, ht, Option.bind_some,
    pteNext_absent habs, Option.bind_none]

lemma Slot.not_huge {spaces kern : Set ℕ} {r t : ℕ}
    (h : Slot path i) (hT : Tables spaces kern place m) (hr : r ∈ spaces) (hlen : path.length = 2)
    (ht : descend pteNext m.mem r path = some t) :
    (present (m.mem t i) && huge (m.mem t i)) = false := by
  have hp := h.tablePath hlen.le
  cases hpr : present (m.mem t i) with
  | false => rfl
  | true =>
    have hpl := hT.place_table hr (tablePath_closed _ _ hp) ht
    rw [hT.flat t r path i hpl hlen hp hpr]
    rfl

end Order

end Elitra.Paging
