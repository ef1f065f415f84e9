import Mathlib.Data.List.Range

namespace Elitra.Loop
open List

variable {ι σ : Type}

/-- A loop over a list of indices whose body can leave the function early, by returning `false`. -/
def run (body : ι → σ → σ × Bool) : List ι → σ → σ × Bool
  | [], s => (s, true)
  | i :: is, s => match body i s with
    | (s, true) => run body is s
    | (s, false) => (s, false)

/-- A statement that can leave the function early, followed by the rest of the function. -/
def seq (r : σ × Bool) (rest : σ → σ × Bool) : σ × Bool :=
  match r with
  | (s, true) => rest s
  | (s, false) => (s, false)

lemma seq_eq (r : σ × Bool) (rest : σ → σ × Bool) :
    seq r rest = if r.2 then rest r.1 else r := by
  obtain ⟨s, b⟩ := r
  cases b <;> rfl

lemma run_cons (body : ι → σ → σ × Bool) (i : ι) (is : List ι) (s : σ) :
    run body (i :: is) s = seq (body i s) (run body is) := rfl

/-- A loop whose body always goes on. -/
def each (body : ι → σ → σ) (l : List ι) (s : σ) : σ := l.foldl (fun s i => body i s) s

variable {s : σ} {n : ℕ}

/-- `P k` holds before round `k`; a round that leaves the loop establishes `Q`. -/
lemma run_range {body : ℕ → σ → σ × Bool} (P : ℕ → σ → Prop) (Q : σ → Prop) (h0 : P 0 s)
    (hgo : ∀ i s, i < n → P i s → (body i s).2 = true → P (i + 1) (body i s).1)
    (hs : ∀ i s, i < n → P i s → (body i s).2 = false → Q (body i s).1) :
    ((run body (List.range n) s).2 = true → P n (run body (List.range n) s).1) ∧
      ((run body (List.range n) s).2 = false → Q (run body (List.range n) s).1) := by
  -- The rounds from `k` on, by induction on how many are left.
  have key : ∀ m k s, k + m = n → P k s →
      ((run body (range' k m) s).2 = true → P n (run body (range' k m) s).1) ∧
        ((run body (range' k m) s).2 = false → Q (run body (range' k m) s).1) := by
    intro m
    induction m with
    | zero =>
      intro k s hk hP
      obtain rfl : k = n := by omega
      exact ⟨fun _ => hP, fun h => by simp [run] at h⟩
    | succ m ih =>
      intro k s hk hP
      rw [range'_succ, run_cons, seq_eq]
      cases hb : (body k s).2 with
      | true =>
        rw [if_pos rfl]
        exact ih (k + 1) _ (by omega) (hgo k s (by omega) hP hb)
      | false =>
        rw [if_neg (by simp)]
        exact ⟨fun h => absurd h (by simp [hb]), fun _ => hs k s (by omega) hP hb⟩
  rw [range_eq_range']
  exact key n 0 s (by omega) h0

lemma run_invariant {body : ι → σ → σ × Bool} {P : σ → Prop} {l : List ι} (h : P s)
    (hs : ∀ i ∈ l, ∀ s, P s → P (body i s).1) : P (run body l s).1 := by
  induction l generalizing s with
  | nil => exact h
  | cons i l ih =>
    have hf := hs i mem_cons_self s h
    rw [run_cons, seq_eq]
    split_ifs
    · exact ih hf fun j hj => hs j (mem_cons_of_mem i hj)
    · exact hf

lemma each_range {body : ℕ → σ → σ} (P : ℕ → σ → Prop) (h0 : P 0 s)
    (hgo : ∀ i s, i < n → P i s → P (i + 1) (body i s)) : P n (each body (List.range n) s) := by
  induction n with
  | zero => exact h0
  | succ n ih =>
    rw [each, range_succ, foldl_append]
    exact hgo n _ (Nat.lt_succ_self n) (ih fun i s hi => hgo i s (by omega))

end Elitra.Loop
