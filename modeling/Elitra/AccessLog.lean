import Mathlib.Data.List.Basic

namespace Elitra.AccessLog

/-- What a routine does with addresses that it was handed: it accepts the `n` bytes at `p` after a
test, or it reads or writes them. -/
inductive Event where
  | accept (p n : ℕ)
  | touch (p n : ℕ)
  deriving DecidableEq, Repr

/-- One of the ranges holds all the `n` bytes at `p`. -/
def Holds (rs : List (ℕ × ℕ)) (p n : ℕ) : Prop := ∃ r ∈ rs, r.1 ≤ p ∧ p + n ≤ r.1 + r.2

/-- Whatever is touched lies in a range that was accepted before; `rs` are those accepted so far. -/
def Covered : List (ℕ × ℕ) → List Event → Prop
  | _, [] => True
  | rs, .accept p n :: es => Covered ((p, n) :: rs) es
  | rs, .touch p n :: es => Holds rs p n ∧ Covered rs es

/-- The routine goes on only with a range that passes the test. -/
def guarded (test : ℕ → ℕ → Bool) (p n : ℕ) (next : List Event) : List Event :=
  if test p n then .accept p n :: next else []

def touches (xs : List (ℕ × ℕ)) : List Event := xs.map fun x => .touch x.1 x.2

variable {rs rs' : List (ℕ × ℕ)} {p n m : ℕ} {test : ℕ → ℕ → Bool}

@[simp]
lemma covered_nil : Covered rs [] := trivial

variable {es : List Event}

@[simp]
lemma covered_accept :
    Covered rs (.accept p n :: es) ↔ Covered ((p, n) :: rs) es := Iff.rfl

@[simp]
lemma covered_touch :
    Covered rs (.touch p n :: es) ↔ Holds rs p n ∧ Covered rs es := Iff.rfl

@[simp]
lemma not_holds_nil : ¬ Holds [] p n := by
  intro ⟨r, hr, _⟩
  cases hr

lemma holds_cons {r : ℕ × ℕ} :
    Holds (r :: rs) p n ↔ (r.1 ≤ p ∧ p + n ≤ r.1 + r.2) ∨ Holds rs p n := by
  simp only [Holds, List.mem_cons, exists_eq_or_imp]

lemma holds_first (h : m ≤ n) : Holds ((p, n) :: rs) p m :=
  holds_cons.mpr (Or.inl ⟨Nat.le_refl p, Nat.add_le_add_left h p⟩)

lemma holds_part {i : ℕ} (h : i + m ≤ n) : Holds ((p, n) :: rs) (p + i) m := by
  apply holds_cons.mpr
  left
  dsimp only
  omega

lemma Holds.cons (h : Holds rs p m) (r : ℕ × ℕ) : Holds (r :: rs) p m :=
  holds_cons.mpr (Or.inr h)

lemma Holds.mono (h : Holds rs p m) (hsub : ∀ r ∈ rs, r ∈ rs') : Holds rs' p m := by
  obtain ⟨r, hr, hin⟩ := h
  exact ⟨r, hsub r hr, hin⟩

lemma holds_congr (h : ∀ r, r ∈ rs ↔ r ∈ rs') : Holds rs p m ↔ Holds rs' p m :=
  ⟨fun hold => hold.mono fun r => (h r).mp, fun hold => hold.mono fun r => (h r).mpr⟩

lemma holds_single {i : ℕ} : Holds [(p, n)] (p + i) m ↔ i + m ≤ n := by
  rw [holds_cons]
  simp only [not_holds_nil, or_false]
  omega

@[simp]
lemma covered_touches {xs : List (ℕ × ℕ)} :
    Covered rs (touches xs) ↔ ∀ x ∈ xs, Holds rs x.1 x.2 := by
  induction xs with
  | nil => simp [touches]
  | cons x xs ih =>
    rw [List.forall_mem_cons, ← ih]
    rfl

lemma covered_touches_append {xs : List (ℕ × ℕ)} :
    Covered rs (touches xs ++ es) ↔ (∀ x ∈ xs, Holds rs x.1 x.2) ∧ Covered rs es := by
  induction xs with
  | nil => simp [touches]
  | cons x xs ih =>
    rw [List.forall_mem_cons, and_assoc, ← ih]
    rfl

lemma Covered.append {es fs : List Event} (h : Covered rs es) (hn : ∀ rs', Covered rs' fs) :
    Covered rs (es ++ fs) := by
  induction es generalizing rs with
  | nil => exact hn rs
  | cons e es ih =>
    cases e with
    | accept p n => exact ih h
    | touch p n => exact ⟨h.1, ih h.2⟩

@[simp]
lemma covered_guarded {next : List Event} :
    Covered rs (guarded test p n next) ↔ (test p n = true → Covered ((p, n) :: rs) next) := by
  unfold guarded
  split <;> rename_i h <;> simp [h]

end Elitra.AccessLog
