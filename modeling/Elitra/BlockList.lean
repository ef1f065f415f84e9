import Mathlib.Data.List.Basic
import Mathlib.Tactic.Linarith
import Mathlib.Tactic.Ring

namespace Elitra

/-- A block of a contiguous arena: `size` payload bytes after its header. -/
structure Block where
  size : ℕ
  free : Bool
  deriving DecidableEq, Repr

variable {b c : Block}

namespace BlockList

section

variable (h : ℕ)

/-- The bytes a list of blocks occupies, headers of `h` bytes included. -/
def span : List Block → ℕ
  | [] => 0
  | b :: bs => h + b.size + span bs

/-- Block `b` of the list starts at `p`, when the list is laid out from `a` on. -/
def At (a : ℕ) (bs : List Block) (p : ℕ) (b : Block) : Prop :=
  ∃ pre post, bs = pre ++ b :: post ∧ p = a + span h pre

/-- Cut `b` down to `n` bytes when the rest can hold a header and `slack` bytes. -/
def carve (slack n : ℕ) (b : Block) : List Block :=
  if b.size < n + h + slack then [b] else [⟨n, b.free⟩, ⟨b.size - n - h, true⟩]

/-- One left-to-right pass that joins every free block with the free blocks after it. -/
def coalesce : Block → List Block → List Block
  | b, [] => [b]
  | b, c :: rest =>
    if b.free && c.free then coalesce ⟨b.size + (h + c.size), true⟩ rest
    else b :: coalesce c rest

end

variable {h : ℕ}

@[simp] lemma span_nil : span h [] = 0 := rfl

@[simp] lemma span_cons (b : Block) (bs : List Block) :
    span h (b :: bs) = h + b.size + span h bs := rfl

@[simp] lemma span_append (xs ys : List Block) : span h (xs ++ ys) = span h xs + span h ys := by
  induction xs with
  | nil => simp
  | cons b xs ih => simp only [List.cons_append, span_cons, ih]; omega

variable {a p : ℕ}

lemma at_nil : ¬ At h a [] p b := by
  rintro ⟨pre, post, he, -⟩
  simp at he

variable {bs : List Block} {b c : Block}

lemma at_cons :
    At h a (c :: bs) p b ↔ (p = a ∧ b = c) ∨ At h (a + (h + c.size)) bs p b := by
  constructor
  · rintro ⟨pre, post, he, rfl⟩
    cases pre with
    | nil =>
      obtain ⟨rfl, rfl⟩ : c = b ∧ bs = post := by simpa using he
      exact .inl ⟨by simp, rfl⟩
    | cons d pre =>
      obtain ⟨rfl, rfl⟩ : c = d ∧ bs = pre ++ b :: post := by simpa using he
      exact .inr ⟨pre, post, rfl, by simp only [span_cons]; omega⟩
  rintro (⟨rfl, rfl⟩ | ⟨pre, post, rfl, rfl⟩)
  · exact ⟨[], bs, rfl, by simp⟩
  · exact ⟨c :: pre, post, rfl, by simp only [span_cons]; omega⟩

lemma at_append {xs ys : List Block} :
    At h a (xs ++ ys) p b ↔ At h a xs p b ∨ At h (a + span h xs) ys p b := by
  induction xs generalizing a with
  | nil => simp [at_nil]
  | cons c xs ih =>
    rw [List.cons_append, at_cons, at_cons, ih, or_assoc, span_cons]
    rw [show a + (h + c.size) + span h xs = a + (h + c.size + span h xs) by omega]

lemma at_bounds (hb : At h a bs p b) : a ≤ p ∧ p + (h + b.size) ≤ a + span h bs := by
  obtain ⟨pre, post, rfl, rfl⟩ := hb
  simp only [span_append, span_cons]
  omega

/-- Two blocks at one address are one block; otherwise their extents are disjoint. -/
lemma at_separate {a p q : ℕ} (hb : At h a bs p b) (hc : At h a bs q c) :
    (p = q ∧ b = c) ∨ p + (h + b.size) ≤ q ∨ q + (h + c.size) ≤ p := by
  induction bs generalizing a with
  | nil => exact absurd hb at_nil
  | cons d bs ih =>
    rcases at_cons.mp hb with ⟨rfl, rfl⟩ | hb'
    · rcases at_cons.mp hc with ⟨rfl, rfl⟩ | hc'
      · exact .inl ⟨rfl, rfl⟩
      · exact .inr (.inl (at_bounds hc').1)
    rcases at_cons.mp hc with ⟨rfl, rfl⟩ | hc'
    · exact .inr (.inr (at_bounds hb').1)
    · exact ih hb' hc'

lemma at_unique (hh : 0 < h) (hb : At h a bs p b) (hc : At h a bs p c) : b = c := by
  rcases at_separate hb hc with ⟨-, he⟩ | he | he
  · exact he
  · omega
  · omega

lemma span_carve (slack n : ℕ) (b : Block) : span h (carve h slack n b) = h + b.size := by
  unfold carve
  split
  · simp
  simp only [span_cons, span_nil]
  omega

lemma carve_ne_nil (slack n : ℕ) (b : Block) : carve h slack n b ≠ [] := by
  unfold carve
  split
  · simp
  · simp

lemma length_le_span (bs : List Block) : bs.length * h ≤ span h bs := by
  induction bs with
  | nil => simp
  | cons b bs ih =>
    rw [List.length_cons, span_cons, Nat.succ_mul]
    omega

lemma coalesce_ne_nil (b : Block) (rest : List Block) : coalesce h b rest ≠ [] := by
  induction rest generalizing b with
  | nil => simp [coalesce]
  | cons c rest ih =>
    rw [coalesce]
    split
    · exact ih _
    · simp

lemma span_coalesce (b : Block) (rest : List Block) :
    span h (coalesce h b rest) = span h (b :: rest) := by
  induction rest generalizing b with
  | nil => rfl
  | cons c rest ih =>
    rw [coalesce]
    split
    · rw [ih]
      simp only [span_cons]
      omega
    · simp only [span_cons, ih]

variable {rest : List Block}

lemma at_coalesce_used (hc : c.free = false) :
    At h a (coalesce h b rest) p c ↔ At h a (b :: rest) p c := by
  induction rest generalizing a b with
  | nil => rfl
  | cons d rest ih =>
    rw [coalesce]
    split
    · rename_i hf
      rw [Bool.and_eq_true] at hf
      have hb : c ≠ b := by rintro rfl; simp [hc] at hf
      have hd : c ≠ d := by rintro rfl; simp [hc] at hf
      have hj : c ≠ ⟨b.size + (h + d.size), true⟩ := by rintro rfl; simp at hc
      rw [ih, at_cons, at_cons, at_cons]
      simp only [hb, hd, hj, and_false, false_or]
      rw [show a + (h + (b.size + (h + d.size))) = a + (h + b.size) + (h + d.size) by omega]
    · rw [at_cons, at_cons, ih]

lemma at_coalesce (hc : At h a (coalesce h b rest) p c) : ∃ d, At h a (b :: rest) p d := by
  induction rest generalizing a b with
  | nil => exact ⟨c, hc⟩
  | cons d rest ih =>
    rw [coalesce] at hc
    split at hc
    · obtain ⟨e, he⟩ := ih hc
      rcases at_cons.mp he with ⟨rfl, -⟩ | he'
      · exact ⟨b, at_cons.mpr (.inl ⟨rfl, rfl⟩)⟩
      refine ⟨e, at_cons.mpr (.inr (at_cons.mpr (.inr ?_)))⟩
      rwa [show a + (h + b.size) + (h + d.size) = a + (h + (b.size + (h + d.size))) by omega]
    rcases at_cons.mp hc with ⟨rfl, rfl⟩ | hc'
    · exact ⟨c, at_cons.mpr (.inl ⟨rfl, rfl⟩)⟩
    obtain ⟨e, he⟩ := ih hc'
    exact ⟨e, at_cons.mpr (.inr he)⟩

def coalesceAll (h : ℕ) : List Block → List Block
  | [] => []
  | b :: bs => coalesce h b bs

lemma span_coalesceAll (bs : List Block) : span h (coalesceAll h bs) = span h bs := by
  cases bs with
  | nil => rfl
  | cons b bs => exact span_coalesce b bs

lemma coalesceAll_ne_nil (hne : bs ≠ []) : coalesceAll h bs ≠ [] := by
  cases bs with
  | nil => exact absurd rfl hne
  | cons b bs => exact coalesce_ne_nil b bs

lemma at_coalesceAll_used (hc : c.free = false) :
    At h a (coalesceAll h bs) p c ↔ At h a bs p c := by
  cases bs with
  | nil => rfl
  | cons b bs => exact at_coalesce_used hc

lemma at_coalesceAll (hc : At h a (coalesceAll h bs) p c) : ∃ d, At h a bs p d := by
  cases bs with
  | nil => exact absurd hc at_nil
  | cons b bs => exact at_coalesce hc

lemma coalesce_all_free (hb : b.free = true) (hr : ∀ c ∈ rest, c.free = true) :
    coalesce h b rest = [⟨b.size + span h rest, true⟩] := by
  induction rest generalizing b with
  | nil =>
    obtain ⟨n, f⟩ := b
    subst hb
    rfl
  | cons c rest ih =>
    have hc : c.free = true := hr c (by simp)
    rw [coalesce, hb, hc, Bool.and_self, if_pos rfl,
      ih (b := ⟨b.size + (h + c.size), true⟩) rfl (fun d hd => hr d (by simp [hd]))]
    simp only [span_cons]
    rw [show b.size + (h + c.size) + span h rest = b.size + (h + c.size + span h rest) by omega]

lemma coalesceAll_all_free (hne : bs ≠ []) (hbs : ∀ c ∈ bs, c.free = true) :
    coalesceAll h bs = [⟨span h bs - h, true⟩] := by
  cases bs with
  | nil => exact absurd rfl hne
  | cons b bs =>
    rw [coalesceAll, coalesce_all_free (hbs b (by simp)) (fun c hc => hbs c (by simp [hc]))]
    rw [span_cons, show h + b.size + span h bs - h = b.size + span h bs by omega]

end BlockList
end Elitra
