import Mathlib.Data.List.Nodup

namespace Elitra.LinkedList
open List

variable {α : Type}

/-- Following `next` from `p` runs through the nodes `l` and ends with a null link. -/
def Linked (next : α → Option α) : Option α → List α → Prop
  | p, [] => p = none
  | p, a :: l => p = some a ∧ Linked next (next a) l

variable {next next' : α → Option α} {p : Option α} {l : List α} {a b : α}

lemma linked_none (h : Linked next none l) : l = [] := by
  cases l with
  | nil => rfl
  | cons a l => exact absurd h.1 (by simp)

lemma linked_some (h : Linked next (some a) l) : ∃ l', l = a :: l' ∧ Linked next (next a) l' := by
  cases l with
  | nil => exact absurd h (by simp [Linked])
  | cons b l' =>
    obtain ⟨hab, hl⟩ := h
    cases hab
    exact ⟨l', rfl, hl⟩

lemma Linked.unique {l l' : List α} (h : Linked next p l) (h' : Linked next p l') : l = l' := by
  induction l generalizing p l' with
  | nil =>
    rw [show p = none from h] at h'
    exact (linked_none h').symm
  | cons a l ih =>
    obtain ⟨rfl, hl⟩ := h
    obtain ⟨l'', rfl, hl'⟩ := linked_some h'
    rw [ih hl hl']

lemma Linked.append {l1 l2 : List α} (h : Linked next p (l1 ++ l2)) :
    ∃ q, Linked next q l2 := by
  induction l1 generalizing p with
  | nil => exact ⟨p, h⟩
  | cons a l ih => exact ih h.2

lemma Linked.nodup (h : Linked next p l) : l.Nodup := by
  induction l generalizing p with
  | nil => exact nodup_nil
  | cons a l ih =>
    refine nodup_cons.mpr ⟨fun ha => ?_, ih h.2⟩
    -- From a second visit on, the walk would be as long as from the first.
    obtain ⟨l1, l2, rfl⟩ := append_of_mem ha
    obtain ⟨q, hq⟩ := h.2.append
    have hs : l1 ++ a :: l2 = l2 := h.2.unique hq.2
    have hlen := congrArg length hs
    rw [length_append, length_cons] at hlen
    omega

lemma Linked.congr (h : Linked next p l) (hn : ∀ a ∈ l, next' a = next a) :
    Linked next' p l := by
  induction l generalizing p with
  | nil => exact h
  | cons a l ih =>
    refine ⟨h.1, ?_⟩
    rw [hn a (mem_cons_self ..)]
    exact ih h.2 fun b hb => hn b (mem_cons_of_mem _ hb)

/-- The nodes of a linked list, if it ends within that many nodes. -/
def walkList (next : α → Option α) : ℕ → Option α → Option (List α)
  | _, none => some []
  | 0, some _ => none
  | fuel + 1, some t => (walkList next fuel (next t)).map (t :: ·)

lemma walkList_linked {fuel : ℕ} (h : walkList next fuel p = some l) : Linked next p l := by
  induction fuel generalizing p l with
  | zero =>
    cases p with
    | none => cases h; rfl
    | some a => cases h
  | succ fuel ih =>
    cases p with
    | none => cases h; rfl
    | some a =>
      obtain ⟨l', hl', rfl⟩ := Option.map_eq_some_iff.mp h
      exact ⟨rfl, ih hl'⟩

variable [DecidableEq α]

lemma Linked.update (h : Linked next p l) (ha : a ∉ l) (x : Option α) :
    Linked (Function.update next a x) p l :=
  h.congr fun b hb => Function.update_of_ne (fun hba : b = a => ha (hba ▸ hb)) x next

lemma Linked.snoc (h : Linked next p l) (hb : b ∉ l) (hl : l.getLast? = some a)
    (hn : next b = none) : Linked (Function.update next a (some b)) p (l ++ [b]) := by
  induction l generalizing p with
  | nil => exact absurd hl (by simp)
  | cons c l ih =>
    have hbl : b ∉ l := fun hm => hb (mem_cons_of_mem _ hm)
    have hcb : b ≠ c := fun hm => hb (hm ▸ mem_cons_self ..)
    refine ⟨h.1, ?_⟩
    cases l with
    | nil =>
      obtain rfl : c = a := by simpa using hl
      rw [Function.update_self]
      exact ⟨rfl, by rw [Function.update_of_ne hcb, hn]; rfl⟩
    | cons d l =>
      have hc : c ∉ d :: l := (nodup_cons.mp h.nodup).1
      have hla : (d :: l).getLast? = some a := by simpa using hl
      have hca : c ≠ a := fun hm => hc (hm ▸ mem_of_getLast? hla)
      rw [Function.update_of_ne hca]
      exact ih h.2 hbl hla

/-- The list without one of its nodes: the node before it, or the start, takes over its link. -/
lemma Linked.cut_first (h : Linked next p (a :: l)) (x : Option α) :
    Linked (Function.update next a x) (next a) l :=
  h.2.update (nodup_cons.mp h.nodup).1 x

lemma Linked.cut {l1 l2 : List α} {q : α} (h : Linked next p (l1 ++ q :: a :: l2)) :
    Linked (Function.update next q (next a)) p (l1 ++ q :: l2) := by
  induction l1 generalizing p with
  | nil =>
    have hq : q ∉ a :: l2 := (nodup_cons.mp h.nodup).1
    refine ⟨h.1, ?_⟩
    rw [Function.update_self]
    exact h.2.2.update (fun hm => hq (mem_cons_of_mem _ hm)) _
  | cons b l1 ih =>
    have hb : b ∉ l1 ++ q :: a :: l2 := (nodup_cons.mp h.nodup).1
    have hbq : b ≠ q := fun hm => hb (hm ▸ mem_append_right _ (mem_cons_self ..))
    refine ⟨h.1, ?_⟩
    rw [Function.update_of_ne hbq]
    exact ih h.2

end Elitra.LinkedList
