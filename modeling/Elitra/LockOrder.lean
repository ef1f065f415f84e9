import Mathlib.Data.Finset.Max
import Mathlib.Data.Fintype.Basic

namespace Elitra.LockOrder
open Function List

variable {L T : Type}

inductive Act (L : Type) where
  | acquire (l : L)
  | release (l : L)

/-- The locks that a thread holds and what it has left to do. -/
structure Thread (L : Type) where
  held : List L
  rest : List (Act L)

/-- A guard that is dropped at the end of its scope. -/
def locked (l : L) (body : List (Act L)) : List (Act L) := .acquire l :: (body ++ [.release l])

def Waits (s : T → Thread L) (t : T) (l : L) : Prop := ∃ p, (s t).rest = .acquire l :: p

/-- Threads that all wait for locks which threads among them hold. -/
def Deadlocked (s : T → Thread L) (S : Finset T) : Prop :=
  S.Nonempty ∧ ∀ t ∈ S, ∃ l, Waits s t l ∧ ∃ t' ∈ S, l ∈ (s t').held

variable {t : T} {s : T → Thread L}

section Order

variable [DecidableEq L]

/-- From here on locks are taken upwards in `rank`, only those held are released, and in the end none
is held. -/
def Ordered (rank : L → ℕ) : List L → List (Act L) → Prop
  | held, [] => held = []
  | held, .acquire l :: p => (∀ m ∈ held, rank m < rank l) ∧ Ordered rank (l :: held) p
  | held, .release l :: p => l ∈ held ∧ Ordered rank (held.erase l) p

/-- A piece of a program that keeps to the order when `held` is held, and leaves that as it is. -/
def Neutral (rank : L → ℕ) (held : List L) (p : List (Act L)) : Prop :=
  ∀ q, Ordered rank held q → Ordered rank held (p ++ q)

variable {rank : L → ℕ} {held : List L} {p q : List (Act L)} {l : L}

lemma neutral_nil : Neutral rank held [] := fun _ h => h

lemma Neutral.append (hp : Neutral rank held p) (hq : Neutral rank held q) :
    Neutral rank held (p ++ q) := by
  intro r hr
  rw [append_assoc]
  exact hp _ (hq _ hr)

lemma neutral_flatten {ps : List (List (Act L))} (h : ∀ p ∈ ps, Neutral rank held p) :
    Neutral rank held ps.flatten := by
  induction ps with
  | nil => exact neutral_nil
  | cons p ps ih =>
    rw [flatten_cons]
    exact (h p (mem_cons_self ..)).append (ih fun q hq => h q (mem_cons_of_mem _ hq))

lemma neutral_locked (hl : ∀ m ∈ held, rank m < rank l) (hp : Neutral rank (l :: held) p) :
    Neutral rank held (locked l p) := by
  intro q hq
  unfold locked
  rw [cons_append, append_assoc]
  refine ⟨hl, hp _ ⟨mem_cons_self .., ?_⟩⟩
  rw [erase_cons_head]
  exact hq

lemma Neutral.ordered (h : Neutral rank [] p) : Ordered rank [] p := by
  have hend := h [] rfl
  rwa [append_nil] at hend

/-- The rank of the lock that a program is about to take. -/
def want (rank : L → ℕ) : List (Act L) → ℕ
  | .acquire l :: _ => rank l
  | _ => 0

lemma Ordered.lt_of_waits (h : Ordered rank (s t).held (s t).rest)
    (hw : Waits s t l) : ∀ m ∈ (s t).held, rank m < rank l := by
  obtain ⟨p, hp⟩ := hw
  rw [hp] at h
  exact h.1

/-- Among threads in a circle, the one that waits for the highest lock would wait for a thread that
waits for a higher one. -/
lemma not_deadlocked (h : ∀ t, Ordered rank (s t).held (s t).rest)
    (S : Finset T) : ¬ Deadlocked s S := by
  rintro ⟨hne, hall⟩
  obtain ⟨t, ht, hmax⟩ := S.exists_max_image (fun t => want rank (s t).rest) hne
  obtain ⟨l, ⟨p, hp⟩, t', ht', hh⟩ := hall t ht
  obtain ⟨l', hw', -⟩ := hall t' ht'
  have hlt := (h t').lt_of_waits hw' l hh
  have hle := hmax t' ht'
  obtain ⟨p', hp'⟩ := hw'
  rw [hp, hp'] at hle
  exact absurd hlt (Nat.not_lt.mpr hle)

end Order

section Run

variable [DecidableEq L] [DecidableEq T] [Fintype T]

/-- A thread takes its next step; a lock can be taken if no thread holds it. -/
def step (s : T → Thread L) (t : T) : Option (T → Thread L) :=
  match (s t).rest with
  | [] => none
  | .acquire l :: p =>
    if ∀ t', l ∉ (s t').held then some (update s t ⟨l :: (s t).held, p⟩) else none
  | .release l :: p => some (update s t ⟨(s t).held.erase l, p⟩)

/-- The states that any interleaving of the threads leads to. -/
inductive Reached (start : T → Thread L) : (T → Thread L) → Prop
  | start : Reached start start
  | step {s s' : T → Thread L} (t : T) : Reached start s → step s t = some s' → Reached start s'

/-- The state after the threads took steps in the order of a list. -/
def schedule (s : T → Thread L) : List T → Option (T → Thread L)
  | [] => some s
  | t :: ts => (step s t).bind fun s => schedule s ts

lemma Reached.schedule {start s' : T → Thread L} (h : Reached start s) (ts : List T)
    (hs : schedule s ts = some s') : Reached start s' := by
  induction ts generalizing s with
  | nil =>
    cases hs
    exact h
  | cons t ts ih =>
    obtain ⟨s1, hst, hr⟩ := Option.bind_eq_some_iff.mp hs
    exact ih (h.step t hst) hr

variable {rank : L → ℕ} {start s s' : T → Thread L}

lemma ordered_step (h : ∀ t, Ordered rank (s t).held (s t).rest)
    (hs : step s t = some s') : ∀ t, Ordered rank (s' t).held (s' t).rest := by
  have hu : ∀ th : Thread L, Ordered rank th.held th.rest →
      ∀ t', Ordered rank (update s t th t').held (update s t th t').rest := by
    intro th hth t'
    by_cases heq : t' = t
    · rw [heq, update_self]
      exact hth
    rw [update_of_ne heq]
    exact h t'
  have ht := h t
  unfold LockOrder.step at hs
  split at hs
  · cases hs
  · rename_i l p hr
    rw [hr] at ht
    split at hs
    · cases hs
      exact hu _ ht.2
    · cases hs
  rename_i l p hr
  rw [hr] at ht
  cases hs
  exact hu _ ht.2

lemma Reached.ordered (h : Reached start s)
    (hst : ∀ t, Ordered rank (start t).held (start t).rest) :
    ∀ t, Ordered rank (s t).held (s t).rest := by
  induction h with
  | start => exact hst
  | step t _ hs ih => exact ordered_step ih hs

lemma exists_step (h : ∀ t, Ordered rank (s t).held (s t).rest) (hr : ∃ t, (s t).rest ≠ []) :
    ∃ t, (step s t).isSome := by
  by_contra hn
  push Not at hn
  apply not_deadlocked h (Finset.univ.filter fun t => (s t).rest.isEmpty = false)
  have hmem : ∀ t, t ∈ Finset.univ.filter (fun t => (s t).rest.isEmpty = false) ↔
      (s t).rest ≠ [] := by
    intro t
    rw [Finset.mem_filter, isEmpty_eq_false_iff]
    exact and_iff_right (Finset.mem_univ t)
  obtain ⟨t0, ht0⟩ := hr
  refine ⟨⟨t0, (hmem t0).mpr ht0⟩, fun t ht => ?_⟩
  have hs := hn t
  have hne := (hmem t).mp ht
  unfold LockOrder.step at hs
  split at hs
  · rename_i hnil
    exact absurd hnil hne
  · rename_i l p hp
    split at hs
    · exact absurd rfl hs
    rename_i hh
    push Not at hh
    obtain ⟨t', ht'⟩ := hh
    refine ⟨l, ⟨p, hp⟩, t', (hmem t').mpr fun hnil => ?_, ht'⟩
    -- a thread that is done holds nothing
    have hd := h t'
    rw [hnil] at hd
    rw [show (s t').held = [] from hd] at ht'
    cases ht'
  · exact absurd rfl hs

end Run

end Elitra.LockOrder
