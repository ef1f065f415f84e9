import Mathlib.Tactic.Common

namespace Elitra.StateRun

variable {σ α β : Type}

/-- A program; `none` is a run that does not return. -/
abbrev Prog (σ α : Type) := StateT σ Option α

lemma bind_apply (m : Prog σ α) (f : α → Prog σ β) (s : σ) :
    (m >>= f) s = (m s).bind fun p => f p.1 p.2 := by
  cases h : m s <;> simp [bind, StateT.bind, h]

variable {f : α → Prog σ β} {m : Prog σ α}

lemma bind_eq_some {s s' : σ} {b : β} :
    (m >>= f) s = some (b, s') ↔ ∃ a mid, m s = some (a, mid) ∧ f a mid = some (b, s') := by
  rw [bind_apply, Option.bind_eq_some_iff]
  constructor
  · rintro ⟨⟨a, mid⟩, hm, hf⟩
    exact ⟨a, mid, hm, hf⟩
  rintro ⟨a, mid, hm, hf⟩
  exact ⟨(a, mid), hm, hf⟩

/-- Every run from a state with `P` that returns ends in a state with `P`. -/
def Keeps (P : σ → Prop) (m : Prog σ α) : Prop := ∀ s a s', P s → m s = some (a, s') → P s'

variable {P : σ → Prop}

lemma Keeps.pure (a : α) : Keeps P (Pure.pure a : Prog σ α) := by
  intro s b s' hs h
  cases h
  exact hs

lemma Keeps.fail : Keeps P (failure : Prog σ α) := by
  intro s b s' _ h
  cases h

lemma Keeps.bind (hm : Keeps P m) (hf : ∀ a, Keeps P (f a)) : Keeps P (m >>= f) := by
  intro s b s' hs h
  obtain ⟨a, mid, hfi, hr⟩ := bind_eq_some.mp h
  exact hf a mid b s' (hm s a mid hs hfi) hr

lemma Keeps.get_bind {f : σ → Prog σ β} (hf : ∀ s, Keeps P (f s)) : Keeps P (get >>= f) := by
  apply Keeps.bind _ hf
  intro s a s' hs h
  cases h
  exact hs

lemma Keeps.modify {f : σ → σ} (hf : ∀ s, P s → P (f s)) : Keeps P (modify f : Prog σ PUnit) := by
  intro s a s' hs h
  cases h
  exact hf s hs

lemma Keeps.ite {c : Prop} [Decidable c] {n : Prog σ α} (hm : c → Keeps P m)
    (hn : ¬ c → Keeps P n) : Keeps P (if c then m else n) := by
  split
  · exact hm ‹_›
  · exact hn ‹_›

end Elitra.StateRun
