import Mathlib.Data.List.GetD
import Mathlib.Data.List.TakeWhile
import Elitra.Fat32

namespace Elitra.Fat32
open List

/-- `none` is a panic. -/
def nameMatches (entry : List Byte) (name : Name) : Option Bool :=
  (matchName name).map fun sfn => entry.take 11 = sfn

variable {name : Name} {sfn suf tail : List Byte} {n i si ei : ℕ} {c : Byte}

/-- The bytes of `l` in upper case, written from `i` on. -/
def overwrite (sfn : List Byte) (i : ℕ) (l : List Byte) : List Byte :=
  sfn.take i ++ l.map upper ++ sfn.drop (i + l.length)

/-- An entry matches a name exactly when it is the one made for that name, whatever stands behind
the name. -/
def MatchesOwn (name : Name) : Prop :=
  ∀ after entry, nameMatches entry { name with after := after } =
    some (entry.take 11 = krustFat32NameToSfn name : Bool)

lemma MatchesOwn.matchName (h : MatchesOwn name) (after : ℕ → Byte) :
    matchName { name with after := after } = some (krustFat32NameToSfn name) := by
  have hown := h after (krustFat32NameToSfn name)
  have hlen : (krustFat32NameToSfn name).length = 11 := by
    unfold krustFat32NameToSfn
    simp only [length_append, length_map, length_take, length_replicate]
    omega
  rw [nameMatches, take_of_length_le hlen.le, Option.map_eq_some_iff] at hown
  obtain ⟨sfn, hs, heq⟩ := hown
  rw [hs, of_decide_eq_true (heq.trans (decide_eq_true rfl))]

end Elitra.Fat32
