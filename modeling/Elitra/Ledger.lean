import Mathlib.Data.List.Nodup

namespace Elitra.Ledger
open Function List

variable {ι : Type*} {owner : ι → Option ℕ} {fresh : ℕ} {released : List ℕ}

/-- Every token handed out so far, `1` up to `fresh`, has one owner or was released once. -/
structure Balanced (owner : ι → Option ℕ) (fresh : ℕ) (released : List ℕ) : Prop where
  pos : 0 < fresh
  nodup : released.Nodup
  past : ∀ x ∈ released, 0 < x ∧ x < fresh
  live : ∀ i x, owner i = some x → 0 < x ∧ x < fresh ∧ x ∉ released
  apart : ∀ i j x, owner i = some x → owner j = some x → i = j
  covered : ∀ x, 0 < x → x < fresh → x ∈ released ∨ ∃ i, owner i = some x

lemma balanced_empty : Balanced (fun _ : ι => none) 1 [] :=
  ⟨Nat.one_pos, nodup_nil, fun _ h => (by cases h), fun _ _ h => (by cases h),
    fun _ _ _ h => (by cases h), fun x hpos hlt => absurd hlt (by omega)⟩

variable [DecidableEq ι]

lemma Balanced.grant (h : Balanced owner fresh released) {i : ι} (hi : owner i = none) :
    Balanced (update owner i (some fresh)) (fresh + 1) released := by
  have hnew : ∀ j, owner j ≠ some fresh := fun j hj => absurd (h.live j fresh hj).2.1 (by omega)
  refine ⟨by omega, h.nodup, fun x hx => ?_, fun j x hj => ?_, fun j k x hj hk => ?_,
    fun x hpos hlt => ?_⟩
  · obtain ⟨hpos, hlt⟩ := h.past x hx
    omega
  · by_cases hji : j = i
    · rw [hji, update_self] at hj
      obtain rfl : fresh = x := Option.some.inj hj
      exact ⟨h.pos, by omega, fun hx => absurd (h.past fresh hx).2 (by omega)⟩
    rw [update_of_ne hji] at hj
    obtain ⟨hpos, hlt, hout⟩ := h.live j x hj
    exact ⟨hpos, by omega, hout⟩
  · by_cases hji : j = i <;> by_cases hki : k = i
    · rw [hji, hki]
    · rw [hji, update_self] at hj
      rw [update_of_ne hki, ← hj] at hk
      exact absurd hk (hnew k)
    · rw [hki, update_self] at hk
      rw [update_of_ne hji, ← hk] at hj
      exact absurd hj (hnew j)
    rw [update_of_ne hji] at hj
    rw [update_of_ne hki] at hk
    exact h.apart j k x hj hk
  by_cases hx : x = fresh
  · exact .inr ⟨i, by rw [hx, update_self]⟩
  rcases h.covered x hpos (by omega) with hout | ⟨j, hj⟩
  · exact .inl hout
  have hji : j ≠ i := fun hji => by
    rw [hji, hi] at hj
    cases hj
  exact .inr ⟨j, by rw [update_of_ne hji]; exact hj⟩

lemma Balanced.drop (h : Balanced owner fresh released) (i : ι) :
    Balanced (update owner i none) fresh ((owner i).toList ++ released) := by
  cases hi : owner i with
  | none =>
    rw [← hi, update_eq_self, hi]
    exact h
  | some y =>
    obtain ⟨hpos, hlt, hout⟩ := h.live i y hi
    refine ⟨h.pos, nodup_cons.mpr ⟨hout, h.nodup⟩, fun x hx => ?_, fun j x hj => ?_,
      fun j k x hj hk => ?_, fun x hxp hxlt => ?_⟩
    · rcases mem_cons.mp hx with rfl | hx
      · exact ⟨hpos, hlt⟩
      · exact h.past x hx
    · have hji : j ≠ i := fun hji => by
        rw [hji, update_self] at hj
        cases hj
      rw [update_of_ne hji] at hj
      obtain ⟨hxp, hxlt, hxo⟩ := h.live j x hj
      refine ⟨hxp, hxlt, fun hx => ?_⟩
      rcases mem_cons.mp hx with rfl | hx
      · exact hji (h.apart j i x hj hi)
      · exact hxo hx
    · have hs : ∀ l, update owner i none l = some x → owner l = some x := fun l hl => by
        by_cases hli : l = i
        · rw [hli, update_self] at hl
          cases hl
        · rwa [update_of_ne hli] at hl
      exact h.apart j k x (hs j hj) (hs k hk)
    rcases h.covered x hxp hxlt with hx | ⟨j, hj⟩
    · exact .inl (mem_cons_of_mem _ hx)
    by_cases hji : j = i
    · rw [hji, hi] at hj
      obtain rfl : y = x := Option.some.inj hj
      exact .inl (mem_cons_self ..)
    · exact .inr ⟨j, by rw [update_of_ne hji]; exact hj⟩

end Elitra.Ledger
