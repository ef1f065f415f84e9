import Mathlib.Data.Finset.Card

namespace Elitra.Sharing
open Finset

/-- How a slot holds its object: not at all, alone and for writing, as one of the counted shares,
or read-only without a count. -/
inductive View (β : Type) where
  | none
  | own (f : β)
  | share (f : β)
  | fixed (f : β)
  deriving DecidableEq

variable {α β : Type}

def View.object? : View β → Option β
  | .none => Option.none
  | .own f => some f
  | .share f => some f
  | .fixed f => some f

/-- What a copy on write leaves of a view on both sides. -/
def View.forked : View β → View β
  | .own f => .share f
  | x => x

section View

variable {slots src : Finset α} {twin : α → α} {view view' : α → View β} {x : α} {f : β}

lemma object?_forked (v : View β) : v.forked.object? = v.object? := by
  cases v <;> rfl

lemma forked_ne_own (v : View β) (f : β) : v.forked ≠ .own f := by
  cases v <;> simp [View.forked]

lemma forked_eq_share {v : View β} : v.forked = .share f ↔ v = .own f ∨ v = .share f := by
  cases v <;> simp [View.forked]

/-- A fork copies the slots `src`, which hold no shares yet, to their twins, which are empty. -/
structure Forks (slots src : Finset α) (twin : α → α) (view view' : α → View β) : Prop where
  sub : src ⊆ slots
  twin_mem : ∀ s ∈ src, twin s ∈ slots
  twin_new : ∀ s ∈ src, twin s ∉ src
  unshared : ∀ s ∈ src, ∀ f, view s ≠ .share f
  empty : ∀ s ∈ src, view (twin s) = .none
  source : ∀ s ∈ src, view' s = (view s).forked
  target : ∀ s ∈ src, view' (twin s) = (view s).forked
  rest : ∀ x ∈ slots, x ∉ src → (∀ s ∈ src, twin s ≠ x) → view' x = view x

lemma Forks.origin (h : Forks slots src twin view view') (hx : x ∈ slots) :
    (∃ s ∈ src, (x = s ∨ x = twin s) ∧ view' x = (view s).forked) ∨
      (x ∉ src ∧ view' x = view x) := by
  by_cases hsrc : x ∈ src
  · exact .inl ⟨x, hsrc, .inl rfl, h.source x hsrc⟩
  by_cases ht : ∃ s ∈ src, twin s = x
  · obtain ⟨s, hs, rfl⟩ := ht
    exact .inl ⟨s, hs, .inr rfl, h.target s hs⟩
  · refine .inr ⟨hsrc, h.rest x hx hsrc fun s hs he => ht ⟨s, hs, he⟩⟩

end View

variable [DecidableEq β]

def sharers (slots : Finset α) (view : α → View β) (f : β) : Finset α :=
  slots.filter fun x => view x = .share f

/-- Every count is one less than the number of shares, an owner is alone, and shares and other
views of one object do not mix. -/
structure Shares (slots : Finset α) (view : α → View β) (count : β → ℕ) : Prop where
  counted : ∀ f, count f = (sharers slots view f).card - 1
  alone : ∀ x ∈ slots, ∀ y ∈ slots, ∀ f, view x = .own f → (view y).object? = some f → x = y
  unmixed : ∀ x ∈ slots, ∀ y ∈ slots, ∀ f, view x = .share f → (view y).object? = some f →
    view y = .share f

section Lemmas

variable {slots slots' : Finset α} {view view' : α → View β} {count count' : β → ℕ} {x : α}
  {f g : β}

lemma mem_sharers : x ∈ sharers slots view f ↔ x ∈ slots ∧ view x = .share f := mem_filter

lemma sharers_congr (h : ∀ x ∈ slots, view' x = .share f ↔ view x = .share f) :
    sharers slots view' f = sharers slots view f := by
  ext x
  rw [mem_sharers, mem_sharers]
  exact and_congr_right (h x)

lemma Shares.no_sharers (h : Shares slots view count) (hx : x ∈ slots) (hv : view x = .own f) :
    sharers slots view f = ∅ := by
  rw [eq_empty_iff_forall_notMem]
  intro y hy
  obtain ⟨hy, hs⟩ := mem_sharers.mp hy
  obtain rfl := h.alone x hx y hy f hv (by rw [hs]; rfl)
  simp [hv] at hs

lemma Shares.extend (h : Shares slots view count) (hsub : slots ⊆ slots')
    (hold : ∀ x ∈ slots, view' x = view x) (hnew : ∀ x ∈ slots', x ∉ slots → view' x = .none) :
    Shares slots' view' count := by
  have hmem : ∀ x ∈ slots', ∀ f, (view' x).object? = some f → x ∈ slots ∧ view' x = view x := by
    intro x hx f hf
    by_cases hxs : x ∈ slots
    · exact ⟨hxs, hold x hxs⟩
    rw [hnew x hx hxs] at hf
    simp [View.object?] at hf
  refine ⟨fun f => ?_, ?_, ?_⟩
  · rw [h.counted f]
    congr 2
    ext x
    rw [mem_sharers, mem_sharers]
    constructor
    · rintro ⟨hx, hs⟩
      exact ⟨hsub hx, by rw [hold x hx, hs]⟩
    rintro ⟨hx, hs⟩
    obtain ⟨hx', he⟩ := hmem x hx f (by rw [hs]; rfl)
    exact ⟨hx', he ▸ hs⟩
  · intro x hx y hy f hv hf
    obtain ⟨hx', he⟩ := hmem x hx f (by rw [hv]; rfl)
    obtain ⟨hy', he'⟩ := hmem y hy f hf
    exact h.alone x hx' y hy' f (he ▸ hv) (he' ▸ hf)
  intro x hx y hy f hv hf
  obtain ⟨hx', he⟩ := hmem x hx f (by rw [hv]; rfl)
  obtain ⟨hy', he'⟩ := hmem y hy f hf
  rw [he']
  exact h.unmixed x hx' y hy' f (he ▸ hv) (he' ▸ hf)

section Change

variable (hx : x ∈ slots) (hother : ∀ y ∈ slots, y ≠ x → view' y = view y)
include hx hother

lemma Shares.adopt (h : Shares slots view count) (hv : view x = .share f) (hl : count f = 0)
    (hown : view' x = .own f) : Shares slots view' count := by
  have ho : sharers slots view f = {x} := by
    have hle : (sharers slots view f).card ≤ 1 := by
      have := h.counted f
      omega
    refine eq_singleton_iff_unique_mem.mpr ⟨mem_sharers.mpr ⟨hx, hv⟩, fun y hy => ?_⟩
    exact card_le_one.mp hle y hy x (mem_sharers.mpr ⟨hx, hv⟩)
  have hobj : ∀ y ∈ slots, (view' y).object? = (view y).object? := by
    intro y hy
    by_cases hyx : y = x
    · rw [hyx, hown, hv]
      rfl
    · rw [hother y hy hyx]
  have hso : ∀ y ∈ slots, (view y).object? = some f → y = x := by
    intro y hy hf
    have hy' := mem_sharers.mpr ⟨hy, h.unmixed x hx y hy f hv hf⟩
    rwa [ho, mem_singleton] at hy'
  refine ⟨fun g => ?_, ?_, ?_⟩
  · by_cases hg : g = f
    · subst hg
      rw [hl, card_eq_zero.mpr]
      rw [eq_empty_iff_forall_notMem]
      intro y hy
      obtain ⟨hy, hs⟩ := mem_sharers.mp hy
      obtain rfl := hso y hy (by rw [← hobj y hy, hs]; rfl)
      simp [hown] at hs
    rw [h.counted g, sharers_congr]
    intro y hy
    by_cases hyx : y = x
    · rw [hyx, hown, hv]
      simp [Ne.symm hg]
    · rw [hother y hy hyx]
  · intro y hy z hz g hvy hz'
    rw [hobj z hz] at hz'
    by_cases hyx : y = x
    · subst hyx
      rw [hown, View.own.injEq] at hvy
      subst hvy
      exact (hso z hz hz').symm
    rw [hother y hy hyx] at hvy
    exact h.alone y hy z hz g hvy hz'
  intro y hy z hz g hvy hz'
  rw [hobj z hz] at hz'
  have hyx : y ≠ x := by
    rintro rfl
    simp [hown] at hvy
  rw [hother y hy hyx] at hvy
  have hzg := h.unmixed y hy z hz g hvy hz'
  have hzx : z ≠ x := by
    rintro rfl
    rw [hv, View.share.injEq] at hzg
    subst hzg
    exact hyx (hso y hy (by rw [hvy]; rfl))
  rw [hother z hz hzx]
  exact hzg

end Change

variable [DecidableEq α]

lemma Shares.drop (h : Shares slots view count) (hsub : slots' ⊆ slots)
    (hc : ∀ f, count' f = count f - (sharers (slots \ slots') view f).card) :
    Shares slots' view count' := by
  refine ⟨fun f => ?_, fun x hx y hy => h.alone x (hsub hx) y (hsub hy),
    fun x hx y hy => h.unmixed x (hsub hx) y (hsub hy)⟩
  have hca : (sharers slots view f).card =
      (sharers (slots \ slots') view f).card + (sharers slots' view f).card := by
    unfold sharers
    rw [← card_union_of_disjoint, ← filter_union, sdiff_union_of_subset hsub]
    exact disjoint_filter_filter sdiff_disjoint
  rw [hc f, h.counted f, hca]
  omega

section Move

variable (hx : x ∈ slots) (hother : ∀ y ∈ slots, y ≠ x → view' y = view y)
include hx hother

lemma Shares.move (h : Shares slots view count) (hv : view x = .share f)
    (hf : ∀ y ∈ slots, (view y).object? ≠ some g) (hown : view' x = .own g)
    (hc : ∀ k, count' k = if k = f then count k - 1 else count k) :
    Shares slots view' count' := by
  have hgf : g ≠ f := by
    rintro rfl
    exact hf x hx (by rw [hv]; rfl)
  have hnew : ∀ y ∈ slots, (view' y).object? = some g → y = x := by
    intro y hy hyg
    by_contra hyx
    rw [hother y hy hyx] at hyg
    exact hf y hy hyg
  refine ⟨fun k => ?_, ?_, ?_⟩
  · by_cases hk : k = f
    · subst hk
      have he : sharers slots view' k = (sharers slots view k).erase x := by
        ext y
        rw [mem_erase, mem_sharers, mem_sharers]
        by_cases hyx : y = x
        · simp [hyx, hown]
        simp only [ne_eq, hyx, not_false_eq_true, true_and]
        exact and_congr_right fun hy => by rw [hother y hy hyx]
      rw [hc, if_pos rfl, he, card_erase_of_mem (mem_sharers.mpr ⟨hx, hv⟩), h.counted]
    rw [hc, if_neg hk, h.counted, sharers_congr]
    intro y hy
    by_cases hyx : y = x
    · rw [hyx, hown, hv]
      simp [Ne.symm hk]
    · rw [hother y hy hyx]
  · intro y hy z hz k hvy hzk
    by_cases hyx : y = x
    · subst hyx
      rw [hown, View.own.injEq] at hvy
      subst hvy
      exact (hnew z hz hzk).symm
    rw [hother y hy hyx] at hvy
    have hzx : z ≠ x := by
      rintro rfl
      rw [hown] at hzk
      obtain rfl : g = k := by simpa [View.object?] using hzk
      exact hf y hy (by rw [hvy]; rfl)
    rw [hother z hz hzx] at hzk
    exact h.alone y hy z hz k hvy hzk
  intro y hy z hz k hvy hzk
  have hyx : y ≠ x := by
    rintro rfl
    simp [hown] at hvy
  rw [hother y hy hyx] at hvy
  have hzx : z ≠ x := by
    rintro rfl
    rw [hown] at hzk
    obtain rfl : g = k := by simpa [View.object?] using hzk
    exact hf y hy (by rw [hvy]; rfl)
  rw [hother z hz hzx] at hzk ⊢
  exact h.unmixed y hy z hz k hvy hzk

end Move

lemma Shares.fork {src : Finset α} {twin : α → α} (h : Shares slots view count)
    (hF : Forks slots src twin view view')
    (hco : ∀ f, (∀ s ∈ src, view s ≠ .own f) → count' f = count f)
    (hco' : ∀ s ∈ src, ∀ f, view s = .own f → count' f = count f + 1) :
    Shares slots view' count' := by
  have hobj : ∀ x ∈ slots, ∀ f, (view' x).object? = some f →
      ∃ y ∈ slots, (view y).object? = some f ∧
        ((y ∈ src ∧ (x = y ∨ x = twin y) ∧ view' x = (view y).forked) ∨
          (y ∉ src ∧ x = y ∧ view' x = view y)) := by
    intro x hx f hf
    rcases hF.origin hx with ⟨s, hs, hxs, hv⟩ | ⟨hs, hv⟩
    · exact ⟨s, hF.sub hs, by rw [← object?_forked, ← hv, hf], .inl ⟨hs, hxs, hv⟩⟩
    · exact ⟨x, hx, by rw [← hv, hf], .inr ⟨hs, rfl, hv⟩⟩
  refine ⟨fun f => ?_, ?_, ?_⟩
  · by_cases hown : ∃ s ∈ src, view s = .own f
    · obtain ⟨s, hs, hv⟩ := hown
      have hp : sharers slots view' f = {s, twin s} := by
        ext x
        rw [mem_sharers, mem_insert, mem_singleton]
        constructor
        · rintro ⟨hx, hxf⟩
          obtain ⟨y, hy, hyf, hc⟩ := hobj x hx f (by rw [hxf]; rfl)
          obtain rfl := h.alone s (hF.sub hs) y hy f hv hyf
          rcases hc with ⟨-, hxy, -⟩ | ⟨hno, -⟩
          · exact hxy
          · exact absurd hs hno
        rintro (rfl | rfl)
        · exact ⟨hF.sub hs, by rw [hF.source x hs, hv]; rfl⟩
        · exact ⟨hF.twin_mem s hs, by rw [hF.target s hs, hv]; rfl⟩
      have hne : s ≠ twin s := fun he => hF.twin_new s hs (he ▸ hs)
      rw [hco' s hs f hv, h.counted f, h.no_sharers (hF.sub hs) hv, hp, card_pair hne]
      rfl
    push Not at hown
    have hsa : sharers slots view' f = sharers slots view f := by
      refine sharers_congr fun x hx => ?_
      rcases hF.origin hx with ⟨s, hs, hxs, hv⟩ | ⟨hs, hv⟩
      · have hno : view' x ≠ .share f := by
          rw [hv]
          intro he
          rcases forked_eq_share.mp he with he | he
          · exact hown s hs he
          · exact hF.unshared s hs f he
        have hno' : view x ≠ .share f := by
          rcases hxs with rfl | rfl
          · exact hF.unshared x hs f
          rw [hF.empty s hs]
          simp
        exact iff_of_false hno hno'
      · rw [hv]
    rw [hco f hown, h.counted f, hsa]
  · intro x hx y hy f hvx hyf
    obtain ⟨x', hx', hxf, hc⟩ := hobj x hx f (by rw [hvx]; rfl)
    rcases hc with ⟨-, -, hv⟩ | ⟨hno, rfl, hv⟩
    · exact absurd (hv ▸ hvx) (forked_ne_own _ f)
    obtain ⟨y', hy', hyf', hc'⟩ := hobj y hy f hyf
    obtain rfl := h.alone x hx y' hy' f (hv ▸ hvx) hyf'
    rcases hc' with ⟨hsrc, -⟩ | ⟨-, rfl, -⟩
    · exact absurd hsrc hno
    · rfl
  intro x hx y hy f hvx hyf
  obtain ⟨x', hx', hxf, hc⟩ := hobj x hx f (by rw [hvx]; rfl)
  obtain ⟨y', hy', hyf', hc'⟩ := hobj y hy f hyf
  rcases hc with ⟨hsrc, -, hv⟩ | ⟨hno, rfl, hv⟩
  · -- A new share: its owner was alone, so `y` comes from the same slot.
    have hown : view x' = .own f := (forked_eq_share.mp (hv ▸ hvx)).resolve_right
      (hF.unshared x' hsrc f)
    obtain rfl := h.alone x' hx' y' hy' f hown hyf'
    rcases hc' with ⟨-, -, hv'⟩ | ⟨hno, -, -⟩
    · rw [hv', hown]
      rfl
    · exact absurd hsrc hno
  have hsh := h.unmixed x hx y' hy' f (hv ▸ hvx) hyf'
  rcases hc' with ⟨hsrc, -, -⟩ | ⟨-, -, hv'⟩
  · exact absurd hsh (hF.unshared y' hsrc f)
  · rw [hv', hsh]

end Lemmas

end Elitra.Sharing
