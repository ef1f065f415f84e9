import Mathlib.Data.Set.Basic
import Mathlib.Data.List.Basic

namespace Elitra.Radix
open Function List Option

variable {ι E : Type}

/-- The table reached from `t` along a list of indices; `next` reads the link an entry holds. -/
def descend (next : E → Option ℕ) (mem : ℕ → ι → E) : ℕ → List ι → Option ℕ
  | t, [] => some t
  | t, i :: is => (next (mem t i)).bind fun u => descend next mem u is

/-- Every table that the roots reach along admissible paths has one place, a root and a path. -/
structure Forest (next : E → Option ℕ) (adm : List ι → Prop) (mem : ℕ → ι → E) (roots : Set ℕ)
    (place : ℕ → Option (ℕ × List ι)) : Prop where
  root : ∀ r ∈ roots, place r = some (r, [])
  child : ∀ t r path i u, place t = some (r, path) → adm (path ++ [i]) → next (mem t i) = some u →
    place u = some (r, path ++ [i])

/-- Admissible paths are closed under taking shorter ones. -/
def Closed (adm : List ι → Prop) : Prop := ∀ xs ys, adm (xs ++ ys) → adm xs

variable {next : E → Option ℕ} {adm : List ι → Prop} {mem mem' : ℕ → ι → E} {roots : Set ℕ}
  {place : ℕ → Option (ℕ × List ι)}

lemma descend_append (t : ℕ) (is js : List ι) :
    descend next mem t (is ++ js) =
      (descend next mem t is).bind fun u => descend next mem u js := by
  induction is generalizing t with
  | nil => rfl
  | cons i is ih =>
    rw [cons_append, descend, descend, bind_assoc]
    congr 1
    funext u
    exact ih u

lemma descend_snoc (t : ℕ) (is : List ι) (i : ι) :
    descend next mem t (is ++ [i]) =
      (descend next mem t is).bind fun u => next (mem u i) := by
  rw [descend_append]
  congr 1
  funext u
  rw [descend]
  cases next (mem u i) with
  | none => rfl
  | some v => rfl

variable {is : List ι} {t r u : ℕ}

lemma Forest.descend_place (h : Forest next adm mem roots place) (hadm : Closed adm)
    {path : List ι} (ht : place t = some (r, path)) (hp : adm (path ++ is))
    (hu : descend next mem t is = some u) : place u = some (r, path ++ is) := by
  induction is generalizing t path with
  | nil =>
    obtain rfl : t = u := by simpa [descend] using hu
    rw [ht, append_nil]
  | cons i is ih =>
    rw [descend, bind_eq_some_iff] at hu
    obtain ⟨v, hv, hu⟩ := hu
    have hs : path ++ i :: is = (path ++ [i]) ++ is := by simp
    rw [hs] at hp ⊢
    exact ih (h.child t r path i v ht (hadm _ _ hp) hv) hp hu

lemma Forest.place_of_root (h : Forest next adm mem roots place) (hadm : Closed adm)
    {path : List ι} (hr : r ∈ roots) (hp : adm path) (hu : descend next mem r path = some u) :
    place u = some (r, path) :=
  h.descend_place hadm (h.root r hr) hp hu

lemma descend_congr (he : ∀ xs i ys u, is = xs ++ i :: ys → descend next mem r xs = some u →
      next (mem' u i) = next (mem u i)) :
    descend next mem' r is = descend next mem r is := by
  induction is generalizing r with
  | nil => rfl
  | cons i is ih =>
    rw [descend, descend, he [] i is r rfl rfl]
    cases hv : next (mem r i) with
    | none => rfl
    | some v =>
      refine ih fun xs j ys u hs hu => he (i :: xs) j ys u (by rw [hs]; rfl) ?_
      rw [descend, hv]
      exact hu

lemma Forest.congr (h : Forest next adm mem roots place)
    (hm : ∀ t r path i, place t = some (r, path) → adm (path ++ [i]) →
      next (mem' t i) = next (mem t i)) :
    Forest next adm mem' roots place := by
  refine ⟨h.root, ?_⟩
  intro t r path i u ht hp hu
  rw [hm t r path i ht hp] at hu
  exact h.child t r path i u ht hp hu

lemma Forest.descend_eq (h : Forest next adm mem roots place) (hadm : Closed adm)
    (hm : ∀ t r path i, place t = some (r, path) → adm (path ++ [i]) →
      next (mem' t i) = next (mem t i)) (hr : r ∈ roots) (hp : adm is) :
    descend next mem' r is = descend next mem r is := by
  refine descend_congr fun xs i ys u hs hu => ?_
  have hxs : adm (xs ++ [i]) := by
    refine hadm (xs ++ [i]) ys ?_
    rw [append_assoc, singleton_append, ← hs]
    exact hp
  exact hm u r xs i (h.place_of_root hadm hr (hadm xs [i] hxs) hu) hxs

section Link

variable [DecidableEq ι] {t r₀ new : ℕ} {path : List ι} {i : ι} {e : E} {table : ι → E}

/-- The memory after storing `table` at `new` and then the entry `e`, which links to it. -/
def link (mem : ℕ → ι → E) (t : ℕ) (i : ι) (e : E) (new : ℕ) (table : ι → E) : ℕ → ι → E :=
  update (update mem new table) t
    (update (update mem new table t) i e)

lemma link_new (h : new ≠ t) : link mem t i e new table new = table := by
  rw [link, update_of_ne h, update_self]

lemma link_entry : link mem t i e new table t i = e := by
  rw [link, update_self, update_self]

lemma link_of_ne {j : ι} (hu : u ≠ new) (hj : ¬ (u = t ∧ j = i)) :
    link mem t i e new table u j = mem u j := by
  by_cases ht : u = t
  · subst ht
    have hji : j ≠ i := fun hji => hj ⟨rfl, hji⟩
    rw [link, update_self, update_of_ne hji, update_of_ne hu]
  · rw [link, update_of_ne ht, update_of_ne hu]

lemma Forest.link (h : Forest next adm mem roots place) (ht : place t = some (r₀, path))
    (hnew : place new = none) (he : next e = some new)
    (hta : ∀ j, adm (path ++ [i] ++ [j]) → next (table j) = none) :
    Forest next adm (link mem t i e new table) roots
      (update place new (some (r₀, path ++ [i]))) := by
  have hne : new ≠ t := by
    rintro rfl
    simp [ht] at hnew
  refine ⟨?_, ?_⟩
  · intro r hr
    have hrn : r ≠ new := by
      rintro rfl
      simp [h.root r hr] at hnew
    rw [update_of_ne hrn]
    exact h.root r hr
  intro u r path' j v hu hp hv
  by_cases hun : u = new
  · subst hun
    rw [update_self, some.injEq, Prod.mk.injEq] at hu
    obtain ⟨rfl, rfl⟩ := hu
    rw [link_new hne, hta j hp] at hv
    simp at hv
  rw [update_of_ne hun] at hu
  by_cases hen : u = t ∧ j = i
  · obtain ⟨rfl, rfl⟩ := hen
    rw [link_entry, he, some.injEq] at hv
    rw [ht, some.injEq, Prod.mk.injEq] at hu
    obtain ⟨rfl, rfl⟩ := hu
    rw [← hv, update_self]
  rw [link_of_ne hun hen] at hv
  have hpl := h.child u r path' j v hu hp hv
  have hvn : v ≠ new := by
    rintro rfl
    simp [hpl] at hnew
  rw [update_of_ne hvn]
  exact hpl

lemma Forest.descend_link (h : Forest next adm mem roots place) (hadm : Closed adm)
    (hr0 : r₀ ∈ roots) (hp : adm (path ++ [i])) (ht : descend next mem r₀ path = some t)
    (hn : next (mem t i) = none) (hnew : place new = none) (he : next e = some new)
    (hta : ∀ j, adm (path ++ [i] ++ [j]) → next (table j) = none)
    (hr : r ∈ roots) (his : adm is) :
    descend next (Radix.link mem t i e new table) r is =
      if r = r₀ ∧ is = path ++ [i] then some new else descend next mem r is := by
  have htp := h.place_of_root hadm hr0 (hadm _ _ hp) ht
  have hne : new ≠ t := by
    rintro rfl
    simp [htp] at hnew
  -- Paths that do not go through the new link are as before.
  have ho : ∀ r' is', r' ∈ roots → adm is' → (∀ ys, ¬ (r' = r₀ ∧ is' = path ++ i :: ys)) →
      descend next (Radix.link mem t i e new table) r' is' = descend next mem r' is' := by
    intro r' is' hr' his' hth
    refine descend_congr fun xs j ys u hs hu => ?_
    have hup := h.place_of_root hadm hr' (hadm xs (j :: ys) (hs ▸ his')) hu
    rw [link_of_ne]
    · rintro rfl
      simp [hup] at hnew
    rintro ⟨rfl, rfl⟩
    rw [htp, some.injEq, Prod.mk.injEq] at hup
    obtain ⟨rfl, rfl⟩ := hup
    exact hth ys ⟨rfl, hs⟩
  by_cases hth : ∃ ys, r = r₀ ∧ is = path ++ i :: ys
  · obtain ⟨ys, rfl, rfl⟩ := hth
    have hpre := ho r path hr0 (hadm _ _ hp) (by
      rintro ys ⟨-, hys⟩
      have := congrArg length hys
      simp only [length_append, length_cons] at this
      omega)
    rw [descend_append, descend_append, hpre, ht, bind_some, bind_some, descend,
      descend, link_entry, he, hn, bind_some, bind_none]
    cases ys with
    | nil => simp [descend]
    | cons j ys =>
      have hj : adm (path ++ [i] ++ [j]) := by
        refine hadm _ ys ?_
        simpa using his
      rw [descend, link_new hne, hta j hj, bind_none, if_neg (by simp)]
  rw [ho r is hr his fun ys hys => hth ⟨ys, hys⟩, if_neg]
  rintro ⟨rfl, rfl⟩
  exact hth ⟨[], rfl, rfl⟩

end Link

lemma Forest.insert_root (h : Forest next adm mem roots place) {new : ℕ}
    (hnew : place new = none) (he : ∀ i, adm [i] → next (mem new i) = none) :
    Forest next adm mem (insert new roots) (update place new (some (new, []))) := by
  refine ⟨?_, ?_⟩
  · intro r hr
    by_cases hrn : r = new
    · rw [hrn, update_self]
    rw [update_of_ne hrn]
    exact h.root r (hr.resolve_left hrn)
  intro t r path i u ht hp hu
  by_cases htn : t = new
  · subst htn
    rw [update_self, some.injEq, Prod.mk.injEq] at ht
    obtain ⟨rfl, rfl⟩ := ht
    rw [he i hp] at hu
    simp at hu
  rw [update_of_ne htn] at ht
  have hpl := h.child t r path i u ht hp hu
  have hun : u ≠ new := by
    rintro rfl
    simp [hpl] at hnew
  rw [update_of_ne hun]
  exact hpl

/-- The places left when the tree of `dead` is dropped. -/
def without (place : ℕ → Option (ℕ × List ι)) (dead : ℕ) : ℕ → Option (ℕ × List ι) :=
  fun t => (place t).filter fun x => x.1 != dead

lemma without_eq_some {dead : ℕ} {path : List ι} :
    without place dead t = some (r, path) ↔ place t = some (r, path) ∧ r ≠ dead := by
  simp [without, filter_eq_some_iff]

lemma Forest.remove_root (h : Forest next adm mem roots place) (dead : ℕ) :
    Forest next adm mem (roots \ {dead}) (without place dead) := by
  refine ⟨?_, ?_⟩
  · intro r hr
    exact without_eq_some.mpr ⟨h.root r hr.1, hr.2⟩
  intro t r path i u ht hp hu
  obtain ⟨ht, hne⟩ := without_eq_some.mp ht
  exact without_eq_some.mpr ⟨h.child t r path i u ht hp hu, hne⟩

section Reached

open Classical in
/-- The places of the tables that the roots still reach. -/
noncomputable def reached (next : E → Option ℕ) (adm : List ι → Prop) (mem : ℕ → ι → E)
    (roots : Set ℕ) (place : ℕ → Option (ℕ × List ι)) : ℕ → Option (ℕ × List ι) :=
  fun t => if ∃ r ∈ roots, ∃ is, adm is ∧ descend next mem r is = some t then place t else none

lemma reached_eq_some (h : Forest next adm mem roots place) (hadm : Closed adm)
    {path : List ι} : reached next adm mem roots place t = some (r, path) ↔
      r ∈ roots ∧ adm path ∧ descend next mem r path = some t := by
  unfold reached
  constructor
  · intro ht
    split at ht
    · rename_i hre
      obtain ⟨r', hr', is, his, hd⟩ := hre
      rw [h.place_of_root hadm hr' his hd, some.injEq, Prod.mk.injEq] at ht
      obtain ⟨rfl, rfl⟩ := ht
      exact ⟨hr', his, hd⟩
    · simp at ht
  rintro ⟨hr, hp, hd⟩
  rw [if_pos ⟨r, hr, path, hp, hd⟩]
  exact h.place_of_root hadm hr hp hd

lemma Forest.reached (h : Forest next adm mem roots place) (hadm : Closed adm) (hnil : adm []) :
    Forest next adm mem roots (reached next adm mem roots place) := by
  refine ⟨fun r hr => (reached_eq_some h hadm).mpr ⟨hr, hnil, rfl⟩, ?_⟩
  intro t r path i u ht hp hu
  obtain ⟨hr, -, hd⟩ := (reached_eq_some h hadm).mp ht
  refine (reached_eq_some h hadm).mpr ⟨hr, hp, ?_⟩
  rw [descend_snoc, hd, bind_some, hu]

end Reached

variable {i : ι} {xs : List ι}

section Trail

/-- The entries read on the way along a list of indices, up to the first one without a link. -/
def trail (next : E → Option ℕ) (mem : ℕ → ι → E) : ℕ → List ι → List E
  | _, [] => []
  | t, i :: is => mem t i :: (next (mem t i)).elim [] fun u => trail next mem u is

/-- Index lists that reach their last entry through tables at admissible paths. -/
def Readable (adm : List ι → Prop) (is : List ι) : Prop := ∀ xs i ys, is = xs ++ i :: ys → adm xs

variable {is : List ι}

lemma trail_stop (h : next (mem t i) = none) : trail next mem t (i :: is) = [mem t i] := by
  rw [trail, h]
  rfl

lemma trail_step (h : next (mem t i) = some u) :
    trail next mem t (i :: is) = mem t i :: trail next mem u is := by
  rw [trail, h]
  rfl

lemma trail_single (t : ℕ) (i : ι) : trail next mem t [i] = [mem t i] := by
  rw [trail]
  cases next (mem t i) with
  | none => rfl
  | some u => rfl

lemma trail_append {ys : List ι} (h : descend next mem t xs = some u) :
    trail next mem t (xs ++ ys) = trail next mem t xs ++ trail next mem u ys := by
  induction xs generalizing t with
  | nil =>
    obtain rfl : t = u := by simpa [descend] using h
    rfl
  | cons x xs ih =>
    rw [descend, bind_eq_some_iff] at h
    obtain ⟨v, hv, hu⟩ := h
    rw [cons_append, trail_step hv, trail_step hv, ih hu, cons_append]

lemma trail_length (h : descend next mem t xs = some u) :
    (trail next mem t xs).length = xs.length := by
  induction xs generalizing t with
  | nil => rfl
  | cons x xs ih =>
    rw [descend, bind_eq_some_iff] at h
    obtain ⟨v, hv, hu⟩ := h
    rw [trail_step hv, length_cons, ih hu, length_cons]

lemma trail_length_le (t : ℕ) (is : List ι) : (trail next mem t is).length ≤ is.length := by
  induction is generalizing t with
  | nil => simp [trail]
  | cons i is ih =>
    cases hv : next (mem t i) with
    | none =>
      rw [trail_stop hv]
      simp
    | some v =>
      rw [trail_step hv]
      exact Nat.succ_le_succ (ih v)

lemma trail_append_none {ys : List ι} (h : descend next mem t xs = none) :
    trail next mem t (xs ++ ys) = trail next mem t xs := by
  induction xs generalizing t with
  | nil => simp [descend] at h
  | cons x xs ih =>
    cases hv : next (mem t x) with
    | none => rw [cons_append, trail_stop hv, trail_stop hv]
    | some v =>
      rw [descend, hv, bind_some] at h
      rw [cons_append, trail_step hv, trail_step hv, ih h]

lemma next_of_mem_trail (h : descend next mem t xs = some u) :
    ∀ e ∈ trail next mem t xs, ∃ v, next e = some v := by
  induction xs generalizing t with
  | nil => simp [trail]
  | cons x xs ih =>
    rw [descend, bind_eq_some_iff] at h
    obtain ⟨v, hv, hu⟩ := h
    rw [trail_step hv]
    intro e he
    rcases mem_cons.mp he with rfl | he
    · exact ⟨v, hv⟩
    · exact ih hu e he

lemma exists_of_mem_trail {e : E} (h : e ∈ trail next mem t is) : ∃ u i, mem u i = e := by
  induction is generalizing t with
  | nil => simp [trail] at h
  | cons i is ih =>
    cases hv : next (mem t i) with
    | none =>
      rw [trail_stop hv, mem_singleton] at h
      exact ⟨t, i, h.symm⟩
    | some v =>
      rw [trail_step hv] at h
      rcases mem_cons.mp h with rfl | h
      · exact ⟨t, i, rfl⟩
      · exact ih h

lemma trail_congr
    (he : ∀ xs i ys u, is = xs ++ i :: ys → descend next mem r xs = some u → mem' u i = mem u i) :
    trail next mem' r is = trail next mem r is := by
  induction is generalizing r with
  | nil => rfl
  | cons i is ih =>
    have hh := he [] i is r rfl rfl
    cases hv : next (mem r i) with
    | none => rw [trail_stop hv, trail_stop (hh ▸ hv), hh]
    | some v =>
      rw [trail_step hv, trail_step (hh ▸ hv), hh]
      refine congrArg _ (ih fun xs j ys u hs hu => he (i :: xs) j ys u (by rw [hs]; rfl) ?_)
      rw [descend, hv]
      exact hu

lemma Forest.trail_eq (h : Forest next adm mem roots place) (hadm : Closed adm)
    (hr : r ∈ roots) (his : Readable adm is)
    (hm : ∀ u xs i ys, place u = some (r, xs) → is = xs ++ i :: ys → mem' u i = mem u i) :
    trail next mem' r is = trail next mem r is := by
  refine trail_congr fun xs i ys u hs hu => ?_
  exact hm u xs i ys (h.place_of_root hadm hr (his xs i ys hs) hu) hs

variable [DecidableEq ι] {t r₀ new : ℕ} {path : List ι} {i : ι} {e : E} {table : ι → E}

lemma Forest.trail_link_of_not_through (h : Forest next adm mem roots place) (hadm : Closed adm)
    (ht : place t = some (r₀, path)) (hnew : place new = none)
    (hr : r ∈ roots) (his : Readable adm is) (hnot : ∀ ys, ¬ (r = r₀ ∧ is = path ++ i :: ys)) :
    trail next (Radix.link mem t i e new table) r is = trail next mem r is := by
  refine h.trail_eq hadm hr his fun u xs j ys hu hs => link_of_ne ?_ ?_
  · rintro rfl
    simp [hnew] at hu
  rintro ⟨rfl, rfl⟩
  rw [ht, some.injEq, Prod.mk.injEq] at hu
  obtain ⟨rfl, rfl⟩ := hu
  exact hnot ys ⟨rfl, hs⟩

/-- An index list that goes through the new link reads its entry and goes on in the new table. -/
lemma Forest.trail_link_through (h : Forest next adm mem roots place) (hadm : Closed adm)
    (hr0 : r₀ ∈ roots) (hp : adm path) (ht : descend next mem r₀ path = some t)
    (hnew : place new = none) (he : next e = some new) (j : ι) (ys : List ι)
    (hend : ys = [] ∨ next (table j) = none) :
    trail next (Radix.link mem t i e new table) r₀ (path ++ i :: j :: ys) =
      trail next mem r₀ path ++ [e, table j] := by
  have htp := h.place_of_root hadm hr0 hp ht
  have hne : new ≠ t := by
    rintro rfl
    simp [htp] at hnew
  have hsa : ∀ xs k zs u, path = xs ++ k :: zs → descend next mem r₀ xs = some u →
      Radix.link mem t i e new table u k = mem u k := by
    intro xs k zs u hs hu
    have hup := h.place_of_root hadm hr0 (hadm xs (k :: zs) (hs ▸ hp)) hu
    refine link_of_ne ?_ ?_
    · rintro rfl
      simp [hnew] at hup
    -- `t` lies below every table on the way to it.
    rintro ⟨rfl, -⟩
    rw [htp, some.injEq, Prod.mk.injEq] at hup
    have := congrArg length (hup.2.symm.trans hs)
    simp only [length_append, length_cons] at this
    omega
  have hpa : descend next (Radix.link mem t i e new table) r₀ path = some t := by
    rw [← ht]
    exact descend_congr fun xs k zs u hs hu => by rw [hsa xs k zs u hs hu]
  have hl : trail next (Radix.link mem t i e new table) new (j :: ys) = [table j] := by
    rcases hend with rfl | hn
    · rw [trail_single, link_new hne]
    · rw [trail_stop (by rw [link_new hne]; exact hn), link_new hne]
  have hen : next (Radix.link mem t i e new table t i) = some new := by
    rw [link_entry]
    exact he
  rw [trail_append hpa, trail_congr hsa, trail_step hen, link_entry, hl]

end Trail

end Elitra.Radix
