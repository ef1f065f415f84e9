import Elitra.Paging
import Elitra.PmmSpec
import Elitra.Radix

namespace Elitra.Paging
open Function List Option Radix

def pteNext (e : Pte) : Option ℕ := if present e then some (pteFrame e) else none

/-- The paths from a directory to its tables in the lower half of the address space. -/
structure TablePath (path : List ℕ) : Prop where
  short : path.length ≤ 3
  index : ∀ i ∈ path, i < 512
  lower : ∀ i, path.head? = some i → i < 256

abbrev Place := ℕ → Option (ℕ × List ℕ)

def freeSet (m : Machine) : Finset ℕ := Pmm.freeFrames m.pmm

def userPages : ℕ := 2 ^ 35

/-- The indices that lead to the page table of the page number `v`. -/
def pathOf (v : ℕ) : List ℕ := [v / 2 ^ 27 % 512, v / 2 ^ 18 % 512, v / 2 ^ 9 % 512]

/-- The entry of page `v` in a directory, 0 where the walk ends early. -/
def leaf (m : Machine) (root v : ℕ) : Pte :=
  match walk m root (v * 4096) with
  | some t => m.mem t (v % 512)
  | none => 0

/-- Kernel memory: no user access, not shared on write, not swapped out. -/
structure KernelLeaf (e : Pte) : Prop where
  user : e.getLsbD 2 = false
  cow : e.getLsbD 9 = false
  swap : e.getLsbD 10 = false

def KernelPt (m : Machine) (t : ℕ) : Prop := ∀ i, i < 512 → KernelLeaf (m.mem t i)

def KernelPd (m : Machine) (kern : Set ℕ) (t : ℕ) : Prop :=
  t ∈ kern ∧ ∀ i, i < 512 → present (m.mem t i) = true →
    (huge (m.mem t i) = true → KernelLeaf (m.mem t i)) ∧
      (huge (m.mem t i) = false → child m t i ∈ kern ∧ KernelPt m (child m t i))

def KernelPdp (m : Machine) (kern : Set ℕ) (t : ℕ) : Prop :=
  t ∈ kern ∧ ∀ i, i < 512 → present (m.mem t i) = true → huge (m.mem t i) = false →
    KernelPd m kern (child m t i)

/-- The kernel's directory lies in kernel frames and maps kernel memory in its lower half. -/
def KernelDir (m : Machine) (kern : Set ℕ) : Prop :=
  m.pml4 ∈ kern ∧ (present (m.mem m.pml4 0) = true → KernelPdp m kern (child m m.pml4 0))

/-- Who owns which frame: every table of every address space has one place in one tree, and the
tables and the kernel's frames are in use. -/
structure Tables (spaces kern : Set ℕ) (place : Place) (m : Machine) : Prop where
  pmm : Pmm.Good m.pmm
  forest : Forest pteNext TablePath m.mem spaces place
  used : ∀ f x, place f = some x → f ∉ freeSet m
  flat : ∀ t r path i, place t = some (r, path) → path.length = 2 → TablePath (path ++ [i]) →
    present (m.mem t i) = true → huge (m.mem t i) = false
  kernel : ∀ f ∈ kern, f ∉ freeSet m ∧ place f = none
  dir : KernelDir m kern

lemma tablePath_closed : Closed TablePath := by
  intro xs ys h
  refine ⟨?_, fun i hi => h.index i (by simp [hi]), ?_⟩
  · have := h.short
    rw [length_append] at this
    omega
  intro i hi
  apply h.lower
  cases xs with
  | nil => simp at hi
  | cons x xs => simpa using hi

lemma tablePath_pathOf {v : ℕ} (hv : v < userPages) : TablePath (pathOf v) := by
  unfold userPages at hv
  refine ⟨by simp [pathOf], ?_, ?_⟩
  · intro i hi
    simp only [pathOf, mem_cons, not_mem_nil, or_false] at hi
    omega
  intro i hi
  simp only [pathOf, head?_cons, some.injEq] at hi
  omega

lemma pathOf_inj {v w : ℕ} (hv : v < userPages) (hw : w < userPages)
    (h : pathOf v = pathOf w) (hi : v % 512 = w % 512) : v = w := by
  unfold userPages at hv hw
  simp only [pathOf, cons.injEq, and_true] at h
  omega

variable {e : Pte}

lemma pteNext_present (h : present e = true) : pteNext e = some (pteFrame e) :=
  if_pos h

lemma pteNext_child {m : Machine} {t i : ℕ} (h : present (m.mem t i) = true) :
    pteNext (m.mem t i) = some (child m t i) := if_pos h

lemma pteNext_absent (h : present e = false) : pteNext e = none := by
  rw [pteNext, h]
  rfl

lemma present_of_pteNext {u : ℕ} (h : pteNext e = some u) : present e = true ∧ pteFrame e = u := by
  cases hp : present e with
  | false => simp [pteNext_absent hp] at h
  | true =>
    rw [pteNext_present hp, some.injEq] at h
    exact ⟨rfl, h⟩

lemma present_zero : present 0 = false := by decide

section Indices

variable (v : ℕ)

lemma pml4I_page : pml4I (v * 4096) = v / 2 ^ 27 % 512 := by unfold pml4I; omega
lemma pdpI_page : pdpI (v * 4096) = v / 2 ^ 18 % 512 := by unfold pdpI; omega
lemma pdI_page : pdI (v * 4096) = v / 2 ^ 9 % 512 := by unfold pdI; omega

end Indices

variable {f r₀ : ℕ}

section Tables

variable {spaces kern : Set ℕ} {place : Place} {m m' : Machine} {r v : ℕ}

variable {t : ℕ}

section

variable (h : Tables spaces kern place m)
include h

lemma Tables.place_table {path : List ℕ} (hr : r ∈ spaces)
    (hp : TablePath path) (ht : descend pteNext m.mem r path = some t) :
    place t = some (r, path) :=
  h.forest.place_of_root tablePath_closed hr hp ht

lemma Tables.walk_eq (hr : r ∈ spaces) (hv : v < userPages) :
    walk m r (v * 4096) = descend pteNext m.mem r (pathOf v) := by
  have hp := tablePath_pathOf hv
  unfold pathOf at hp ⊢
  rw [walk, pml4I_page, pdpI_page, pdI_page]
  generalize v / 2 ^ 27 % 512 = i4 at *
  generalize v / 2 ^ 18 % 512 = i3 at *
  generalize v / 2 ^ 9 % 512 = i2 at *
  simp only [descend]
  rcases Bool.eq_false_or_eq_true (present (m.mem r i4)) with h4 | h4
  · rw [pteNext_child h4, h4, bind_some, if_neg (by simp)]
    rcases Bool.eq_false_or_eq_true (present (m.mem (child m r i4) i3)) with h3 | h3
    · rw [pteNext_child h3, h3, bind_some, if_neg (by simp)]
      have hpl : place (child m (child m r i4) i3) = some (r, [i4, i3]) := by
        refine h.place_table hr (tablePath_closed [i4, i3] [i2] hp) ?_
        rw [descend, pteNext_child h4, bind_some, descend, pteNext_child h3]
        rfl
      generalize child m (child m r i4) i3 = t2 at hpl ⊢
      rcases Bool.eq_false_or_eq_true (present (m.mem t2 i2)) with h2 | h2
      · rw [pteNext_child h2, h2, h.flat t2 r _ i2 hpl rfl hp h2]
        rfl
      rw [pteNext_absent h2, h2]
      rfl
    rw [pteNext_absent h3, h3]
    rfl
  rw [pteNext_absent h4, h4]
  rfl

lemma Tables.leaf_eq (hr : r ∈ spaces) (hv : v < userPages) :
    leaf m r v = match descend pteNext m.mem r (pathOf v) with
      | some t => m.mem t (v % 512)
      | none => 0 := by
  rw [leaf, h.walk_eq hr hv]

lemma Tables.fresh (hf : f ∈ freeSet m) : place f = none ∧ f ∉ kern := by
  refine ⟨?_, fun hk => (h.kernel f hk).1 hf⟩
  cases hp : place f with
  | none => rfl
  | some x => exact absurd hf (h.used f x hp)

lemma Tables.subset {spaces' : Set ℕ} (hs : spaces' ⊆ spaces) : Tables spaces' kern place m :=
  ⟨h.pmm, ⟨fun r hr => h.forest.root r (hs hr), h.forest.child⟩, h.used, h.flat, h.kernel, h.dir⟩

lemma Tables.reached : Tables spaces kern (reached pteNext TablePath m.mem spaces place) m := by
  have hsub : ∀ {t x}, Radix.reached pteNext TablePath m.mem spaces place t = some x →
      place t = some x := by
    rintro t ⟨r, path⟩ ht
    obtain ⟨hr, hp, hd⟩ := (reached_eq_some h.forest tablePath_closed).mp ht
    exact h.place_table hr hp hd
  refine ⟨h.pmm, h.forest.reached tablePath_closed ⟨by simp, by simp, by simp⟩,
    fun f x hf => h.used f x (hsub hf), fun t r path i ht => h.flat t r path i (hsub ht), ?_, h.dir⟩
  intro f hf
  obtain ⟨hfr, hn⟩ := h.kernel f hf
  refine ⟨hfr, ?_⟩
  cases hx : Radix.reached pteNext TablePath m.mem spaces place f with
  | none => rfl
  | some x => exact absurd (hsub hx) (by simp [hn])

end

lemma child_congr (h : m'.mem t = m.mem t) (i : ℕ) : child m' t i = child m t i := by
  rw [child, h]
  rfl

lemma KernelPd.congr (h : KernelPd m kern t) (hm : ∀ f ∈ kern, m'.mem f = m.mem f) :
    KernelPd m' kern t := by
  refine ⟨h.1, fun i hi hp => ?_⟩
  rw [child_congr (hm t h.1), hm t h.1] at *
  refine ⟨(h.2 i hi hp).1, fun hh => ?_⟩
  obtain ⟨hk, hpt⟩ := (h.2 i hi hp).2 hh
  refine ⟨hk, ?_⟩
  unfold KernelPt
  rw [hm _ hk]
  exact hpt

lemma KernelPdp.congr (h : KernelPdp m kern t) (hm : ∀ f ∈ kern, m'.mem f = m.mem f) :
    KernelPdp m' kern t := by
  refine ⟨h.1, fun i hi hp hh => ?_⟩
  rw [child_congr (hm t h.1), hm t h.1] at *
  exact (h.2 i hi hp hh).congr hm

lemma KernelDir.congr (h : KernelDir m kern) (hpml4 : m'.pml4 = m.pml4)
    (hm : ∀ f ∈ kern, m'.mem f = m.mem f) : KernelDir m' kern := by
  unfold KernelDir
  rw [hpml4, child_congr (hm _ h.1), hm _ h.1]
  exact ⟨h.1, fun hp => (h.2 hp).congr hm⟩

section

variable (h : Tables spaces kern place m)
include h

lemma Tables.congr (hpmm : m'.pmm = m.pmm)
    (hpml4 : m'.pml4 = m.pml4) (hk : ∀ f ∈ kern, m'.mem f = m.mem f)
    (hm : ∀ t r path i, place t = some (r, path) → TablePath (path ++ [i]) →
      m'.mem t i = m.mem t i) : Tables spaces kern place m' := by
  have hf : freeSet m' = freeSet m := by rw [freeSet, hpmm]; rfl
  refine ⟨hpmm ▸ h.pmm, h.forest.congr fun t r path i ht hp => by rw [hm t r path i ht hp], ?_, ?_,
    ?_, h.dir.congr hpml4 hk⟩
  · rw [hf]
    exact h.used
  · intro t r path i ht hlen hp hpr
    rw [hm t r path i ht hp] at hpr ⊢
    exact h.flat t r path i ht hlen hp hpr
  · rw [hf]
    exact h.kernel

lemma Tables.shrink {p : Pmm.State} (hp : Pmm.Good p)
    (hsub : Pmm.freeFrames p ⊆ freeSet m) : Tables spaces kern place { m with pmm := p } :=
  ⟨hp, h.forest, fun f x hf hfr => h.used f x hf (hsub hfr), h.flat,
    fun f hf => ⟨fun hfr => (h.kernel f hf).1 (hsub hfr), (h.kernel f hf).2⟩, h.dir⟩

lemma Tables.fill (hf : place f = none) (hk : f ∉ kern)
    (words : ℕ → Pte) : Tables spaces kern place (fillFrame m f words) := by
  refine h.congr rfl rfl (fun g hg => update_of_ne ?_ _ _) ?_
  · rintro rfl
    exact hk hg
  intro t r path i ht _
  have hne : t ≠ f := by
    rintro rfl
    simp [hf] at ht
  exact congrFun (update_of_ne hne _ _) i

/-- Two machines with the same upper levels: the leaves are read in the same tables. -/
lemma Tables.leaf_of_links (h' : Tables spaces kern place m')
    (hm : ∀ t r path i, place t = some (r, path) → TablePath (path ++ [i]) →
      m'.mem t i = m.mem t i) (hr : r ∈ spaces) (hv : v < userPages) :
    leaf m' r v = match descend pteNext m.mem r (pathOf v) with
      | some t => m'.mem t (v % 512)
      | none => 0 := by
  rw [h'.leaf_eq hr hv, h.forest.descend_eq tablePath_closed
    (fun t r path i ht hp => by rw [hm t r path i ht hp]) hr (tablePath_pathOf hv)]

lemma Tables.leaf_congr (h' : Tables spaces kern place m')
    (hm : ∀ t x, place t = some x → m'.mem t = m.mem t) (hr : r ∈ spaces) (hv : v < userPages) :
    leaf m' r v = leaf m r v := by
  rw [h.leaf_of_links h' (fun t r path i ht _ => by rw [hm t _ ht]) hr hv, h.leaf_eq hr hv]
  cases ht : descend pteNext m.mem r (pathOf v) with
  | none => rfl
  | some t => exact congrFun (hm t _ (h.place_table hr (tablePath_pathOf hv) ht)) _

end

lemma not_tablePath_pathOf (v i : ℕ) : ¬ TablePath (pathOf v ++ [i]) := by
  intro h
  have := h.short
  simp [pathOf] at this

lemma Tables.link (h : Tables spaces kern place m) {t i new : ℕ} {path : List ℕ}
    (hr0 : r₀ ∈ spaces) (hp : TablePath (path ++ [i]))
    (ht : descend pteNext m.mem r₀ path = some t) (habs : present (m.mem t i) = false)
    (hnew : place new = none) (hk : new ∉ kern) (hus : new ∉ freeSet m)
    (he : pteNext e = some new) (hfl : path.length = 2 → huge e = false)
    (hem : ∀ j, TablePath (path ++ [i] ++ [j]) → present (m.mem new j) = false) :
    Tables spaces kern (update place new (some (r₀, path ++ [i]))) (writeEntry m t i e) ∧
      ∀ r path', r ∈ spaces → TablePath path' →
        descend pteNext (writeEntry m t i e).mem r path' =
          if r = r₀ ∧ path' = path ++ [i] then some new else descend pteNext m.mem r path' := by
  have htp := h.place_table hr0 (tablePath_closed _ _ hp) ht
  have hmem : (writeEntry m t i e).mem = Radix.link m.mem t i e new (m.mem new) := by
    rw [Radix.link, update_eq_self]
    rfl
  have hne : new ≠ t := by
    rintro rfl
    simp [htp] at hnew
  refine ⟨⟨h.pmm, ?_, ?_, ?_, ?_, ?_⟩, ?_⟩
  · rw [hmem]
    exact h.forest.link htp hnew he fun j hj => pteNext_absent (hem j hj)
  · intro f x hf
    by_cases hfn : f = new
    · exact hfn ▸ hus
    rw [update_of_ne hfn] at hf
    exact h.used f x hf
  · intro u r path' j hu hlen hpj hpr
    by_cases hun : u = new
    · subst hun
      rw [update_self, some.injEq, Prod.mk.injEq] at hu
      obtain ⟨rfl, rfl⟩ := hu
      rw [hmem, link_new hne, hem j hpj] at hpr
      simp at hpr
    rw [update_of_ne hun] at hu
    by_cases hen : u = t ∧ j = i
    · obtain ⟨rfl, rfl⟩ := hen
      rw [htp, some.injEq, Prod.mk.injEq] at hu
      rw [hmem, link_entry]
      exact hfl (hu.2 ▸ hlen)
    rw [hmem, link_of_ne hun hen] at hpr ⊢
    exact h.flat u r path' j hu hlen hpj hpr
  · intro f hf
    refine ⟨(h.kernel f hf).1, ?_⟩
    have hfn : f ≠ new := by
      rintro rfl
      exact hk hf
    rw [update_of_ne hfn]
    exact (h.kernel f hf).2
  · refine h.dir.congr rfl fun f hf => update_of_ne ?_ _ _
    rintro rfl
    simp [(h.kernel f hf).2] at htp
  intro r path' hr hp'
  rw [hmem]
  exact h.forest.descend_link tablePath_closed hr0 hp ht (pteNext_absent habs) hnew he
    (fun j hj => pteNext_absent (hem j hj)) hr hp'

end Tables

/-- Only free frames and tables are written, and no frame becomes free. -/
structure Frames (place place' : Place) (m m' : Machine) : Prop where
  keep : ∀ f, f ∉ freeSet m → place f = none → m'.mem f = m.mem f
  free : freeSet m' ⊆ freeSet m
  placed : ∀ f x, place f = some x → place' f = some x
  fresh : ∀ f x, place' f = some x → place f = some x ∨ f ∈ freeSet m
  pml4 : m'.pml4 = m.pml4
  cr3 : m'.cr3 = m.cr3

/-- What building tables does: in addition no leaf and no share count changes. -/
structure Grown (spaces : Set ℕ) (place place' : Place) (m m' : Machine) : Prop
    extends Frames place place' m m' where
  leaf : ∀ r ∈ spaces, ∀ v, v < userPages → leaf m' r v = leaf m r v
  descend : ∀ r ∈ spaces, ∀ path u, TablePath path → Radix.descend pteNext m.mem r path = some u →
    Radix.descend pteNext m'.mem r path = some u
  cow : m'.cow = m.cow

section Grown

variable {spaces kern : Set ℕ} {place place' place'' : Place} {m m' m'' : Machine}

lemma Frames.refl (place : Place) (m : Machine) : Frames place place m m :=
  ⟨fun _ _ _ => rfl, fun _ h => h, fun _ _ h => h, fun _ _ h => .inl h, rfl, rfl⟩

variable {f : ℕ}

lemma Frames.none (h : Frames place place' m m') (hf : f ∉ freeSet m)
    (hpl : place f = none) : place' f = none := by
  cases hx : place' f with
  | none => rfl
  | some x =>
    rcases h.fresh f x hx with hx' | hx'
    · simp [hpl] at hx'
    · exact absurd hx' hf

lemma Frames.trans (h : Frames place place' m m') (h' : Frames place' place'' m' m'') :
    Frames place place'' m m'' := by
  refine ⟨?_, h'.free.trans h.free, fun f x hf => h'.placed f x (h.placed f x hf), ?_,
    h'.pml4.trans h.pml4, h'.cr3.trans h.cr3⟩
  · intro f hf hpl
    rw [h'.keep f (fun hf' => hf (h.free hf')) (h.none hf hpl), h.keep f hf hpl]
  intro f x hf
  rcases h'.fresh f x hf with hf' | hf'
  · exact h.fresh f x hf'
  · exact .inr (h.free hf')

lemma Grown.refl (place : Place) (m : Machine) : Grown spaces place place m m :=
  ⟨Frames.refl place m, fun _ _ _ _ => rfl, fun _ _ _ _ _ h => h, rfl⟩

lemma Grown.trans (h : Grown spaces place place' m m') (h' : Grown spaces place' place'' m' m'') :
    Grown spaces place place'' m m'' := by
  refine ⟨h.toFrames.trans h'.toFrames, ?_, ?_, h'.cow.trans h.cow⟩
  · intro r hr v hv
    rw [h'.leaf r hr v hv, h.leaf r hr v hv]
  intro r hr path u hp hu
  exact h'.descend r hr path u hp (h.descend r hr path u hp hu)

lemma Tables.writeLeaf (h : Tables spaces kern place m) {v0 t : ℕ} (hr0 : r₀ ∈ spaces)
    (hv0 : v0 < userPages) (ht : descend pteNext m.mem r₀ (pathOf v0) = some t) (e : Pte) :
    let m' := writeEntry m t (v0 % 512) e
    Tables spaces kern place m' ∧ Frames place place m m' ∧ (∀ r v, r ∈ spaces → v < userPages →
        leaf m' r v = if r = r₀ ∧ v = v0 then e else leaf m r v) ∧
      ∀ r path, r ∈ spaces → TablePath path →
        descend pteNext m'.mem r path = descend pteNext m.mem r path := by
  intro m'
  have htp := h.place_table hr0 (tablePath_pathOf hv0) ht
  have hl : ∀ u r path i, place u = some (r, path) → TablePath (path ++ [i]) →
      m'.mem u i = m.mem u i := by
    intro u r path i hu hp
    have hne : u ≠ t := by
      rintro rfl
      rw [htp, some.injEq, Prod.mk.injEq] at hu
      exact not_tablePath_pathOf v0 i (hu.2 ▸ hp)
    exact congrFun (update_of_ne hne _ _) i
  have h' : Tables spaces kern place m' := by
    refine h.congr rfl rfl (fun f hf => update_of_ne ?_ _ _) hl
    rintro rfl
    simp [(h.kernel f hf).2] at htp
  refine ⟨h', ⟨?_, fun _ hf => hf, fun _ _ hf => hf, fun _ _ hf => .inl hf, rfl, rfl⟩, ?_,
    fun r path hr hp => h.forest.descend_eq tablePath_closed
      (fun u x path i hu hpi => by rw [hl u x path i hu hpi]) hr hp⟩
  · intro f _ hf
    refine update_of_ne ?_ _ _
    rintro rfl
    simp [htp] at hf
  intro r v hr hv
  rw [h.leaf_of_links h' hl hr hv, h.leaf_eq hr hv]
  by_cases hh : r = r₀ ∧ v = v0
  · obtain ⟨rfl, rfl⟩ := hh
    rw [ht, if_pos ⟨rfl, rfl⟩]
    simp [m', writeEntry]
  rw [if_neg hh]
  cases hu : descend pteNext m.mem r (pathOf v) with
  | none => rfl
  | some u =>
    have hup := h.place_table hr (tablePath_pathOf hv) hu
    by_cases hut : u = t
    · subst hut
      rw [htp, some.injEq, Prod.mk.injEq] at hup
      have hne : v % 512 ≠ v0 % 512 := fun hi =>
        hh ⟨hup.1.symm, pathOf_inj hv hv0 hup.2.symm hi⟩
      simp [m', writeEntry, hne]
    · simp [m', writeEntry, hut]

variable {p : Pmm.State}

lemma Tables.take (h : Tables spaces kern place m) (hf : f ∈ freeSet m)
    (hp : Pmm.Good p) (hfr : Pmm.freeFrames p = (freeSet m).erase f) (words : ℕ → Pte) :
    Tables spaces kern place (fillFrame { m with pmm := p } f words) ∧
      Grown spaces place place m (fillFrame { m with pmm := p } f words) := by
  obtain ⟨hpl, hk⟩ := h.fresh hf
  have hsub : Pmm.freeFrames p ⊆ freeSet m := hfr ▸ Finset.erase_subset f _
  have h' := (h.shrink hp hsub).fill hpl hk words
  have hmem : ∀ g, g ≠ f → (fillFrame { m with pmm := p } f words).mem g = m.mem g :=
    fun g hg => update_of_ne hg _ _
  have hne : ∀ t x, place t = some x → t ≠ f := by
    rintro t x ht rfl
    simp [hpl] at ht
  refine ⟨h', ⟨⟨?_, hsub, fun _ _ hx => hx, fun _ _ hx => .inl hx, rfl, rfl⟩, ?_, ?_, rfl⟩⟩
  · intro g hg _
    refine hmem g ?_
    rintro rfl
    exact hg hf
  · intro r hr v hv
    exact h.leaf_congr h' (fun t x ht => hmem t (hne t x ht)) hr hv
  intro r hr path u hpa hu
  rw [← hu]
  exact h.forest.descend_eq tablePath_closed
    (fun t r path i ht _ => by rw [hmem t (hne t _ ht)]) hr hpa

lemma allocFrame_cases (h : Pmm.Good m.pmm) :
    (allocFrame m = (m, Pmm.noFrame) ∧ freeSet m = ∅) ∨
      ∃ p f, allocFrame m = ({ m with pmm := p }, f) ∧ f ≠ Pmm.noFrame ∧ f ∈ freeSet m ∧
        Pmm.freeFrames p = (freeSet m).erase f ∧ Pmm.Good p := by
  rcases h.alloc with ⟨heq, he⟩ | ⟨p, f, heq, hne, hf, hfr, hg⟩
  · refine .inl ⟨?_, he⟩
    rw [allocFrame, heq]
  refine .inr ⟨p, f, ?_, hne, hf, hfr, hg⟩
  rw [allocFrame, heq]

lemma tableAlloc_cases (h : Pmm.Good m.pmm) :
    (tableAlloc m = (m, none) ∧ freeSet m = ∅) ∨
      ∃ p f, f ∈ freeSet m ∧ Pmm.freeFrames p = (freeSet m).erase f ∧ Pmm.Good p ∧
        tableAlloc m =
          (fillFrame { m with pmm := p } f fun _ => 0, if f = 0 then none else some f) := by
  rcases allocFrame_cases h with ⟨heq, he⟩ | ⟨p, f, heq, hne, hf, hfr, hg⟩
  · refine .inl ⟨?_, he⟩
    rw [tableAlloc, heq]
    rfl
  refine .inr ⟨p, f, hf, hfr, hg, ?_⟩
  rw [tableAlloc, heq]
  exact if_neg hne

variable {flags : Pte}

lemma pteNext_linkEntry (hf : f < 2 ^ 40) (h0 : flags.getLsbD 0 = true)
    (hm : flags &&& pteMask = 0#64) : pteNext (frameAddr f ||| flags) = some f := by
  have hp : present (frameAddr f ||| flags) = true := by
    rw [present_eq, BitVec.getLsbD_or, h0, Bool.or_true]
  rw [pteNext_present hp, pteFrame_or hm, pteFrame_frameAddr hf]

lemma huge_linkEntry (hf : f < 2 ^ 40) (h7 : flags.getLsbD 7 = false) :
    huge (frameAddr f ||| flags) = false := by
  rw [huge_eq, BitVec.getLsbD_or, frameAddr_getLsbD hf, h7]
  rfl

/-- The frame a machine takes from the allocator, filled and then linked by the entry `e` of `t`. -/
def attachTable (m : Machine) (p : Pmm.State) (f : ℕ) (words : ℕ → Pte) (t i : ℕ) (e : Pte) : Machine :=
  writeEntry (fillFrame { m with pmm := p } f words) t i e

lemma attachTable_mem (p : Pmm.State) (f : ℕ) (words : ℕ → Pte) (t i : ℕ) (e : Pte) :
    (attachTable m p f words t i e).mem = Radix.link m.mem t i e f words := rfl

variable {words : ℕ → Pte}

lemma attachTable_others {g t i : ℕ} (hf : g ≠ f)
    (ht : g ≠ t) : (attachTable m p f words t i e).mem g = m.mem g := by
  funext j
  rw [attachTable_mem]
  exact link_of_ne hf fun h => ht h.1

variable {path : List ℕ}

/-- Attaching a table: its pages get their leaves from it, all other pages keep theirs. -/
lemma Tables.attach (h : Tables spaces kern place m) {t i : ℕ}
    (hf : f ∈ freeSet m) (hgo : Pmm.Good p)
    (hfr : Pmm.freeFrames p = (freeSet m).erase f) (hr0 : r₀ ∈ spaces)
    (hp : TablePath (path ++ [i])) (ht : descend pteNext m.mem r₀ path = some t)
    (habs : present (m.mem t i) = false) (he : pteNext e = some f) (hfl : path.length = 2 → huge e = false)
    (hem : path.length < 2 → ∀ j, present (words j) = false) :
    let m' := attachTable m p f words t i e
    Tables spaces kern (update place f (some (r₀, path ++ [i]))) m' ∧
      (∀ r v, r ∈ spaces → v < userPages →
        leaf m' r v = if r = r₀ ∧ pathOf v = path ++ [i] then words (v % 512) else leaf m r v) ∧
      (∀ r path', r ∈ spaces → TablePath path' → descend pteNext m'.mem r path' =
        if r = r₀ ∧ path' = path ++ [i] then some f else descend pteNext m.mem r path') ∧
      (∀ g, g ≠ f → g ≠ t → m'.mem g = m.mem g) ∧
      (∀ j, j ≠ i → m'.mem t j = m.mem t j) ∧ m'.mem f = words := by
  obtain ⟨hpl, hk⟩ := h.fresh hf
  obtain ⟨h1, hg1⟩ := h.take hf hgo hfr words
  have htp := h.place_table hr0 (tablePath_closed _ _ hp) ht
  have htf : t ≠ f := by
    rintro rfl
    simp [htp] at hpl
  intro m'
  set m1 := fillFrame { m with pmm := p } f words with hm1
  have hmem1 : ∀ g, g ≠ f → m1.mem g = m.mem g := fun g hg => update_of_ne hg _ _
  have hfi : m1.mem f = words := update_self _ _ _
  have hus : f ∉ freeSet m1 := by
    change f ∉ Pmm.freeFrames p
    rw [hfr]
    exact Finset.notMem_erase f _
  have ht1 := hg1.descend r₀ hr0 path t (tablePath_closed _ _ hp) ht
  have hs : ∀ r path', r ∈ spaces → TablePath path' →
      descend pteNext m1.mem r path' = descend pteNext m.mem r path' := by
    intro r path' hr hp'
    refine h.forest.descend_eq tablePath_closed (fun u x path j hu _ => ?_) hr hp'
    have huf : u ≠ f := by
      rintro rfl
      simp [hpl] at hu
    rw [hmem1 u huf]
  have hl := h1.link hr0 hp ht1 (by rw [hmem1 t htf]; exact habs) hpl hk hus he hfl (by
    intro j hj
    rw [hfi]
    refine hem ?_ j
    have := hj.short
    simp only [length_append, length_cons, length_nil] at this
    omega)
  obtain ⟨h2, hd⟩ : Tables spaces kern _ m' ∧ ∀ r path', r ∈ spaces → TablePath path' →
      descend pteNext m'.mem r path' = _ := hl
  refine ⟨h2, ?_, ?_, ?_, ?_, ?_⟩
  · intro r v hr hv
    rw [h2.leaf_eq hr hv, hd r _ hr (tablePath_pathOf hv), hs r _ hr (tablePath_pathOf hv),
      h.leaf_eq hr hv]
    by_cases hh : r = r₀ ∧ pathOf v = path ++ [i]
    · rw [if_pos hh, if_pos hh]
      exact congrFun (link_new htf.symm) (v % 512)
    rw [if_neg hh, if_neg hh]
    cases hu : descend pteNext m.mem r (pathOf v) with
    | none => rfl
    | some u =>
      have hup := h.place_table hr (tablePath_pathOf hv) hu
      -- `t` lies above the page tables, so the leaf's table is another frame.
      have hut : u ≠ t := by
        rintro rfl
        rw [htp, some.injEq, Prod.mk.injEq] at hup
        exact not_tablePath_pathOf v i (hup.2 ▸ hp)
      have huf : u ≠ f := by
        rintro rfl
        simp [hpl] at hup
      exact congrFun (attachTable_others huf hut) (v % 512)
  · intro r path' hr hp'
    rw [← hs r path' hr hp']
    exact hd r path' hr hp'
  · exact fun g hgf hgt => attachTable_others hgf hgt
  · exact fun j hj => link_of_ne htf fun hji => hj hji.2
  · exact link_new htf.symm

/-- To the spaces that do not see the attached table, or see only empty entries in it, attaching
is table building. -/
lemma Tables.grown_attach (h : Tables spaces kern place m) {t i : ℕ}
    (hf : f ∈ freeSet m) (hgo : Pmm.Good p)
    (hfr : Pmm.freeFrames p = (freeSet m).erase f) (hr0 : r₀ ∈ spaces)
    (hp : TablePath (path ++ [i])) (ht : descend pteNext m.mem r₀ path = some t)
    (habs : present (m.mem t i) = false) (he : pteNext e = some f) (hfl : path.length = 2 → huge e = false)
    (hem : path.length < 2 → ∀ j, present (words j) = false) {seen : Set ℕ}
    (hs : seen ⊆ spaces) (hw : r₀ ∈ seen → ∀ j, words j = 0) :
    Grown seen place (update place f (some (r₀, path ++ [i]))) m
      (attachTable m p f words t i e) := by
  have hpl := (h.fresh hf).1
  have htp := h.place_table hr0 (tablePath_closed _ _ hp) ht
  have hn : descend pteNext m.mem r₀ (path ++ [i]) = none := by
    rw [descend_snoc, ht, bind_some, pteNext_absent habs]
  obtain ⟨-, hl, hd, hmem, -, -⟩ := h.attach hf hgo hfr hr0 hp ht habs he hfl hem
  refine ⟨⟨?_, ?_, ?_, ?_, rfl, rfl⟩, ?_, ?_, rfl⟩
  · intro g hg hgp
    refine hmem g ?_ ?_
    · rintro rfl
      exact hg hf
    rintro rfl
    simp [htp] at hgp
  · change Pmm.freeFrames p ⊆ freeSet m
    rw [hfr]
    exact Finset.erase_subset f _
  · intro g x hg
    have hgf : g ≠ f := by
      rintro rfl
      simp [hpl] at hg
    rw [update_of_ne hgf]
    exact hg
  · intro g x hg
    by_cases hgf : g = f
    · exact .inr (hgf ▸ hf)
    rw [update_of_ne hgf] at hg
    exact .inl hg
  · intro r hr v hv
    rw [hl r v (hs hr) hv]
    split
    · rename_i hh
      obtain ⟨rfl, hpa⟩ := hh
      rw [h.leaf_eq hr0 hv, hpa, hn, hw hr]
    · rfl
  intro r hr path' u hp' hu
  rw [hd r path' (hs hr) hp', if_neg, hu]
  rintro ⟨rfl, rfl⟩
  simp [hn] at hu

lemma ensureTable_spec (h : Tables spaces kern place m) {r t i : ℕ}
    (hr : r ∈ spaces) (hp : TablePath (path ++ [i])) (ht : descend pteNext m.mem r path = some t)
    (hfl : flags = 3#64 ∨ flags = 7#64) :
    ∃ place', Tables spaces kern place' (ensureTable m t i flags).1 ∧
      Grown spaces place place' m (ensureTable m t i flags).1 ∧
      ((ensureTable m t i flags).2 = true →
        descend pteNext (ensureTable m t i flags).1.mem r (path ++ [i]) =
          some (child (ensureTable m t i flags).1 t i)) := by
  have hfg : flags.getLsbD 0 = true ∧ flags &&& pteMask = 0#64 ∧ flags.getLsbD 7 = false := by
    rcases hfl with rfl | rfl
    · decide
    · decide
  unfold ensureTable
  by_cases hpr : present (m.mem t i) = true
  · rw [if_pos hpr]
    refine ⟨place, h, Grown.refl place m, fun _ => ?_⟩
    rw [descend_snoc, ht, bind_some, pteNext_child hpr]
  rw [if_neg hpr]
  rw [Bool.not_eq_true] at hpr
  rcases tableAlloc_cases h.pmm with ⟨heq, -⟩ | ⟨p, f, hf, hfr, hgo, heq⟩
  · rw [heq]
    exact ⟨place, h, Grown.refl place m, fun hfa => absurd hfa (by simp)⟩
  rw [heq]
  by_cases hf0 : f = 0
  · rw [if_pos hf0]
    obtain ⟨h1, hg1⟩ := h.take hf hgo hfr fun _ => 0
    exact ⟨place, h1, hg1, fun hfa => absurd hfa (by simp)⟩
  rw [if_neg hf0]
  have hs := h.pmm.mem_lt hf
  have hn := pteNext_linkEntry hs hfg.1 hfg.2.1
  have hh := fun _ : path.length = 2 => huge_linkEntry hs hfg.2.2
  obtain ⟨h', -, hd, -⟩ := h.attach hf hgo hfr hr hp ht hpr hn hh
    (fun _ _ => present_zero)
  refine ⟨_, h', h.grown_attach hf hgo hfr hr hp ht hpr hn hh
    (fun _ _ => present_zero) subset_rfl (fun _ _ => rfl), fun _ => ?_⟩
  refine (hd r _ hr hp).trans ?_
  rw [if_pos ⟨rfl, rfl⟩, child]
  simp only [writeEntry, update_self]
  rw [(present_of_pteNext hn).2]

end Grown

end Elitra.Paging
