import Elitra.PagingClone

namespace Elitra.Paging
open Function List Option Radix

/-- The table an entry leads to. A present entry with the size bit set ends the walk. -/
def linkNext (e : Pte) : Option ℕ := if present e && !huge e then some (pteFrame e) else none

/-- The paths from a directory to its tables, in both halves of the address space. -/
structure FullPath (path : List ℕ) : Prop where
  short : path.length ≤ 3
  index : ∀ i ∈ path, i < 512

def indices (virt : ℕ) : List ℕ := [pml4I virt, pdpI virt, pdI virt, ptI virt]

/-- The entries the processor reads to translate an address. -/
def walkOf (m : Machine) (root virt : ℕ) : List Pte := trail linkNext m.mem root (indices virt)

/-- The physical address the entries read for an address give: a 4 KB page after four entries, a
2 MB page after three, a 1 GB page after two. -/
def physOf (virt : ℕ) : List Pte → Option Pte
  | [_, _, _, e] =>
    if present e then some ((e &&& pteMask) ||| BitVec.ofNat 64 (virt % 4096)) else none
  | [_, _, e] =>
    if present e then some ((e &&& pteMask) ||| BitVec.ofNat 64 (virt % 2 ^ 21)) else none
  | [_, e] =>
    if present e then some ((e &&& pteMask) ||| BitVec.ofNat 64 (virt % 2 ^ 30)) else none
  | _ => none

/-- The upper two levels hold no size bit: no 1 GB page, and nothing reserved in the directory. -/
def NoGiant (l : List Pte) : Prop := ∀ e ∈ l.take 2, present e = true → huge e = false

/-- A tree of page tables: every table the directory reaches has one place. -/
def Shape (root : ℕ) (place : Place) (m : Machine) : Prop :=
  Forest linkNext FullPath m.mem {root} place

/-- A tree whose tables are in use. -/
structure Tree (root : ℕ) (place : Place) (m : Machine) : Prop where
  pmm : Pmm.Good m.pmm
  forest : Shape root place m
  used : ∀ f x, place f = some x → f ∉ freeSet m

section Indices

variable (v w : ℕ)

lemma fullPath_closed : Closed FullPath := by
  intro xs ys h
  refine ⟨?_, fun i hi => h.index i (by simp [hi])⟩
  have := h.short
  rw [length_append] at this
  omega

lemma indices_lt : ∀ i ∈ indices v, i < 512 := by
  intro i hi
  simp only [indices, mem_cons, not_mem_nil, or_false, pml4I, pdpI, pdI, ptI] at hi
  omega

lemma fullPath_of_append {xs ys : List ℕ} (h : indices v = xs ++ ys) (hne : ys ≠ []) :
    FullPath xs := by
  have hlen := congrArg length h
  have hpos := length_pos_iff.mpr hne
  rw [length_append] at hlen
  refine ⟨?_, fun i hi => indices_lt v i (by simp [h, hi])⟩
  simp only [indices, length_cons, length_nil] at hlen
  omega

lemma readable_indices : Readable FullPath (indices v) := fun _ _ _ h =>
  fullPath_of_append v h (by simp)

lemma indices_last {v i : ℕ} {path ys : List ℕ} (h : indices v = path ++ i :: ys)
    (hlen : path.length = 3) : ys = [] := by
  have := congrArg length h
  simp only [indices, length_append, length_cons, length_nil] at this
  exact length_eq_zero_iff.mp (by omega)

/-- Addresses share their indices exactly when they lie in one page of the 48-bit space. -/
lemma indices_eq_iff : indices v = indices w ↔ v / 4096 % 2 ^ 36 = w / 4096 % 2 ^ 36 := by
  simp only [indices, cons.injEq, and_true, pml4I, pdpI, pdI, ptI]
  omega

end Indices

variable {f : ℕ}

section Links

variable {e : Pte}

lemma linkNext_link (hp : present e = true) (hh : huge e = false) :
    linkNext e = some (pteFrame e) := by
  simp [linkNext, hp, hh]

lemma linkNext_absent (hp : present e = false) : linkNext e = none := by
  simp [linkNext, hp]

lemma linkNext_huge (hh : huge e = true) : linkNext e = none := by
  simp [linkNext, hh]

lemma linkNext_eq_some {u : ℕ} (h : linkNext e = some u) :
    present e = true ∧ huge e = false ∧ pteFrame e = u := by
  unfold linkNext at h
  split at h
  · rename_i hp
    simp only [Bool.and_eq_true, Bool.not_eq_true'] at hp
    exact ⟨hp.1, hp.2, some.inj h⟩
  · simp at h

lemma linkNext_entry {flags : Pte} (hf : f < 2 ^ 40) (h0 : flags.getLsbD 0 = true)
    (h7 : flags.getLsbD 7 = false) (hm : flags &&& pteMask = 0#64) :
    linkNext (frameAddr f ||| flags) = some f := by
  obtain ⟨hp, hfr⟩ := present_of_pteNext (pteNext_linkEntry hf h0 hm)
  rw [linkNext_link hp (huge_linkEntry hf h7), hfr]

end Links

variable {t : ℕ} {e : Pte}

section Walk

variable {m m' : Machine} {root v : ℕ} {place : Place}

lemma walkOf_of_page {w : ℕ} (h : v / 4096 % 2 ^ 36 = w / 4096 % 2 ^ 36) :
    walkOf m root v = walkOf m root w := by
  rw [walkOf, walkOf, (indices_eq_iff v w).mpr h]

lemma walkOf_append {path ys : List ℕ} (ht : descend linkNext m.mem root path = some t)
    (hv : indices v = path ++ ys) :
    walkOf m root v = trail linkNext m.mem root path ++ trail linkNext m.mem t ys := by
  rw [walkOf, hv, trail_append ht]

/-- The guards that every function on page tables goes through on the way to an address: something
is absent, or there is a 2 MB page in the directory `large`, or the page table `small`. -/
def guarded {β : Type} (m : Machine) (root virt : ℕ) (absent : β) (large small : ℕ → β) : β :=
  if !present (m.mem root (pml4I virt)) then absent
  else
    let t3 := child m root (pml4I virt)
    if !present (m.mem t3 (pdpI virt)) then absent
    else
      let t2 := child m t3 (pdpI virt)
      if !present (m.mem t2 (pdI virt)) then absent
      else if huge (m.mem t2 (pdI virt)) then large t2
      else small (child m t2 (pdI virt))

lemma guarded_cases (hg : NoGiant (walkOf m root v)) {β : Type} (absent : β) (large small : ℕ → β) :
    (∃ t, descend linkNext m.mem root [pml4I v, pdpI v, pdI v] = some t ∧
      guarded m root v absent large small = small t) ∨
    (∃ t, descend linkNext m.mem root [pml4I v, pdpI v] = some t ∧
      present (m.mem t (pdI v)) = true ∧ huge (m.mem t (pdI v)) = true ∧
      guarded m root v absent large small = large t) ∨
    ∃ xs e, walkOf m root v = xs ++ [e] ∧ present e = false ∧
      guarded m root v absent large small = absent := by
  unfold walkOf indices at hg ⊢
  unfold guarded
  cases h4 : present (m.mem root (pml4I v)) with
  | false => exact .inr (.inr ⟨[], _, trail_stop (linkNext_absent h4), h4, rfl⟩)
  | true =>
    have hh4 : huge (m.mem root (pml4I v)) = false := by
      refine hg _ ?_ h4
      rw [trail]
      simp
    have hl4 : linkNext (m.mem root (pml4I v)) = some (child m root (pml4I v)) :=
      linkNext_link h4 hh4
    simp only [descend, trail_step hl4, hl4, bind_some, Bool.not_true, Bool.false_eq_true,
      if_false] at hg ⊢
    generalize child m root (pml4I v) = t3 at hg ⊢
    cases h3 : present (m.mem t3 (pdpI v)) with
    | false =>
      rw [trail_stop (linkNext_absent h3)]
      exact .inr (.inr ⟨[_], _, rfl, h3, rfl⟩)
    | true =>
      have hh3 : huge (m.mem t3 (pdpI v)) = false := by
        refine hg _ ?_ h3
        rw [trail]
        simp
      have hl3 : linkNext (m.mem t3 (pdpI v)) = some (child m t3 (pdpI v)) := linkNext_link h3 hh3
      simp only [trail_step hl3, hl3, bind_some, Bool.not_true, Bool.false_eq_true, if_false]
      generalize child m t3 (pdpI v) = t2
      cases h2 : present (m.mem t2 (pdI v)) with
      | false =>
        rw [trail_stop (linkNext_absent h2)]
        exact .inr (.inr ⟨[_, _], _, rfl, h2, rfl⟩)
      | true =>
        cases hh2 : huge (m.mem t2 (pdI v)) with
        | true => exact .inr (.inl ⟨t2, rfl, h2, hh2, by simp⟩)
        | false =>
          have hl2 : linkNext (m.mem t2 (pdI v)) = some (child m t2 (pdI v)) := linkNext_link h2 hh2
          exact .inl ⟨child m t2 (pdI v), by rw [hl2]; rfl, by simp⟩

lemma physOf_absent (xs : List Pte) (h : present e = false) : physOf v (xs ++ [e]) = none := by
  rcases xs with _ | ⟨a, _ | ⟨b, _ | ⟨c, _ | ⟨d, xs⟩⟩⟩⟩
  · rfl
  · simp [physOf, h]
  · simp [physOf, h]
  · simp [physOf, h]
  cases xs with
  | nil => rfl
  | cons x xs => rfl

lemma walkOf_small (ht : descend linkNext m.mem root [pml4I v, pdpI v, pdI v] = some t) :
    ∃ a b c, walkOf m root v = [a, b, c, m.mem t (ptI v)] := by
  obtain ⟨a, b, c, habc⟩ := length_eq_three.mp (trail_length ht)
  refine ⟨a, b, c, ?_⟩
  rw [walkOf_append ht (show indices v = _ ++ [ptI v] from rfl), habc, trail_single]
  rfl

lemma walkOf_large (ht : descend linkNext m.mem root [pml4I v, pdpI v] = some t)
    (hh : huge (m.mem t (pdI v)) = true) : ∃ a b, walkOf m root v = [a, b, m.mem t (pdI v)] := by
  obtain ⟨a, b, hab⟩ := length_eq_two.mp (trail_length ht)
  refine ⟨a, b, ?_⟩
  rw [walkOf_append ht (show indices v = _ ++ [pdI v, ptI v] from rfl), hab,
    trail_stop (linkNext_huge hh)]
  rfl

lemma getPhys_eq (h : NoGiant (walkOf m m.cr3 v)) :
    krustPagingGetPhys m v = physOf v (walkOf m m.cr3 v) := by
  have hg : krustPagingGetPhys m v = guarded m m.cr3 v none
      (fun t => some ((m.mem t (pdI v) &&& pteMask) ||| BitVec.ofNat 64 (v % 2 ^ 21)))
      (fun t => if !present (m.mem t (ptI v)) then none
        else some ((m.mem t (ptI v) &&& pteMask) ||| BitVec.ofNat 64 (v % 4096))) := rfl
  rw [hg]
  rcases guarded_cases h none
    (fun t => some ((m.mem t (pdI v) &&& pteMask) ||| BitVec.ofNat 64 (v % 2 ^ 21)))
    (fun t => if !present (m.mem t (ptI v)) then none
      else some ((m.mem t (ptI v) &&& pteMask) ||| BitVec.ofNat 64 (v % 4096))) with
    ⟨t, ht, heq⟩ | ⟨t, ht, hp, hh, heq⟩ | ⟨xs, e, hw, he, heq⟩
  · obtain ⟨a, b, c, hw⟩ := walkOf_small ht
    rw [heq, hw, physOf]
    cases hp : present (m.mem t (ptI v)) with
    | false => rfl
    | true => rfl
  · obtain ⟨a, b, hw⟩ := walkOf_large ht hh
    rw [heq, hw, physOf, if_pos hp]
  · rw [heq, hw, physOf_absent xs he]

end Walk

section Tree

variable {m m' : Machine} {root v : ℕ} {place : Place}

variable {path : List ℕ}

lemma Shape.place_table (h : Shape root place m) (hp : FullPath path)
    (ht : descend linkNext m.mem root path = some t) : place t = some (root, path) :=
  h.place_of_root fullPath_closed (Set.mem_singleton root) hp ht

lemma Tree.place_table (h : Tree root place m) (hp : FullPath path)
    (ht : descend linkNext m.mem root path = some t) : place t = some (root, path) :=
  h.forest.place_table hp ht

lemma Tree.fresh (h : Tree root place m) (hf : f ∈ freeSet m) : place f = none := by
  cases hp : place f with
  | none => rfl
  | some x => exact absurd hf (h.used f x hp)

/-- A frame taken from the allocator and left unlinked. -/
def Took (m m' : Machine) : Prop :=
  m' = m ∨ ∃ p f, f ∈ freeSet m ∧ Pmm.freeFrames p = (freeSet m).erase f ∧ Pmm.Good p ∧
    m' = fillFrame { m with pmm := p } f fun _ => 0

lemma Tree.took (h : Tree root place m) (ht : Took m m') :
    Tree root place m' ∧ ∀ v, walkOf m' root v = walkOf m root v := by
  rcases ht with rfl | ⟨p, f, hf, hfr, hgo, rfl⟩
  · exact ⟨h, fun _ => rfl⟩
  have hmem : ∀ t x, place t = some x →
      (fillFrame { m with pmm := p } f fun _ => 0).mem t = m.mem t := by
    intro t x ht
    refine update_of_ne ?_ _ _
    rintro rfl
    simp [h.fresh hf] at ht
  refine ⟨⟨hgo, h.forest.congr fun t r path i ht _ => by rw [hmem t _ ht], ?_⟩, fun v => ?_⟩
  · intro g x hg hgf
    refine h.used g x hg ?_
    change g ∈ Pmm.freeFrames p at hgf
    rw [hfr] at hgf
    exact Finset.mem_of_mem_erase hgf
  exact h.forest.trail_eq fullPath_closed (Set.mem_singleton root) (readable_indices v)
    fun u xs i ys hu _ => by rw [hmem u _ hu]

/-- Linking a fresh table: the walks through the new link read its entry and one of the table,
all others are as before. -/
lemma Tree.attach (h : Tree root place m) {p : Pmm.State} {i : ℕ}
    {words : ℕ → Pte} (hf : f ∈ freeSet m) (hgo : Pmm.Good p)
    (hfr : Pmm.freeFrames p = (freeSet m).erase f) (hp : FullPath (path ++ [i]))
    (ht : descend linkNext m.mem root path = some t) (hn : linkNext (m.mem t i) = none)
    (he : linkNext e = some f) (hem : path.length < 2 → ∀ j, linkNext (words j) = none) :
    let m' := attachTable m p f words t i e
    Tree root (update place f (some (root, path ++ [i]))) m' ∧
      descend linkNext m'.mem root (path ++ [i]) = some f ∧
      trail linkNext m'.mem root (path ++ [i]) = trail linkNext m.mem root path ++ [e] ∧
      (∀ v, (∀ ys, indices v ≠ path ++ i :: ys) → walkOf m' root v = walkOf m root v) ∧
      ∀ v j ys, indices v = path ++ i :: j :: ys →
        walkOf m' root v = trail linkNext m.mem root path ++ [e, words j] := by
  intro m'
  have hin : root ∈ ({root} : Set ℕ) := Set.mem_singleton root
  have hp0 : FullPath path := fullPath_closed _ _ hp
  have htp := h.place_table hp0 ht
  have hpl := h.fresh hf
  have hta : ∀ j, FullPath (path ++ [i] ++ [j]) → linkNext (words j) = none := by
    intro j hj
    refine hem ?_ j
    have := hj.short
    simp only [length_append, length_cons, length_nil] at this
    omega
  have hmem : m'.mem = Radix.link m.mem t i e f words := rfl
  have hd : ∀ is, FullPath is → descend linkNext m'.mem root is =
      if root = root ∧ is = path ++ [i] then some f else descend linkNext m.mem root is :=
    fun is his => h.forest.descend_link fullPath_closed hin hp ht hn hpl he hta hin his
  have hpa : descend linkNext m'.mem root path = some t := by
    rw [hd path hp0, if_neg, ht]
    rintro ⟨-, hpa⟩
    have := congrArg length hpa
    simp at this
  have ho : ∀ is, Readable FullPath is → (∀ ys, is ≠ path ++ i :: ys) →
      trail linkNext m'.mem root is = trail linkNext m.mem root is := fun is his hnot =>
    h.forest.trail_link_of_not_through fullPath_closed htp hpl hin his fun ys hys => hnot ys hys.2
  refine ⟨⟨hgo, h.forest.link htp hpl he hta, ?_⟩, ?_, ?_, ?_, ?_⟩
  · intro g x hg
    change g ∉ Pmm.freeFrames p
    rw [hfr]
    by_cases hgf : g = f
    · subst hgf
      exact Finset.notMem_erase g _
    rw [update_of_ne hgf] at hg
    exact fun hmem => h.used g x hg (Finset.mem_of_mem_erase hmem)
  · rw [hd _ hp, if_pos ⟨rfl, rfl⟩]
  · rw [trail_append hpa, trail_single, hmem, link_entry]
    refine congrArg (· ++ [e]) (ho path (fun xs j ys hxs => ?_) fun ys hys => ?_)
    · exact fullPath_closed xs (j :: ys) (hxs ▸ hp0)
    have := congrArg length hys
    simp only [length_append, length_cons] at this
    omega
  · intro v hv
    exact ho (indices v) (readable_indices v) hv
  intro v j ys hv
  rw [walkOf, hv]
  refine h.forest.trail_link_through fullPath_closed hin hp0 ht hpl he j ys ?_
  by_cases hlen : path.length < 2
  · exact .inr (hem hlen j)
  left
  have := congrArg length hv
  simp only [indices, length_append, length_cons, length_nil] at this
  exact length_eq_zero_iff.mp (by omega)

/-- Storing an entry that ends a walk, in a page table or without a link, is seen by the walks
that read it and by no others. -/
lemma Shape.write (h : Shape root place m) {i : ℕ} (hp : FullPath path)
    (ht : descend linkNext m.mem root path = some t)
    (hend : path.length = 3 ∨ linkNext e = none) :
    let m' := writeEntry m t i e
    Shape root place m' ∧ descend linkNext m'.mem root path = some t ∧
      (∀ v ys, indices v = path ++ i :: ys →
        walkOf m' root v = trail linkNext m.mem root path ++ [e]) ∧
      ∀ v, (∀ ys, indices v ≠ path ++ i :: ys) → walkOf m' root v = walkOf m root v := by
  intro m'
  have hin : root ∈ ({root} : Set ℕ) := Set.mem_singleton root
  have htp := h.place_table hp ht
  have hmem : ∀ u j, ¬ (u = t ∧ j = i) → m'.mem u j = m.mem u j := by
    intro u j hne
    change update m.mem t (update (m.mem t) i e) u j = m.mem u j
    by_cases hu : u = t
    · subst hu
      rw [update_self, update_of_ne fun hj => hne ⟨rfl, hj⟩]
    · rw [update_of_ne hu]
  have he : m'.mem t i = e := by
    change update m.mem t (update (m.mem t) i e) t i = e
    rw [update_self, update_self]
  have hsh : Shape root place m' := by
    refine ⟨h.root, fun u r xs j w hu hxs hw => ?_⟩
    by_cases huj : u = t ∧ j = i
    · obtain ⟨rfl, rfl⟩ := huj
      rw [htp, some.injEq, Prod.mk.injEq] at hu
      rcases hend with hlen | hn
      · have := hxs.short
        rw [← hu.2, length_append, hlen] at this
        simp at this
      rw [he, hn] at hw
      simp at hw
    rw [hmem u j huj] at hw
    exact h.child u r xs j w hu hxs hw
  have hsa : ∀ xs k zs u, path = xs ++ k :: zs → descend linkNext m.mem root xs = some u →
      m'.mem u k = m.mem u k := by
    intro xs k zs u hs hu
    refine hmem u k ?_
    rintro ⟨rfl, -⟩
    rw [h.place_table (fullPath_closed xs (k :: zs) (hs ▸ hp)) hu, some.injEq, Prod.mk.injEq] at htp
    have := congrArg length (htp.2.trans hs)
    simp only [length_append, length_cons] at this
    omega
  have hpa : descend linkNext m'.mem root path = some t := by
    rw [← ht]
    exact descend_congr fun xs k zs u hs hu => by rw [hsa xs k zs u hs hu]
  refine ⟨hsh, hpa, fun v ys hv => ?_, fun v hv => ?_⟩
  · rw [walkOf_append hpa hv, trail_congr hsa]
    refine congrArg (_ ++ ·) ?_
    rcases hend with hlen | hn
    · rw [indices_last hv hlen, trail_single, he]
    · rw [trail_stop (by rw [he]; exact hn), he]
  refine h.trail_eq fullPath_closed hin (readable_indices v) fun u xs j ys hu hxs => hmem u j ?_
  rintro ⟨rfl, rfl⟩
  rw [htp, some.injEq, Prod.mk.injEq] at hu
  exact hv ys (hu.2 ▸ hxs)

end Tree

end Elitra.Paging
