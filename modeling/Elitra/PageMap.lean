import Elitra.PageWalk

namespace Elitra.Paging
open List Option Radix

/-- What the split of a 2 MB entry stores for its page `j`. -/
def splitEntry (e : Pte) (j : ℕ) : Pte :=
  ((e &&& pteMask) + BitVec.ofNat 64 (j * 4096)) |||
    (e &&& ~~~ps2mb &&& ~~~pteMask &&& ~~~1#64) ||| 1#64

/-- A 2 MB entry on this walk has a base on a 2 MB border: bits 12 to 20, with the PAT bit among
them, are clear. -/
def Aligned (l : List Pte) : Prop :=
  ∀ e, l[2]? = some e → present e = true → huge e = true → e &&& 0x1FF000#64 = 0#64

/-- Nothing changed for an address: the same entries are read, or neither walk ends in a page. -/
def Same (v : ℕ) (l l' : List Pte) : Prop :=
  l' = l ∨ (physOf v l = none ∧ physOf v l' = none ∧ NoGiant l')

/-- User code may access the address: it is mapped, and the user bit is set at every level. -/
def UserAccess (v : ℕ) (l : List Pte) : Prop := (physOf v l).isSome = true ∧ ∀ e ∈ l, user e = true

instance (v : ℕ) (l : List Pte) : Decidable (UserAccess v l) :=
  decidable_of_iff (((physOf v l).isSome && l.all user) = true) (by simp [UserAccess])

variable {j : ℕ} {e : Pte}

section Entries

variable {v : ℕ}

lemma Same.refl (l : List Pte) : Same v l l := .inl rfl

lemma Same.trans {l l' l'' : List Pte} (h : Same v l l') (h' : Same v l' l'') : Same v l l'' := by
  rcases h' with rfl | ⟨hn', hn'', hg⟩
  · exact h
  rcases h with rfl | ⟨hn, -, -⟩
  · exact .inr ⟨hn', hn'', hg⟩
  · exact .inr ⟨hn, hn'', hg⟩

variable {l l' : List Pte}

lemma Same.phys (h : Same v l l') : physOf v l' = physOf v l := by
  rcases h with rfl | ⟨hn, hn', -⟩
  · rfl
  · rw [hn, hn']

lemma Same.access (h : Same v l l') : UserAccess v l' ↔ UserAccess v l := by
  rcases h with rfl | ⟨hn, hn', -⟩
  · rfl
  · simp [UserAccess, hn, hn']

lemma Same.noGiant (h : Same v l l') (hl : NoGiant l) : NoGiant l' := by
  rcases h with rfl | ⟨-, -, hg⟩
  · exact hl
  · exact hg

lemma present_splitEntry (e : Pte) (j : ℕ) : present (splitEntry e j) = true := by
  rw [present_eq, splitEntry, BitVec.getLsbD_or]
  exact Bool.or_true _

/-- The pages of a split lie where the 2 MB page had them, whatever flags they get. -/
lemma addr_split {flags : Pte} (hal : e &&& 0x1FF000#64 = 0#64)
    (hfl : flags &&& pteMask = 0#64) (hj : j < 512) :
    (((e &&& pteMask) + BitVec.ofNat 64 (j * 4096)) ||| flags ||| 1#64) &&& pteMask =
      (e &&& pteMask) ||| BitVec.ofNat 64 (j * 4096) := by
  have hb : ∀ k, 12 ≤ k → k < 21 → e.getLsbD k = false := by
    intro k hlow hh
    have hm : ∀ i : Fin 64, 12 ≤ i.val → i.val < 21 → (0x1FF000#64).getLsbD i = true := by
      decide
    have h := congrArg (fun x : Pte => x.getLsbD k) hal
    simp only [BitVec.getLsbD_and, hm ⟨k, by omega⟩ hlow hh, Bool.and_true] at h
    rw [h]
    exact BitVec.getLsbD_zero
  have hoff : ∀ k, (BitVec.ofNat 64 (j * 4096)).getLsbD k = true → 12 ≤ k ∧ k < 21 := by
    intro k hk
    rw [BitVec.getLsbD_ofNat, Bool.and_eq_true] at hk
    constructor
    · by_contra hlow
      rw [show j * 4096 = j * 2 ^ 12 by rfl, Nat.testBit_mul_two_pow] at hk
      simp [hlow] at hk
    by_contra hh
    rw [Nat.testBit_lt_two_pow (lt_of_lt_of_le (show j * 4096 < 2 ^ 21 by omega)
      (Nat.pow_le_pow_right (by decide) (by omega)))] at hk
    simp at hk
  have hd : (e &&& pteMask) &&& BitVec.ofNat 64 (j * 4096) = 0#64 := by
    apply BitVec.eq_of_getLsbD_eq
    intro k _
    rw [BitVec.getLsbD_and, BitVec.getLsbD_and, BitVec.getLsbD_zero]
    cases hk : (BitVec.ofNat 64 (j * 4096)).getLsbD k with
    | false => rw [Bool.and_false]
    | true => rw [hb k (hoff k hk).1 (hoff k hk).2, Bool.false_and, Bool.false_and]
  rw [BitVec.add_eq_or_of_and_eq_zero _ _ hd]
  apply BitVec.eq_of_getLsbD_eq
  intro k hk
  have hone : ∀ i : Fin 64, 12 ≤ i.val → (1#64).getLsbD i = false := by decide
  have hf := congrArg (fun x : Pte => x.getLsbD k) hfl
  simp only [BitVec.getLsbD_and, pteMask_getLsbD, BitVec.getLsbD_zero] at hf
  simp only [BitVec.getLsbD_and, BitVec.getLsbD_or, pteMask_getLsbD]
  by_cases hin : 12 ≤ k ∧ k < 52
  · simp only [hin, and_self, decide_true, Bool.and_true] at hf
    simp [hin, hone ⟨k, hk⟩ hin.1, hf]
  have hz : (BitVec.ofNat 64 (j * 4096)).getLsbD k = false := by
    rw [← Bool.not_eq_true]
    intro h
    have := hoff k h
    omega
  rw [hz]
  simp [hin]

lemma addr_splitEntry (hal : e &&& 0x1FF000#64 = 0#64) (hj : j < 512) :
    splitEntry e j &&& pteMask = (e &&& pteMask) ||| BitVec.ofNat 64 (j * 4096) := by
  refine addr_split hal ?_ hj
  rw [BitVec.and_assoc, BitVec.and_assoc, BitVec.and_assoc,
    show ~~~ps2mb &&& (~~~pteMask &&& (~~~1#64 &&& pteMask)) = 0#64 by decide, BitVec.and_zero]

lemma offset_split (v : ℕ) : BitVec.ofNat 64 (ptI v * 4096) ||| BitVec.ofNat 64 (v % 4096) =
    BitVec.ofNat 64 (v % 2 ^ 21) := by
  apply BitVec.eq_of_getLsbD_eq
  intro k hk
  rw [BitVec.getLsbD_or, BitVec.getLsbD_ofNat, BitVec.getLsbD_ofNat, BitVec.getLsbD_ofNat,
    decide_eq_true hk, Bool.true_and, Bool.true_and, Bool.true_and,
    show ptI v * 4096 = (v / 2 ^ 12 % 2 ^ 9) * 2 ^ 12 from rfl, Nat.testBit_mul_two_pow,
    show (4096 : ℕ) = 2 ^ 12 from rfl, Nat.testBit_mod_two_pow, Nat.testBit_mod_two_pow,
    Nat.testBit_mod_two_pow, Nat.testBit_div_two_pow]
  by_cases hlow : 12 ≤ k
  · rw [Nat.sub_add_cancel hlow, decide_eq_false (show ¬ k < 12 by omega), decide_eq_true hlow,
      show decide (k - 12 < 9) = decide (k < 21) from decide_eq_decide.mpr (by omega)]
    simp
  rw [decide_eq_false hlow, decide_eq_true (show k < 12 by omega),
    decide_eq_true (show k < 21 by omega)]
  simp

lemma physOf_split {a b e' p : Pte} (hp : present e = true) (hs : present p = true)
    (ha : p &&& pteMask = (e &&& pteMask) ||| BitVec.ofNat 64 (ptI v * 4096)) :
    physOf v [a, b, e', p] = physOf v [a, b, e] := by
  simp only [physOf, hs, hp, if_true, ha, BitVec.or_assoc, offset_split]

end Entries

variable {f v : ℕ} {m' : Machine} {place : Place}

section Steps

variable {root virt : ℕ} {m₀ m : Machine} {path : List ℕ} {t i : ℕ} {e : Pte}

/-- A mapping on its way down: `m₀` is the machine before the call, `t` the table it has come to.
Where a table was made, `m₀` has none at this place and the way to it is closed to user code. -/
structure Reaching (root : ℕ) (m₀ m : Machine) (path : List ℕ) (t : ℕ) : Prop where
  tree : ∃ place, Tree root place m
  table : descend linkNext m.mem root path = some t
  same : ∀ v, Same v (walkOf m₀ root v) (walkOf m root v)
  fresh : m = m₀ ∨ (descend linkNext m₀.mem root path = none ∧
    (∀ j, present (m.mem t j) = false) ∧ ∃ e ∈ trail linkNext m.mem root path, user e = false)

/-- A call that returned `false`. -/
structure Failed (root : ℕ) (m₀ m : Machine) : Prop where
  tree : ∃ place, Tree root place m
  same : ∀ v, Same v (walkOf m₀ root v) (walkOf m root v)

lemma user_linkEntry (hf : f < 2 ^ 40) : user (frameAddr f ||| 3#64) = false := by
  rw [user_eq, BitVec.getLsbD_or, frameAddr_getLsbD hf]
  rfl

variable {ys : List ℕ}

lemma exists_cons_of_short (hp : FullPath (path ++ [i]))
    (hv : indices v = path ++ i :: ys) : ∃ j zs, ys = j :: zs := by
  cases ys with
  | nil =>
    have hlen := congrArg length hv
    have hs := hp.short
    simp only [indices, length_append, length_cons, length_nil] at hlen hs
    omega
  | cons j zs => exact ⟨j, zs, rfl⟩

lemma noGiant_fresh (ht : descend linkNext m.mem root path = some t)
    (he : linkNext e = some f) : NoGiant (trail linkNext m.mem root path ++ [e, 0]) := by
  intro a ha hp
  have hmem := mem_of_mem_take ha
  rw [mem_append, mem_cons, mem_singleton] at hmem
  rcases hmem with hmem | rfl | rfl
  · obtain ⟨u, hu⟩ := next_of_mem_trail ht a hmem
    exact (linkNext_eq_some hu).2.1
  · exact (linkNext_eq_some he).2.1
  · exact absurd hp (by decide)

lemma Reaching.took (h : Reaching root m₀ m path t) (ht : Took m m') : Failed root m₀ m' := by
  obtain ⟨place, htr⟩ := h.tree
  obtain ⟨htr', hw⟩ := htr.took ht
  refine ⟨⟨place, htr'⟩, fun v => ?_⟩
  rw [hw v]
  exact h.same v

lemma ensureTable_cases (hg : Pmm.Good m.pmm) (t i : ℕ) (flags : Pte) :
    (present (m.mem t i) = true ∧ ensureTable m t i flags = (m, true)) ∨
      (present (m.mem t i) = false ∧ ((∃ m', Took m m' ∧ ensureTable m t i flags = (m', false)) ∨
        ∃ p f, f ∈ freeSet m ∧ Pmm.freeFrames p = (freeSet m).erase f ∧ Pmm.Good p ∧
          ensureTable m t i flags =
            (attachTable m p f (fun _ => 0) t i (frameAddr f ||| flags), true))) := by
  unfold ensureTable
  cases hpr : present (m.mem t i) with
  | true => exact .inl ⟨rfl, rfl⟩
  | false =>
    refine .inr ⟨rfl, ?_⟩
    rcases tableAlloc_cases hg with ⟨heq, -⟩ | ⟨p, f, hf, hfr, hp, heq⟩
    · rw [heq]
      exact .inl ⟨m, .inl rfl, rfl⟩
    rw [heq]
    by_cases hf0 : f = 0
    · rw [if_pos hf0]
      exact .inl ⟨_, .inr ⟨p, f, hf, hfr, hp, rfl⟩, rfl⟩
    rw [if_neg hf0]
    exact .inr ⟨p, f, hf, hfr, hp, rfl⟩

lemma splitHuge_cases (hg : Pmm.Good m.pmm) (t i : ℕ) :
    (huge (m.mem t i) = false ∧ splitHuge m t i = (m, true)) ∨
      (huge (m.mem t i) = true ∧ ((∃ m', Took m m' ∧ splitHuge m t i = (m', false)) ∨
        ∃ p f, f ∈ freeSet m ∧ Pmm.freeFrames p = (freeSet m).erase f ∧ Pmm.Good p ∧
          splitHuge m t i = (attachTable m p f (splitEntry (m.mem t i)) t i
            (frameAddr f ||| 3#64), true))) := by
  unfold splitHuge
  cases hh : huge (m.mem t i) with
  | false => exact .inl ⟨rfl, rfl⟩
  | true =>
    refine .inr ⟨rfl, ?_⟩
    rcases tableAlloc_cases hg with ⟨heq, -⟩ | ⟨p, f, hf, hfr, hp, heq⟩
    · rw [heq]
      exact .inl ⟨m, .inl rfl, rfl⟩
    rw [heq]
    by_cases hf0 : f = 0
    · rw [if_pos hf0]
      exact .inl ⟨_, .inr ⟨p, f, hf, hfr, hp, rfl⟩, rfl⟩
    rw [if_neg hf0]
    refine .inr ⟨p, f, hf, hfr, hp, ?_⟩
    dsimp only
    rw [if_pos rfl, fillFrame_fillFrame]
    rfl

lemma Reaching.ensure (h : Reaching root m₀ m path t) (hp : FullPath (path ++ [i]))
    (hfl : present (m.mem t i) = true → huge (m.mem t i) = false) :
    let r := ensureTable m t i 3#64
    (r.2 = true → linkNext (r.1.mem t i) = some (child r.1 t i) ∧
      Reaching root m₀ r.1 (path ++ [i]) (child r.1 t i)) ∧
    (r.2 = false → Failed root m₀ r.1) := by
  obtain ⟨place, ht⟩ := h.tree
  rcases ensureTable_cases ht.pmm t i 3#64 with ⟨hpr, heq⟩ | ⟨hpr, ⟨m', hto, heq⟩ |
    ⟨p, f, hf, hfr, hg, heq⟩⟩
  · rw [heq]
    have hl : linkNext (m.mem t i) = some (child m t i) := linkNext_link hpr (hfl hpr)
    refine ⟨fun _ => ⟨hl, h.tree, ?_, h.same, .inl ?_⟩, by simp⟩
    · rw [descend_snoc, h.table, bind_some, hl]
    rcases h.fresh with hm | ⟨-, habs, -⟩
    · exact hm
    · simp [habs i] at hpr
  · rw [heq]
    exact ⟨by simp, fun _ => h.took hto⟩
  rw [heq]
  have hn : linkNext (m.mem t i) = none := linkNext_absent hpr
  have hlt := ht.pmm.mem_lt hf
  have he : linkNext (frameAddr f ||| 3#64) = some f :=
    linkNext_entry hlt (by decide) (by decide) (by decide)
  obtain ⟨ht', hd, htr, ho, hth⟩ := ht.attach hf hg hfr hp h.table hn he
    (fun _ _ => linkNext_absent present_zero)
  have hen : (attachTable m p f (fun _ => 0) t i (frameAddr f ||| 3#64)).mem t i =
      frameAddr f ||| 3#64 := link_entry
  have hc : child (attachTable m p f (fun _ => 0) t i (frameAddr f ||| 3#64)) t i = f := by
    rw [child, hen]
    exact (linkNext_eq_some he).2.2
  dsimp only
  rw [hc]
  refine ⟨fun _ => ⟨?_, ⟨_, ht'⟩, ?_, fun v => (h.same v).trans ?_, .inr ⟨?_, ?_, ?_⟩⟩, by simp⟩
  · rw [hen, he]
  · exact hd
  · by_cases hv : ∃ ys, indices v = path ++ i :: ys
    · obtain ⟨ys, hv⟩ := hv
      obtain ⟨j, zs, rfl⟩ := exists_cons_of_short hp hv
      rw [hth v j zs hv, walkOf_append h.table hv, trail_stop hn]
      refine .inr ⟨physOf_absent _ hpr, ?_, noGiant_fresh h.table he⟩
      rw [show ∀ xs : List Pte, xs ++ [frameAddr f ||| 3#64, 0] = (xs ++ [frameAddr f ||| 3#64]) ++ [0]
        by simp]
      exact physOf_absent _ present_zero
    rw [ho v fun ys hys => hv ⟨ys, hys⟩]
    exact Same.refl _
  · rw [descend_snoc]
    rcases h.fresh with rfl | ⟨hn', -, -⟩
    · rw [h.table, bind_some, hn]
    · rw [hn', bind_none]
  · intro j
    have hft : f ≠ t := by
      rintro rfl
      have := ht.place_table (fullPath_closed _ _ hp) h.table
      simp [ht.fresh hf] at this
    change present (Radix.link m.mem t i _ f (fun _ => 0) f j) = false
    rw [link_new hft]
    exact present_zero
  refine ⟨frameAddr f ||| 3#64, ?_, user_linkEntry hlt⟩
  rw [htr]
  simp

lemma Reaching.flat (h : Reaching root m₀ m path t)
    (hv : indices virt = path ++ i :: ys) (hlen : path.length < 2)
    (hg : NoGiant (walkOf m₀ root virt)) :
    present (m.mem t i) = true → huge (m.mem t i) = false := by
  intro hp
  rcases h.fresh with rfl | ⟨-, habs, -⟩
  · refine hg _ ?_ hp
    rw [walkOf_append h.table hv, take_append, mem_append, trail_length h.table]
    right
    rw [trail]
    cases hk : 2 - path.length with
    | zero => omega
    | succ k => simp
  · simp [habs i] at hp

/-- The address lies in the 2 MB page of `virt`, which the call has split. -/
def Splits (root virt : ℕ) (m₀ m : Machine) (v : ℕ) : Prop :=
  ∃ a b e link, present e = true ∧ huge e = true ∧ NoGiant [a, b] ∧ user link = false ∧
    walkOf m₀ root virt = [a, b, e] ∧ walkOf m₀ root v = [a, b, e] ∧
    walkOf m root v = [a, b, link, splitEntry e (ptI v)]

/-- A call that returned `true`: the page has the entry `e`, behind the old upper entries or, where
one of them was missing or a 2 MB page, behind a new one without the user bit. -/
structure Mapped (root virt : ℕ) (e : Pte) (m₀ m : Machine) : Prop where
  tree : ∃ place, Tree root place m
  here : ∃ up, up.length = 3 ∧ (∀ u ∈ up, huge u = false) ∧
    (∀ v, indices v = indices virt → walkOf m root v = up ++ [e]) ∧
    ((∃ old, walkOf m₀ root virt = up ++ [old]) ∨
      ((walkOf m₀ root virt).length < 4 ∧ ∃ u ∈ up, user u = false))
  other : ∀ v, indices v ≠ indices virt →
    Same v (walkOf m₀ root v) (walkOf m root v) ∨
      ((walkOf m₀ root virt).length < 4 ∧ Splits root virt m₀ m v)

lemma walk_short (hv : indices virt = path ++ ys) (hp : path.length ≤ 3)
    (h : descend linkNext m.mem root path = none) : (walkOf m root virt).length < 4 := by
  rw [walkOf, hv, trail_append_none h]
  exact Nat.lt_of_le_of_lt (trail_length_le root path) (by omega)

lemma Reaching.store (h : Reaching root m₀ m path t) (hv : indices virt = path ++ [i]) (e : Pte) :
    Mapped root virt e m₀ (writeEntry m t i e) := by
  obtain ⟨place, ht⟩ := h.tree
  have hp : FullPath path := fullPath_of_append virt hv (by simp)
  have hlen : path.length = 3 := by
    have := congrArg length hv
    simp only [indices, length_append, length_cons, length_nil] at this
    omega
  obtain ⟨hs, -, hh, ho⟩ := ht.forest.write hp h.table (.inl hlen)
  refine ⟨⟨place, ht.pmm, hs, ht.used⟩, ⟨trail linkNext m.mem root path, ?_, ?_, ?_, ?_⟩, ?_⟩
  · rw [trail_length h.table, hlen]
  · intro u hu
    obtain ⟨w, hw⟩ := next_of_mem_trail h.table u hu
    exact (linkNext_eq_some hw).2.1
  · exact fun v hsa => hh v [] (hsa.trans hv)
  · rcases h.fresh with rfl | ⟨hn, -, hc⟩
    · exact .inl ⟨m.mem t i, by rw [walkOf_append h.table hv, trail_single]⟩
    · exact .inr ⟨walk_short hv hp.short hn, hc⟩
  intro v hne
  left
  rw [ho v fun ys hys => hne ?_]
  · exact h.same v
  · rw [hys, hv, indices_last hys hlen]

lemma indices_split (virt : ℕ) :
    indices virt = [pml4I virt, pdpI virt] ++ pdI virt :: ptI virt :: [] := rfl

lemma Tree.storeSplit (htr : Tree root place m₀) {t2 : ℕ}
    (ht : descend linkNext m₀.mem root [pml4I virt, pdpI virt] = some t2)
    (hpr : present (m₀.mem t2 (pdI virt)) = true) (hh : huge (m₀.mem t2 (pdI virt)) = true)
    {p : Pmm.State} (hf : f ∈ freeSet m₀)
    (hfr : Pmm.freeFrames p = (freeSet m₀).erase f) (hg : Pmm.Good p) (e : Pte) :
    let m := attachTable m₀ p f (splitEntry (m₀.mem t2 (pdI virt))) t2 (pdI virt) (frameAddr f ||| 3#64)
    Mapped root virt e m₀ (writeEntry m (child m t2 (pdI virt)) (ptI virt) e) := by
  intro m
  have hlt := htr.pmm.mem_lt hf
  have he : linkNext (frameAddr f ||| 3#64) = some f :=
    linkNext_entry hlt (by decide) (by decide) (by decide)
  have hn := linkNext_huge hh
  have hp : FullPath ([pml4I virt, pdpI virt] ++ [pdI virt]) :=
    fullPath_of_append virt (show indices virt = _ ++ [ptI virt] from rfl) (by simp)
  obtain ⟨htr', hd, htl, hr, hth⟩ := htr.attach hf hg hfr hp ht hn he
    (fun hlen => absurd hlen (by simp))
  have hc : child m t2 (pdI virt) = f := by
    have hen : m.mem t2 (pdI virt) = frameAddr f ||| 3#64 := link_entry
    rw [child, hen]
    exact (linkNext_eq_some he).2.2
  rw [hc]
  obtain ⟨hsh, -, hhe, ho⟩ :=
    htr'.forest.write hp hd (i := ptI virt) (e := e) (.inl rfl)
  -- The two upper entries stay, the third is the new link.
  obtain ⟨a, b, hab⟩ : ∃ a b, trail linkNext m₀.mem root [pml4I virt, pdpI virt] = [a, b] :=
    length_eq_two.mp (trail_length ht)
  have hwa : ∀ v, (∃ j, indices v = [pml4I virt, pdpI virt] ++ pdI virt :: j :: []) →
      walkOf m₀ root v = [a, b, m₀.mem t2 (pdI virt)] := by
    rintro v ⟨j, hv⟩
    rw [walkOf_append ht hv, trail_stop hn, hab]
    rfl
  have hl : ∀ u ∈ [a, b], huge u = false := by
    intro u hu
    obtain ⟨w, hw⟩ := next_of_mem_trail ht u (hab ▸ hu)
    exact (linkNext_eq_some hw).2.1
  have hs : (walkOf m₀ root virt).length < 4 := by
    rw [hwa virt ⟨_, indices_split virt⟩]
    simp
  refine ⟨⟨_, htr'.pmm, hsh, htr'.used⟩, ⟨[a, b, frameAddr f ||| 3#64], rfl, ?_, ?_, .inr ⟨hs, ?_⟩⟩, ?_⟩
  · intro u hu
    rw [show [a, b, frameAddr f ||| 3#64] = [a, b] ++ [frameAddr f ||| 3#64] from rfl,
      mem_append, mem_singleton] at hu
    rcases hu with hu | rfl
    · exact hl u hu
    · exact (linkNext_eq_some he).2.1
  · intro v hsa
    rw [hhe v [] hsa, htl, hab]
    rfl
  · exact ⟨frameAddr f ||| 3#64, by simp, user_linkEntry hlt⟩
  intro v hne
  have hk : walkOf (writeEntry m f (ptI virt) e) root v = walkOf m root v := by
    refine ho v fun ys hys => hne ?_
    rw [hys, indices_last hys rfl]
    rfl
  by_cases hv : ∃ j, indices v = [pml4I virt, pdpI virt] ++ pdI virt :: j :: []
  · obtain ⟨j, hj⟩ := hv
    have hpt : j = ptI v := by
      simp only [indices, cons_append, nil_append, cons.injEq, and_true] at hj
      exact hj.2.2.2.symm
    refine .inr ⟨hs, a, b, m₀.mem t2 (pdI virt), frameAddr f ||| 3#64, hpr, hh, ?_,
      user_linkEntry hlt, hwa virt ⟨_, indices_split virt⟩, hwa v ⟨j, hj⟩, ?_⟩
    · exact fun u hu _ => hl u (mem_of_mem_take hu)
    rw [hk, hth v j [] hj, hab, hpt]
    rfl
  left
  rw [hk, hr v fun ys hys => hv ?_]
  · exact Same.refl _
  obtain ⟨j, zs, rfl⟩ := exists_cons_of_short hp hys
  refine ⟨j, ?_⟩
  have := congrArg length hys
  simp only [indices, length_append, length_cons, length_nil] at this
  rw [hys, length_eq_zero_iff.mp (show zs.length = 0 by omega)]

lemma mapPageIn_inplace (ht : descend linkNext m.mem root [pml4I virt, pdpI virt, pdI virt] = some t)
    (phys flags : Pte) : krustPagingMapPageIn m root virt phys flags =
      (writeEntry m t (ptI virt) (leafEntry phys flags), true) := by
  simp only [descend, bind_eq_some_iff] at ht
  obtain ⟨t3, h4, t2, h3, t1, h2, ht1⟩ := ht
  obtain rfl : t1 = t := some.inj ht1
  obtain ⟨hp4, -, rfl⟩ := linkNext_eq_some h4
  obtain ⟨hp3, -, rfl⟩ := linkNext_eq_some h3
  obtain ⟨hp2, hh2, rfl⟩ := linkNext_eq_some h2
  simp only [krustPagingMapPageIn, ensureTable, splitHuge, child, hp4, hp3, hp2, hh2, if_true,
    Loop.seq, Bool.false_eq_true, if_false]

/-- One step down in a mapping call: it gives up where there is no table to be had. -/
lemma Reaching.seq_ensure {rest : Machine → Machine × Bool} {done : Machine → Prop}
    (h : Reaching root m₀ m path t) (hp : FullPath (path ++ [i]))
    (hf : present (m.mem t i) = true → huge (m.mem t i) = false)
    (hre : ∀ m', linkNext (m'.mem t i) = some (child m' t i) →
      Reaching root m₀ m' (path ++ [i]) (child m' t i) →
      ((rest m').2 = true → done (rest m').1) ∧ ((rest m').2 = false → Failed root m₀ (rest m').1)) :
    let r := Loop.seq (ensureTable m t i 3#64) rest
    (r.2 = true → done r.1) ∧ (r.2 = false → Failed root m₀ r.1) := by
  obtain ⟨hgo, hfa⟩ := h.ensure hp hf
  rw [Loop.seq_eq]
  by_cases hr : (ensureTable m t i 3#64).2 = true
  · rw [if_pos hr]
    exact hre _ (hgo hr).1 (hgo hr).2
  rw [if_neg hr]
  exact ⟨fun h => absurd h hr, hfa⟩

lemma mapPageIn_spec (ht : Tree root place m₀)
    (hg : NoGiant (walkOf m₀ root virt)) (phys flags : Pte) :
    let r := krustPagingMapPageIn m₀ root virt phys flags
    (r.2 = true → Mapped root virt (leafEntry phys flags) m₀ r.1) ∧
      (r.2 = false → Failed root m₀ r.1) := by
  have hs : Reaching root m₀ m₀ [] root :=
    ⟨⟨place, ht⟩, rfl, fun v => Same.refl _, .inl rfl⟩
  have hp4 : FullPath ([] ++ [pml4I virt]) :=
    fullPath_of_append virt (show indices virt = _ ++ [pdpI virt, pdI virt, ptI virt] from rfl)
      (by simp)
  have hp3 : FullPath (([] ++ [pml4I virt]) ++ [pdpI virt]) :=
    fullPath_of_append virt (show indices virt = _ ++ [pdI virt, ptI virt] from rfl) (by simp)
  have hp2 : FullPath ((([] ++ [pml4I virt]) ++ [pdpI virt]) ++ [pdI virt]) :=
    fullPath_of_append virt (show indices virt = _ ++ [ptI virt] from rfl) (by simp)
  unfold krustPagingMapPageIn
  refine hs.seq_ensure hp4 (hs.flat rfl (by simp) hg) fun m4 _ h4 => ?_
  refine h4.seq_ensure hp3 (h4.flat rfl (by simp) hg) fun m3 _ h3 => ?_
  generalize child m4 root (pml4I virt) = t3 at h3 ⊢
  dsimp only
  generalize child m3 t3 (pdpI virt) = t2 at h3 ⊢
  by_cases hl : present (m3.mem t2 (pdI virt)) = true ∧ huge (m3.mem t2 (pdI virt)) = true
  · -- A 2 MB page: so far nothing was made, and the entry is the one of the machine before.
    obtain ⟨hpr, hh⟩ := hl
    have hm : m3 = m₀ := by
      rcases h3.fresh with hm | ⟨-, habs, -⟩
      · exact hm
      · simp [habs] at hpr
    subst hm
    have hens : ensureTable m3 t2 (pdI virt) 3#64 = (m3, true) := by
      rw [ensureTable, if_pos hpr]
    rw [hens, Loop.seq_eq, if_pos rfl, Loop.seq_eq]
    rcases splitHuge_cases ht.pmm t2 (pdI virt) with ⟨hh', -⟩ | ⟨-, ⟨m', hto, heq⟩ |
      ⟨p, f, hf, hfr, hgo, heq⟩⟩
    · simp [hh] at hh'
    · rw [heq, if_neg (by simp)]
      exact ⟨by simp, fun _ => h3.took hto⟩
    rw [heq, if_pos rfl]
    exact ⟨fun _ => ht.storeSplit h3.table hpr hh hf hfr hgo _, by simp⟩
  have hfl : present (m3.mem t2 (pdI virt)) = true → huge (m3.mem t2 (pdI virt)) = false := by
    intro hpr
    rw [← Bool.not_eq_true]
    exact fun hh => hl ⟨hpr, hh⟩
  refine h3.seq_ensure hp2 hfl fun m2 hli h2 => ?_
  have hsp : splitHuge m2 t2 (pdI virt) = (m2, true) := by
    rw [splitHuge, if_neg]
    rw [(linkNext_eq_some hli).2.1]
    simp
  rw [hsp, Loop.seq_eq, if_pos rfl]
  exact ⟨fun _ => h2.store rfl _, by simp⟩

end Steps

section Translation

variable {m : Machine} {root virt : ℕ} {place : Place}

/-- What `krust_paging_get_phys` returns for an address when the directory `root` is active. -/
def physIn (m : Machine) (root virt : ℕ) : Option Pte :=
  krustPagingGetPhys { m with cr3 := root } virt

lemma physIn_eq (h : NoGiant (walkOf m root v)) :
    physIn m root v = physOf v (walkOf m root v) := getPhys_eq h

lemma present_leafEntry (phys flags : Pte) : present (leafEntry phys flags) = true := by
  rw [present_eq, leafEntry, BitVec.getLsbD_or]
  exact Bool.or_true _

lemma leafEntry_mask (phys flags : Pte) : leafEntry (phys &&& pteMask) flags = leafEntry phys flags := by
  rw [leafEntry, BitVec.and_assoc, BitVec.and_self]
  rfl

lemma addr_leafEntry (phys flags : Pte) : leafEntry phys flags &&& pteMask = phys &&& pteMask := by
  have hm : ∀ i : Fin 64, 12 ≤ i.val ∧ i.val < 52 →
      flagsMask.getLsbD i = false ∧ (1#64).getLsbD i = false := by decide
  apply BitVec.eq_of_getLsbD_eq
  intro k hk
  simp only [leafEntry, BitVec.getLsbD_and, BitVec.getLsbD_or, pteMask_getLsbD]
  by_cases hin : 12 ≤ k ∧ k < 52
  · simp [hin, hm ⟨k, hk⟩ hin]
  · simp [hin]

lemma user_leafEntry (phys : Pte) {flags : Pte} (h : flags.getLsbD 2 = true) :
    user (leafEntry phys flags) = true := by
  have hm : flagsMask.getLsbD 2 = true := by decide
  simp only [user_eq, leafEntry, BitVec.getLsbD_or, BitVec.getLsbD_and, h, hm, Bool.and_true,
    Bool.or_true, Bool.true_or]

lemma physOf_four {up : List Pte} (hlen : up.length = 3) (v : ℕ) (he : present e = true) :
    physOf v (up ++ [e]) = some ((e &&& pteMask) ||| BitVec.ofNat 64 (v % 4096)) := by
  obtain ⟨a, b, c, rfl⟩ := length_eq_three.mp hlen
  simp [physOf, he]

/-- The result of a mapping call, read with `krust_paging_get_phys`: on success the page of `virt`
is at the page of `phys` and all other addresses are where they were; on failure all are. -/
structure MapOk (m : Machine) (root virt : ℕ) (phys : Pte) (r : Machine × Bool) : Prop where
  here : r.2 = true →
    physIn r.1 root virt = some ((phys &&& pteMask) ||| BitVec.ofNat 64 (virt % 4096))
  other : r.2 = true → ∀ v, v / 4096 % 2 ^ 36 ≠ virt / 4096 % 2 ^ 36 →
    physIn r.1 root v = physIn m root v
  failed : r.2 = false → ∀ v, physIn r.1 root v = physIn m root v

lemma Same.physIn (h : Same v (walkOf m root v) (walkOf m' root v))
    (hg : NoGiant (walkOf m root v)) : physIn m' root v = physIn m root v := by
  rw [physIn_eq hg, physIn_eq (h.noGiant hg), h.phys]

lemma mapPageIn_ok (h : Tree root place m) (hg : ∀ v, NoGiant (walkOf m root v))
    (hal : Aligned (walkOf m root virt)) (phys flags : Pte) :
    MapOk m root virt phys (krustPagingMapPageIn m root virt phys flags) := by
  obtain ⟨hm, hf⟩ := mapPageIn_spec h (hg virt) phys flags
  generalize krustPagingMapPageIn m root virt phys flags = r at hm hf
  refine ⟨fun hr => ?_, fun hr v hv => ?_, fun hr v => ((hf hr).same v).physIn (hg v)⟩
  · obtain ⟨up, hlen, hl, hw, -⟩ := (hm hr).here
    have hgi : NoGiant (walkOf r.1 root virt) := by
      rw [hw virt rfl]
      intro e he _
      rw [take_append_of_le_length (by omega)] at he
      exact hl e (mem_of_mem_take he)
    rw [physIn_eq hgi, hw virt rfl, physOf_four hlen _ (present_leafEntry _ _), addr_leafEntry]
  have hne : indices v ≠ indices virt := fun heq => hv ((indices_eq_iff v virt).mp heq)
  rcases (hm hr).other v hne with hs | ⟨-, a, b, e, link, hp, hh, hab, -, hvi, hv0, hv1⟩
  · exact hs.physIn (hg v)
  rw [hvi] at hal
  have hgi : NoGiant (walkOf r.1 root v) := by
    rw [hv1]
    exact hab
  rw [physIn_eq (hg v), physIn_eq hgi, hv0, hv1, physOf_split hp
    (present_splitEntry e _) (addr_splitEntry (hal e rfl hp hh) (Nat.mod_lt _ (by decide)))]

/-- Both mapping calls, for every tree without 1 GB pages: where the page lies in a 2 MB page, its
base must be on a 2 MB border. -/
theorem mapPage_translates (h : Tree root place m) (hg : ∀ v, NoGiant (walkOf m root v))
    (hal : Aligned (walkOf m root virt)) (phys flags : Pte) :
    MapOk m root virt phys (krustPagingMapPageIn m root virt phys flags) ∧
      (m.cr3 = root → MapOk m root virt phys (krustPagingMapPage m virt phys flags)) := by
  refine ⟨mapPageIn_ok h hg hal phys flags, ?_⟩
  rintro rfl
  exact mapPageIn_ok h hg hal phys flags

end Translation

def smallPmm : Pmm.State := ⟨fun a => if a = 0x100 then 0xFF#8 else 0#8, 0x100, 2, 16, 8⟩

/-- A directory in frame 1 with a page directory in frame 3, whose first entry is `e`, and a page
table in frame 4 with the entry `p` for the page at 0x5000. -/
def smallMachine (e p : Pte) : Machine where
  mem t i :=
    if i = 0 then
      if t = 1 then 0x2007#64 else if t = 2 then 0x3007#64 else if t = 3 then e else 0#64
    else if t = 4 ∧ i = 5 then p else 0#64
  pmm := smallPmm
  cow := ⟨0, 0, fun _ => 0⟩
  pml4 := 1
  cr3 := 1

def smallPlace : Place := fun t =>
  if t = 1 then some (1, []) else if t = 2 then some (1, [0]) else if t = 3 then some (1, [0, 0])
  else if t = 4 then some (1, [0, 0, 0]) else none

lemma smallPmm_good : Pmm.Good smallPmm := by
  refine ⟨?_, ?_, by decide⟩
  · unfold Pmm.Sized
    decide
  unfold Pmm.HintOk
  decide

lemma smallMachine_tree {p : Pte} (he : linkNext e = none ∨ linkNext e = some 4) :
    Tree 1 smallPlace (smallMachine e p) := by
  refine ⟨smallPmm_good, ⟨?_, ?_⟩, ?_⟩
  · rintro r rfl
    rfl
  · intro t r path i u ht hp hu
    have hz : t ≠ 4 → i ≠ 0 → (smallMachine e p).mem t i = 0#64 := by
      intro ht hi
      rw [smallMachine]
      simp [ht, hi]
    have hfi : t ≠ 4 → i = 0 := by
      intro ht
      by_contra hi
      rw [hz ht hi, linkNext_absent (by decide)] at hu
      simp at hu
    unfold smallPlace at ht
    split_ifs at ht with h1 h2 h3 h4
    · obtain rfl := hfi (by omega)
      obtain ⟨rfl, rfl⟩ : 1 = r ∧ [] = path := by simpa using ht
      have h := (linkNext_eq_some hu).2.2
      rw [h1, show (smallMachine e p).mem 1 0 = 0x2007#64 from rfl] at h
      rw [← h]
      decide
    · obtain rfl := hfi (by omega)
      obtain ⟨rfl, rfl⟩ : 1 = r ∧ [0] = path := by simpa using ht
      have h := (linkNext_eq_some hu).2.2
      rw [h2, show (smallMachine e p).mem 2 0 = 0x3007#64 from rfl] at h
      rw [← h]
      decide
    · obtain rfl := hfi (by omega)
      obtain ⟨rfl, rfl⟩ : 1 = r ∧ [0, 0] = path := by simpa using ht
      rw [h3, show (smallMachine e p).mem 3 0 = e from rfl] at hu
      rcases he with he | he
      · simp [he] at hu
      rw [he, some.injEq] at hu
      rw [← hu]
      decide
    obtain ⟨rfl, rfl⟩ : 1 = r ∧ [0, 0, 0] = path := by simpa using ht
    have := hp.short
    simp at this
  intro f x hf
  unfold smallPlace at hf
  change f ∉ Pmm.freeFrames smallPmm
  split_ifs at hf with h1 h2 h3 h4
  · subst h1
    decide
  · subst h2
    decide
  · subst h3
    decide
  subst h4
  decide

lemma smallMachine_noGiant (e p : Pte) (v : ℕ) : NoGiant (walkOf (smallMachine e p) 1 v) := by
  have htop : ∀ i, (smallMachine e p).mem 1 i = 0x2007#64 ∨ (smallMachine e p).mem 1 i = 0#64 := by
    intro i
    by_cases hi : i = 0
    · exact .inl (by simp [smallMachine, hi])
    · exact .inr (by simp [smallMachine, hi])
  have hmid : ∀ i, (smallMachine e p).mem 2 i = 0x3007#64 ∨ (smallMachine e p).mem 2 i = 0#64 := by
    intro i
    by_cases hi : i = 0
    · exact .inl (by simp [smallMachine, hi])
    · exact .inr (by simp [smallMachine, hi])
  intro a ha _
  unfold walkOf indices at ha
  rcases htop (pml4I v) with h4 | h4
  · rw [trail_step (u := 2) (by rw [h4]; decide), h4] at ha
    rcases hmid (pdpI v) with h3 | h3
    · rw [trail_step (u := 3) (by rw [h3]; decide), h3] at ha
      simp only [take_succ_cons, take_zero, mem_cons, not_mem_nil, or_false] at ha
      rcases ha with rfl | rfl
      · decide
      · decide
    rw [trail_stop (by rw [h3]; decide), h3] at ha
    simp only [take_succ_cons, take_nil, mem_cons, not_mem_nil, or_false] at ha
    rcases ha with rfl | rfl
    · decide
    · decide
  rw [trail_stop (by rw [h4]; decide), h4] at ha
  simp only [take_succ_cons, take_nil, mem_cons, not_mem_nil, or_false] at ha
  rw [ha]
  decide

theorem mapPage_translates_split :
    MapOk (smallMachine 0x200087#64 0) 1 0x5000 0x7000#64
      (krustPagingMapPageIn (smallMachine 0x200087#64 0) 1 0x5000 0x7000#64 7#64) :=
  (mapPage_translates (smallMachine_tree (.inl (by decide))) (smallMachine_noGiant _ _)
    (fun e he _ _ => by
      rw [show (walkOf (smallMachine 0x200087#64 0) 1 0x5000)[2]? = some 0x200087#64 by decide] at he
      cases he
      decide) 0x7000#64 7#64).1

/-- A 2 MB page with the PAT bit 12: the split takes the bit for part of the base, and adds the
page numbers to it. An unaligned `phys` loses its low bits. -/
theorem mapPage_moves_pat_page :
    Tree 1 smallPlace (smallMachine 0x201087#64 0) ∧
      (∀ v, NoGiant (walkOf (smallMachine 0x201087#64 0) 1 v)) ∧
      (krustPagingMapPageIn (smallMachine 0x201087#64 0) 1 0x5000 0x7234#64 7#64).2 = true ∧
      physIn (krustPagingMapPageIn (smallMachine 0x201087#64 0) 1 0x5000 0x7234#64 7#64).1 1 0x5000 =
        some 0x7000#64 ∧
      physIn (smallMachine 0x201087#64 0) 1 0x3000 = some 0x203000#64 ∧
      physIn (krustPagingMapPageIn (smallMachine 0x201087#64 0) 1 0x5000 0x7234#64 7#64).1 1 0x3000 =
        some 0x204000#64 :=
  ⟨smallMachine_tree (.inl (by decide)), smallMachine_noGiant _ _, by decide, by decide, by decide,
    by decide⟩

section Access

variable {m m' : Machine} {root virt : ℕ} {place : Place}

/-- A successful mapping with the user bit opens its page to user code and leaves the access to all
other pages alone exactly when the page table of the page was there before, not hidden behind a
2 MB page, and user code could pass the three levels above it: every entry the call makes on the
way has the flags 3. -/
theorem mapPage_user_iff (h : Tree root place m) (hg : NoGiant (walkOf m root virt))
    {phys flags : Pte} (hu : flags.getLsbD 2 = true)
    (hr : krustPagingMapPageIn m root virt phys flags = (m', true)) :
    ((∀ v, v / 4096 % 2 ^ 36 = virt / 4096 % 2 ^ 36 → UserAccess v (walkOf m' root v)) ∧
      ∀ v, v / 4096 % 2 ^ 36 ≠ virt / 4096 % 2 ^ 36 →
        (UserAccess v (walkOf m' root v) ↔ UserAccess v (walkOf m root v))) ↔
    (walkOf m root virt).length = 4 ∧ ∀ e ∈ (walkOf m root virt).take 3, user e = true := by
  have hs := (mapPageIn_spec h hg phys flags).1
  rw [hr] at hs
  obtain ⟨-, ⟨up, hlen, -, hw, hold⟩, ho⟩ := hs rfl
  have hone : ∀ old, (up ++ [old]).length = 4 ∧ (up ++ [old]).take 3 = up := by
    intro old
    constructor
    · simp [hlen]
    · rw [← hlen, take_left]
  constructor
  · rintro ⟨hop, -⟩
    have hall := (hop virt rfl).2
    rw [hw virt rfl] at hall
    rcases hold with ⟨old, hold⟩ | ⟨-, u, hu, hc⟩
    · rw [hold, (hone old).2]
      exact ⟨(hone old).1, fun e he => hall e (mem_append_left _ he)⟩
    have := hall u (mem_append_left _ hu)
    simp [hc] at this
  rintro ⟨hf, hall⟩
  refine ⟨fun v hv => ?_, fun v hv => ?_⟩
  · rw [hw v ((indices_eq_iff v virt).mpr hv)]
    refine ⟨by rw [physOf_four hlen _ (present_leafEntry _ _)]; rfl, fun e he => ?_⟩
    rcases hold with ⟨old, hold⟩ | ⟨hsh, -⟩
    · rw [hold, (hone old).2] at hall
      rcases mem_append.mp he with he | he
      · exact hall e he
      rw [mem_singleton.mp he]
      exact user_leafEntry phys hu
    · omega
  rcases ho v fun heq => hv ((indices_eq_iff v virt).mp heq) with hsa | ⟨hsh, -⟩
  · exact hsa.access
  · omega

theorem mapPage_user_iff_table :
    UserAccess 0x5000
      (walkOf (krustPagingMapPageIn (smallMachine 0x4007#64 0) 1 0x5000 0x7000#64 7#64).1 1 0x5000) :=
  ((mapPage_user_iff (smallMachine_tree (.inr (by decide))) (smallMachine_noGiant _ _ _)
    (by decide : (7#64).getLsbD 2 = true)
    (Prod.ext rfl (by decide : (krustPagingMapPageIn (smallMachine 0x4007#64 0) 1 0x5000 0x7000#64
      7#64).2 = true))).mpr ⟨by decide, by
        rw [show (walkOf (smallMachine 0x4007#64 0) 1 0x5000).take 3 =
          [0x2007#64, 0x3007#64, 0x4007#64] by decide]
        simp [user, pageUser]⟩).1 0x5000 rfl

/-- A page below an entry that was absent, and a page inside a 2 MB user page: neither is open to
user code, and the split closes the rest of the 2 MB page. -/
theorem mapPage_closed_to_user :
    let m := smallMachine 0x200087#64 0
    let r := krustPagingMapPageIn m 1 0x40000000 0x7000#64 7#64
    let r' := krustPagingMapPageIn m 1 0x5000 0x7000#64 7#64
    r.2 = true ∧ ¬ UserAccess 0x40000000 (walkOf r.1 1 0x40000000) ∧
      r'.2 = true ∧ ¬ UserAccess 0x5000 (walkOf r'.1 1 0x5000) ∧
      UserAccess 0x3000 (walkOf m 1 0x3000) ∧ ¬ UserAccess 0x3000 (walkOf r'.1 1 0x3000) := by
  decide

end Access

end Elitra.Paging
