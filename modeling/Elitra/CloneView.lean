import Elitra.PageMap

namespace Elitra.Paging
open List Radix

/-- What the clone stores for the page `j` of a 2 MB entry. -/
def cloneSplit (e : Pte) (j : ℕ) : Pte :=
  ((e &&& pteMask) + BitVec.ofNat 64 (j * 0x1000)) ||| ((e &&& flagsMask) &&& ~~~ps2mb) ||| 1#64

/-- The link to the copy of a table, with the flags of the kernel's entry. -/
def copyLink (f : ℕ) (e : Pte) : Pte := frameAddr f ||| ((e &&& flagsMask) &&& ~~~ps2mb) ||| 1#64

section Views

/-- What an access through a walk may do, and the flags of the page itself. -/
structure Access where
  writable : Bool
  user : Bool
  noExec : Bool
  flags : Pte
deriving DecidableEq

/-- Bit 7 is a flag of a 4 KB page, and the size of a larger one. -/
def leafFlags : List Pte → Pte
  | [_, _, _, e] => e &&& flagsMask
  | l => l.getLastD 0 &&& flagsMask &&& ~~~ps2mb

/-- Writing and user access need every level, one level is enough to forbid execution. -/
def accessOf (l : List Pte) : Access :=
  ⟨l.all writable, l.all user, l.any noExec, leafFlags l⟩

/-- The translation of an address by the entries of its walk. -/
def translationOf (v : ℕ) (l : List Pte) : Option (Pte × Access) :=
  (physOf v l).map fun a => (a, accessOf l)

/-- Entries that count the same on the way to a page. -/
structure SameBits (x x' : Pte) : Prop where
  writable : writable x' = writable x
  user : user x' = user x
  noExec : noExec x' = noExec x

/-- The rest of a walk and its counterpart in the copy, from an entry with `n` levels below it. The
page `j` of a 2 MB page is one level further down in the copy. -/
inductive Mirrors (j : ℕ) : ℕ → List Pte → List Pte → Prop
  | leaf (x : Pte) : Mirrors j 0 [x] [x]
  | absent {n : ℕ} {x : Pte} (hx : present x = false) : Mirrors j (n + 1) [x] [0]
  | split {x x' : Pte} (hp : present x = true) (hal : x &&& 0x1FF000#64 = 0#64)
      (hx : SameBits x x') : Mirrors j 1 [x] [x', cloneSplit x j]
  | link {n : ℕ} {x x' : Pte} {l l' : List Pte} (hx : SameBits x x') (hl : Mirrors j n l l') :
      Mirrors j (n + 1) (x :: l) (x' :: l')

section NewEntries

variable {a e : Pte} {f j : ℕ}

lemma copyLink_addr (hf : f < 2 ^ 40) : frameAddr f &&& flagsMask = 0#64 := by
  rw [← frameAddr_and_mask hf, BitVec.and_assoc, show pteMask &&& flagsMask = 0#64 by decide,
    BitVec.and_zero]

lemma cloneSplit_addr (e : Pte) (hj : j < 512) :
    ((e &&& pteMask) + BitVec.ofNat 64 (j * 0x1000)) &&& flagsMask = 0#64 := by
  have hh : ((e &&& pteMask) + BitVec.ofNat 64 (j * 0x1000)).toNat < 2 ^ 53 := by
    have hb : (e &&& pteMask).toNat ≤ pteMask.toNat := by
      rw [BitVec.toNat_and]
      exact Nat.and_le_right
    have hm : pteMask.toNat < 2 ^ 52 := by decide
    rw [BitVec.toNat_add, BitVec.toNat_ofNat]
    omega
  -- the offset may carry into bit 52, which is no flag
  have hm : ∀ k : Fin 64, flagsMask.getLsbD k = true → k.val < 12 ∨ 53 ≤ k.val := by decide
  apply BitVec.eq_of_getLsbD_eq
  intro k hk
  rw [BitVec.getLsbD_and, BitVec.getLsbD_zero]
  cases hbit : flagsMask.getLsbD k with
  | false => rw [Bool.and_false]
  | true =>
    rw [Bool.and_true]
    rcases hm ⟨k, hk⟩ hbit with hlow | hl
    · exact split_getLsbD e j hlow
    rw [BitVec.getLsbD]
    exact Nat.testBit_lt_two_pow (hh.trans_le (Nat.pow_le_pow_right (by decide) hl))

/-- Both kinds of new entries have the flags of the kernel's entry, without the size bit. -/
lemma newEntry_flags (ha : a &&& flagsMask = 0#64) (hp : present e = true) :
    (a ||| ((e &&& flagsMask) &&& ~~~ps2mb) ||| 1#64) &&& flagsMask =
      e &&& flagsMask &&& ~~~ps2mb := by
  apply BitVec.eq_of_getLsbD_eq
  intro k hk
  have hak := congrArg (fun x : Pte => x.getLsbD k) ha
  simp only [BitVec.getLsbD_and, BitVec.getLsbD_zero] at hak
  have hone : ∀ i : Fin 64, (1#64).getLsbD i = decide (i.val = 0) := by decide
  simp only [BitVec.getLsbD_and, BitVec.getLsbD_or, hone ⟨k, hk⟩]
  by_cases h0 : k = 0
  · -- the bit that the clone sets is the present bit the entry had
    subst h0
    rw [present_eq] at hp
    have hm : flagsMask.getLsbD 0 = true ∧ (~~~ps2mb).getLsbD 0 = true := by decide
    simp only [hp, hm, decide_true, Bool.and_true, Bool.or_true]
  cases hf : flagsMask.getLsbD k with
  | false => simp
  | true =>
    rw [hf, Bool.and_true] at hak
    simp [hak, h0]

lemma newEntry_bits (ha : a &&& flagsMask = 0#64) (hp : present e = true) :
    SameBits e (a ||| ((e &&& flagsMask) &&& ~~~ps2mb) ||| 1#64) := by
  have hbit : ∀ k : Fin 64, k.val = 1 ∨ k.val = 2 ∨ k.val = 63 →
      (a ||| ((e &&& flagsMask) &&& ~~~ps2mb) ||| 1#64).getLsbD k = e.getLsbD k := by
    intro k hk
    have hm : ∀ i : Fin 64, i.val = 1 ∨ i.val = 2 ∨ i.val = 63 →
        flagsMask.getLsbD i = true ∧ (~~~ps2mb).getLsbD i = true := by decide
    have h := congrArg (fun x : Pte => x.getLsbD k) (newEntry_flags ha hp)
    simp only [BitVec.getLsbD_and, hm k hk, Bool.and_true] at h
    rw [← h]
  refine ⟨?_, ?_, ?_⟩
  · rw [writable_eq, writable_eq]
    exact hbit 1 (by decide)
  · rw [user_eq, user_eq]
    exact hbit 2 (by decide)
  rw [noExec_eq, noExec_eq]
  exact hbit 63 (by decide)

lemma linkNext_copyLink (hf : f < 2 ^ 40) (e : Pte) : linkNext (copyLink f e) = some f := by
  obtain ⟨hn, hfl⟩ := cloneLink ((e &&& flagsMask) &&& ~~~ps2mb) hf (by
    rw [BitVec.and_assoc, BitVec.and_comm _ pteMask, ← BitVec.and_assoc, flagsMask_and_pteMask]
    exact BitVec.zero_and)
  obtain ⟨hp, hfr⟩ := present_of_pteNext hn
  refine (linkNext_link hp (hfl ?_)).trans (congrArg some hfr)
  rw [BitVec.getLsbD_and, show (~~~ps2mb).getLsbD 7 = false by decide, Bool.and_false]

lemma copyLink_of_flat (h : huge e = false) :
    copyLink f e = frameAddr f ||| (e &&& flagsMask) ||| 1#64 := by
  have hke : (e &&& flagsMask) &&& ~~~ps2mb = e &&& flagsMask := by
    apply BitVec.eq_of_getLsbD_eq
    intro k hk
    have hm : ∀ i : Fin 64, (~~~ps2mb).getLsbD i = decide (i.val ≠ 7) := by decide
    rw [BitVec.getLsbD_and, hm ⟨k, hk⟩]
    by_cases h7 : k = 7
    · subst h7
      rw [huge_eq] at h
      rw [BitVec.getLsbD_and, h]
      rfl
    · simp [h7]
  rw [copyLink, hke]

lemma present_cloneSplit (e : Pte) (j : ℕ) : present (cloneSplit e j) = true := by
  rw [present_eq, cloneSplit, BitVec.getLsbD_or]
  exact Bool.or_true _

end NewEntries

variable {v n : ℕ} {l l' xs xs' : List Pte}

lemma all_congr_of_sameBits (h : List.Forall₂ SameBits xs xs') :
    xs'.all writable = xs.all writable ∧ xs'.all user = xs.all user ∧
      xs'.any noExec = xs.any noExec := by
  induction h with
  | nil => exact ⟨rfl, rfl, rfl⟩
  | cons hx _ ih =>
    simp only [all_cons, any_cons, hx.writable, hx.user, hx.noExec, ih, and_self]

lemma Mirrors.translationOf_eq (h : Mirrors (ptI v) n l l') (hxs : List.Forall₂ SameBits xs xs')
    (hn : xs.length + n = 3) : translationOf v (xs' ++ l') = translationOf v (xs ++ l) := by
  induction h generalizing xs xs' with
  | leaf x =>
    obtain ⟨hw, hu, hx⟩ := all_congr_of_sameBits hxs
    obtain ⟨a, b, c, rfl⟩ := length_eq_three.mp (show xs.length = 3 by omega)
    obtain ⟨a', b', c', rfl⟩ := length_eq_three.mp (show xs'.length = 3 by
      rw [← hxs.length_eq]; rfl)
    have ha : accessOf ([a', b', c'] ++ [x]) = accessOf ([a, b, c] ++ [x]) := by
      unfold accessOf
      rw [all_append, all_append, any_append, all_append, all_append, any_append, hw, hu, hx]
      rfl
    unfold translationOf
    rw [ha]
    rfl
  | absent hx =>
    unfold translationOf
    rw [physOf_absent xs hx, physOf_absent xs' present_zero]
    rfl
  | @split x x' hp hal hb =>
    obtain ⟨hw, hu, hx⟩ := all_congr_of_sameBits hxs
    obtain ⟨a, b, rfl⟩ := length_eq_two.mp (show xs.length = 2 by omega)
    obtain ⟨a', b', rfl⟩ := length_eq_two.mp (show xs'.length = 2 by
      rw [← hxs.length_eq]; rfl)
    have hj : ptI v < 512 := Nat.mod_lt _ (by decide)
    have hf : cloneSplit x (ptI v) &&& flagsMask = x &&& flagsMask &&& ~~~ps2mb :=
      newEntry_flags (cloneSplit_addr x hj) hp
    have hs : SameBits x (cloneSplit x (ptI v)) := newEntry_bits (cloneSplit_addr x hj) hp
    have had : cloneSplit x (ptI v) &&& pteMask =
        (x &&& pteMask) ||| BitVec.ofNat 64 (ptI v * 4096) := by
      refine addr_split hal ?_ hj
      rw [BitVec.and_assoc, BitVec.and_comm _ pteMask, ← BitVec.and_assoc, flagsMask_and_pteMask]
      exact BitVec.zero_and
    have ha : accessOf ([a', b'] ++ [x', cloneSplit x (ptI v)]) = accessOf ([a, b] ++ [x]) := by
      unfold accessOf
      rw [all_append, all_append, any_append, all_append, all_append, any_append, hw, hu, hx]
      simp only [all_cons, all_nil, any_cons, any_nil, hb.writable,
        hb.user, hb.noExec, hs.writable, hs.user, hs.noExec, Bool.and_self,
        Bool.or_self, Bool.and_true, Bool.or_false, cons_append, nil_append, leafFlags,
        hf, getLastD_cons, getLastD_nil]
    unfold translationOf
    rw [ha]
    exact congrArg _ (physOf_split hp (present_cloneSplit x _) had)
  | @link k x x' l l' hx _ ih =>
    -- the pair of links joins the entries read before
    have hsn : List.Forall₂ SameBits (xs ++ [x]) (xs' ++ [x']) :=
      rel_append hxs (List.Forall₂.cons hx List.Forall₂.nil)
    have h := ih hsn (by rw [length_append, length_singleton]; omega)
    rwa [append_assoc, append_assoc] at h

end Views

end Elitra.Paging
