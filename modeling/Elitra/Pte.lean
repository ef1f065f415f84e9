import Elitra.Bits

namespace Elitra.Paging
open BitVec Bits Bool

abbrev Pte := BitVec 64

def cowBit : Pte := 0x200
def pteMask : Pte := 0x000FFFFFFFFFF000
def flagsMask : Pte := 0x8000000000000FFF
def ps2mb : Pte := 0x80
def pagePresent : Pte := 0x1
def pageWrite : Pte := 0x2
def pageUser : Pte := 0x4
def pageNx : Pte := 0x8000000000000000

section Entry

variable (e : Pte)

def present : Bool := e &&& pagePresent != 0
def writable : Bool := e &&& pageWrite != 0
def user : Bool := e &&& pageUser != 0
def noExec : Bool := e &&& pageNx != 0
def cow : Bool := e &&& cowBit != 0
def huge : Bool := e &&& ps2mb != 0

/-- The frame an entry points to, `(e & PTE_MASK) / 4096`. -/
def pteFrame : ℕ := (e &&& pteMask).toNat / 4096

end Entry

/-- The physical address of a frame. -/
def frameAddr (f : ℕ) : Pte := BitVec.ofNat 64 (f * 4096)

variable {k : ℕ}

lemma flag_eq {mask : Pte} (hk : k < 64) (hm : mask = 1#64 <<< k) (e : Pte) :
    (e &&& mask != 0) = e.getLsbD k := by
  subst hm
  exact hasBit_eq e hk

lemma present_eq (e : Pte) : present e = e.getLsbD 0 := flag_eq (by decide) (by decide) e
lemma writable_eq (e : Pte) : writable e = e.getLsbD 1 := flag_eq (by decide) (by decide) e
lemma user_eq (e : Pte) : user e = e.getLsbD 2 := flag_eq (by decide) (by decide) e
lemma noExec_eq (e : Pte) : noExec e = e.getLsbD 63 := flag_eq (by decide) (by decide) e
lemma cow_eq (e : Pte) : cow e = e.getLsbD 9 := flag_eq (by decide) (by decide) e
lemma huge_eq (e : Pte) : huge e = e.getLsbD 7 := flag_eq (by decide) (by decide) e

lemma pteMask_getLsbD (k : ℕ) : pteMask.getLsbD k = decide (12 ≤ k ∧ k < 52) := by
  by_cases hk : k < 64
  · have h : ∀ j : Fin 64, pteMask.getLsbD j = decide (12 ≤ j.val ∧ j.val < 52) := by decide
    exact h ⟨k, hk⟩
  rw [getLsbD_of_ge _ _ (by omega)]
  exact (decide_eq_false (by omega)).symm

lemma pteFrame_lt (e : Pte) : pteFrame e < 2 ^ 40 := by
  have h : (e &&& pteMask).toNat ≤ pteMask.toNat := by
    rw [toNat_and]
    exact Nat.and_le_right
  have hm : pteMask.toNat = 0x000FFFFFFFFFF000 := rfl
  unfold pteFrame
  omega

lemma pteFrame_or {a b : Pte} (h : b &&& pteMask = 0#64) : pteFrame (a ||| b) = pteFrame a := by
  have hd : (a ||| b) &&& pteMask = (a &&& pteMask) ||| (b &&& pteMask) := by
    ext i hi
    simp only [getElem_and, getElem_or, Bool.and_or_distrib_right]
  rw [pteFrame, hd, h, or_zero]
  rfl

lemma pteFrame_mask (e : Pte) : pteFrame (e &&& pteMask) = pteFrame e := by
  rw [pteFrame, BitVec.and_assoc, BitVec.and_self]
  rfl

variable {f : ℕ}

lemma frameAddr_getLsbD (hf : f < 2 ^ 40) (k : ℕ) :
    (frameAddr f).getLsbD k = (decide (12 ≤ k) && f.testBit (k - 12)) := by
  rw [frameAddr, getLsbD_ofNat, show f * 4096 = f <<< 12 by rw [Nat.shiftLeft_eq],
    Nat.testBit_shiftLeft]
  by_cases hk : k < 64
  · simp [hk]
  have : f.testBit (k - 12) = false :=
    Nat.testBit_lt_two_pow (hf.trans_le (Nat.pow_le_pow_right (by decide) (by omega)))
  simp [hk, this]

lemma frameAddr_and_mask (hf : f < 2 ^ 40) : frameAddr f &&& pteMask = frameAddr f := by
  apply eq_of_getLsbD_eq
  intro k _
  rw [getLsbD_and, frameAddr_getLsbD hf, pteMask_getLsbD]
  by_cases hk : k < 52
  · by_cases hk' : 12 ≤ k
    · simp [hk, hk']
    · simp [hk']
  have : f.testBit (k - 12) = false :=
    Nat.testBit_lt_two_pow (hf.trans_le (Nat.pow_le_pow_right (by decide) (by omega)))
  simp [hk, this]

lemma frameAddr_toNat (hf : f < 2 ^ 40) : (frameAddr f).toNat = f * 4096 := by
  rw [frameAddr, toNat_ofNat, Nat.mod_eq_of_lt (by omega)]

lemma pteFrame_frameAddr (hf : f < 2 ^ 40) : pteFrame (frameAddr f) = f := by
  rw [pteFrame, frameAddr_and_mask hf, frameAddr_toNat hf]
  omega

lemma addr_getLsbD_low {e : Pte} (hk : k < 12 ∨ 52 ≤ k) : (e &&& pteMask).getLsbD k = false := by
  rw [getLsbD_and, pteMask_getLsbD, decide_eq_false (by omega), Bool.and_false]

/-- What `krust_paging_map_page` stores. -/
def leafEntry (phys flags : Pte) : Pte := (phys &&& pteMask) ||| (flags &&& flagsMask) ||| 1#64

/-- What the fork stores on both sides for a writable user page. -/
def cowEntry (e : Pte) : Pte :=
  ((e &&& pteMask) &&& pteMask) ||| ((e &&& flagsMask) &&& ~~~pageWrite) ||| cowBit ||| 1#64

/-- What `cow_resolve` stores when the page is not shared any more. -/
def soleEntry (e : Pte) : Pte :=
  ((e &&& pteMask) &&& pteMask) |||
    ((((e &&& flagsMask) &&& ~~~cowBit) ||| pageWrite) &&& flagsMask) ||| 1#64

/-- What `cow_resolve` stores after copying the page. -/
def copyEntry (f : ℕ) : Pte := (frameAddr f &&& pteMask) ||| 7#64

section Bits

variable (e phys flags : Pte) (f : ℕ)

lemma pteFrame_leafEntry : pteFrame (leafEntry phys flags) = pteFrame phys := by
  rw [leafEntry, pteFrame_or (by decide), pteFrame_or, pteFrame_mask]
  rw [BitVec.and_assoc, show flagsMask &&& pteMask = 0#64 by decide, BitVec.and_zero]

lemma present_cowEntry : present (cowEntry e) = true := by
  rw [present_eq, cowEntry, getLsbD_or]
  exact or_true _

lemma cow_cowEntry : cow (cowEntry e) = true := by
  rw [cow_eq, cowEntry, getLsbD_or, getLsbD_or,
    show cowBit.getLsbD 9 = true by decide, Bool.or_true, Bool.true_or]

lemma writable_cowEntry : writable (cowEntry e) = false := by
  have h : pteMask.getLsbD 1 = false ∧ (~~~pageWrite).getLsbD 1 = false ∧
      cowBit.getLsbD 1 = false ∧ (1#64).getLsbD 1 = false := by decide
  simp only [writable_eq, cowEntry, getLsbD_or, getLsbD_and, h, Bool.and_false, Bool.or_false]

lemma flag_cowEntry (hk : 1 < k ∧ k < 9 ∨ k = 63) : (cowEntry e).getLsbD k = e.getLsbD k := by
  have hm : ∀ j : Fin 64, (1 < j.val ∧ j.val < 9 ∨ j.val = 63) →
      pteMask.getLsbD j = false ∧ flagsMask.getLsbD j = true ∧ (~~~pageWrite).getLsbD j = true ∧
        cowBit.getLsbD j = false ∧ (1#64).getLsbD j = false := by decide
  have h := hm ⟨k, by omega⟩ (by simp only; omega)
  simp only at h
  simp only [cowEntry, getLsbD_or, getLsbD_and, h, Bool.and_false, Bool.and_true,
    Bool.or_false, Bool.false_or]

lemma user_cowEntry : user (cowEntry e) = user e := by
  rw [user_eq, user_eq, flag_cowEntry e (by omega)]

lemma pteFrame_cowEntry : pteFrame (cowEntry e) = pteFrame e := by
  rw [cowEntry, pteFrame_or (by decide), pteFrame_or (by decide), pteFrame_or, pteFrame_mask,
    pteFrame_mask]
  rw [BitVec.and_assoc, BitVec.and_assoc,
    show flagsMask &&& (~~~pageWrite &&& pteMask) = 0#64 by decide, BitVec.and_zero]

lemma present_soleEntry : present (soleEntry e) = true := by
  rw [present_eq, soleEntry, getLsbD_or]
  exact or_true _

lemma writable_soleEntry : writable (soleEntry e) = true := by
  have h : pageWrite.getLsbD 1 = true ∧ flagsMask.getLsbD 1 = true := by decide
  simp only [writable_eq, soleEntry, getLsbD_or, getLsbD_and, h, Bool.and_true,
    Bool.or_true, Bool.true_or]

lemma cow_soleEntry : cow (soleEntry e) = false := by
  have h : pteMask.getLsbD 9 = false ∧ (~~~cowBit).getLsbD 9 = false ∧
      pageWrite.getLsbD 9 = false ∧ (1#64).getLsbD 9 = false := by decide
  simp only [cow_eq, soleEntry, getLsbD_or, getLsbD_and, h, Bool.and_false,
    Bool.or_false, Bool.false_and]

lemma user_soleEntry : user (soleEntry e) = user e := by
  have h : pteMask.getLsbD 2 = false ∧ (~~~cowBit).getLsbD 2 = true ∧
      pageWrite.getLsbD 2 = false ∧ flagsMask.getLsbD 2 = true ∧ (1#64).getLsbD 2 = false := by
    decide
  simp only [user_eq, soleEntry, getLsbD_or, getLsbD_and, h, Bool.and_false,
    Bool.and_true, Bool.or_false, Bool.false_or]

lemma pteFrame_soleEntry : pteFrame (soleEntry e) = pteFrame e := by
  rw [soleEntry, pteFrame_or (by decide), pteFrame_or, pteFrame_mask, pteFrame_mask]
  rw [BitVec.and_assoc, show flagsMask &&& pteMask = 0#64 by decide, BitVec.and_zero]

lemma flag_copyEntry {f : ℕ} (hk : k < 12) : (copyEntry f).getLsbD k = decide (k < 3) := by
  have h7 : ∀ j : Fin 12, (7#64).getLsbD j = decide (j.val < 3) := by decide
  rw [copyEntry, getLsbD_or, addr_getLsbD_low (by omega), Bool.false_or]
  exact h7 ⟨k, hk⟩

lemma pteFrame_copyEntry {f : ℕ} (hf : f < 2 ^ 40) : pteFrame (copyEntry f) = f := by
  rw [copyEntry, pteFrame_or (by decide), pteFrame_mask, pteFrame_frameAddr hf]

end Bits

end Elitra.Paging
