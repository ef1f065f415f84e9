import Elitra.PagingCopy

namespace Elitra.Swap
open BitVec Function Paging

variable {β : Type}

def maxSwapSlots : ℕ := 4096
def swapPteMarker : Pte := 0x400

/-- A page of some directory. The kernel's directory is number 0. -/
abbrev Page := ℕ × ℕ

/-- The statics of `swap.rs` after `krust_swap_init`, with the disk by sectors of contents `β`, the
frames by the eight sectors that they fill, the COW counts, and the directories: whether a page has
a page table, and its entry there. `totalSectors` is the size of the area that was passed. -/
structure State (β : Type) where
  lbaStart : ℕ
  totalSectors : ℕ
  totalSlots : ℕ
  used : ℕ → Bool
  disk : ℕ → β
  frame : ℕ → Fin 8 → β
  counts : Cow.State
  table : Page → Bool
  entry : Page → Pte

def krustSwapInit (s : State β) (lbaStart totalSectors : ℕ) (ok : Bool) : State β × ℤ :=
  if totalSectors < 16 then (s, -1)
  else
    let totalSlots := (totalSectors - 8) / 8
    if totalSlots = 0 ∨ maxSwapSlots < totalSlots then (s, -1)
    else if !ok then (s, -1)
    else
      ({ s with
        lbaStart := lbaStart
        totalSectors := totalSectors
        totalSlots := totalSlots
        used := fun _ => false }, 0)

def swapIsPte (e : Pte) : Bool := !present e && (e &&& swapPteMarker != 0) && e != 0

/-- `(pte >> 12) & 0xFFFFF`. -/
def swapPteToSlot (e : Pte) : ℕ := e.toNat / 4096 % 2 ^ 20

def swapSlotToPte (slot : ℕ) : Pte := swapPteMarker ||| frameAddr (slot % 2 ^ 20)

def evictedEntry (slot : ℕ) (old : Pte) : Pte := swapSlotToPte slot ||| ((old &&& 0xFF0) &&& ~~~1)

/-- What a fault puts back. -/
def restoredEntry (f : ℕ) (pte : Pte) : Pte :=
  (frameAddr f &&& pteMask) ||| ((pte &&& 0xFF0) &&& ~~~swapPteMarker) ||| 1#64

def swapAllocSlot (s : State β) : Option ℕ :=
  (List.range s.totalSlots).find? fun i => !s.used i

/-- The first sector of a slot, in 32 bits. -/
def slotLba (s : State β) (slot : ℕ) : ℕ := (s.lbaStart + 8 + slot * 8) % 2 ^ 32

def writePage (disk : ℕ → β) (lba : ℕ) (page : Fin 8 → β) : ℕ → β := fun x =>
  if h : lba ≤ x ∧ x < lba + 8 then page ⟨x - lba, by omega⟩ else disk x

def readPage (disk : ℕ → β) (lba : ℕ) : Fin 8 → β := fun i => disk (lba + i)

/-- `cow_resolve_page` on a present page with the COW bit; `g` is the frame for a copy. -/
def cowResolvePage (s : State β) (x : Page) (g : Option (Fin (2 ^ 40))) : State β :=
  let e := s.entry x
  let r := Cow.krustCowRefdec s.counts (frame32 e)
  if r.2 = 0 then
    { s with counts := r.1, entry := update s.entry x (soleEntry e) }
  else
    match g with
    | none => { s with counts := r.1 }
    | some g =>
      { s with
        counts := r.1
        frame := update s.frame g (s.frame (pteFrame e))
        entry := update s.entry x (copyEntry g) }

/-- `swap_evict_page`. A slot that was taken and given back is as before; `mem` and `io` are whether
there was a buffer and whether the disk took the page. -/
def swapEvictPage (s : State β) (x : Page) (g : Option (Fin (2 ^ 40))) (mem io : Bool) :
    State β × Bool :=
  match swapAllocSlot s with
  | none => (s, false)
  | some slot =>
    if !s.table x then (s, false)
    else
      let old := s.entry x
      if !present old then (s, false)
      else
        let s := if cow old then cowResolvePage s x g else s
        if cow old && cow (s.entry x) then (s, false)
        else if !mem then (s, false)
        else if !io then (s, false)
        else
          -- the frame and the flags are those of the entry before the COW bit was resolved
          ({ s with
            used := update s.used slot true
            disk := writePage s.disk (slotLba s slot) (s.frame (pteFrame old))
            entry := update s.entry x (evictedEntry slot old) }, true)

/-- `swap_handle_fault` with the page's directory active. -/
def swapHandleFault (s : State β) (x : Page) (g : Option (Fin (2 ^ 40))) (io : Bool) :
    State β × Bool :=
  if !s.table x then (s, false)
  else
    let pte := s.entry x
    if !swapIsPte pte then (s, false)
    else
      let slot := swapPteToSlot pte
      match g with
      | none => (s, false)
      | some g =>
        if s.totalSlots ≤ slot then (s, false)
        else if !io then (s, false)
        else
          ({ s with
            used := update s.used slot false
            frame := update s.frame g (readPage s.disk (slotLba s slot))
            entry := update s.entry x (restoredEntry g pte) }, true)

/-- `krust_paging_clone_kernel_dir` and `krust_paging_copy_user_pages`. The clone copies the page
tables of the kernel's lower half word by word, where `cloned` says that there was a frame for the
table; the copy goes over the present entries of `src` and stops before the page `copied` when it
finds no table. -/
def fork (s : State β) (src child copied : ℕ) (cloned tables : ℕ → Bool) : State β :=
  { s with
    counts := (List.range copied).foldl (fun c v => countShare c (s.entry (src, v))) s.counts
    table := fun x => if x.1 = child then tables x.2 else s.table x
    entry := fun x =>
      if x.1 = child then
        if x.2 < copied ∧ present (s.entry (src, x.2)) then forked (s.entry (src, x.2))
        else if cloned x.2 then s.entry (0, x.2)
        else 0
      else if x.1 = src ∧ x.2 < copied ∧ present (s.entry x) then forked (s.entry x)
      else s.entry x }

/-- The loop of `munmap`, which goes over the present pages. -/
def munmap (s : State β) (dir first last : ℕ) : State β :=
  { s with
    entry := fun x =>
      if x.1 = dir ∧ first ≤ x.2 ∧ x.2 < last ∧ present (s.entry x) then 0 else s.entry x }

inductive Op where
  | evict (x : Page) (g : Option (Fin (2 ^ 40))) (mem io : Bool)
  | fault (x : Page) (g : Option (Fin (2 ^ 40))) (io : Bool)
  | fork (src child copied : ℕ) (cloned tables : ℕ → Bool)
  | munmap (dir first last : ℕ)

def Op.exec (s : State β) : Op → Option (State β)
  | .evict x g mem io => some (swapEvictPage s x g mem io).1
  | .fault x g io => some (swapHandleFault s x g io).1
  | .fork src child copied cloned tables =>
    if child = src ∨ child = 0 then none else some (Swap.fork s src child copied cloned tables)
  | .munmap dir first last => some (Swap.munmap s dir first last)

/-- The runs after a successful `krust_swap_init`; `area` is a condition on what it was passed. -/
inductive Reached (area : ℕ → ℕ → Prop) (ok : State β → Op → Prop) : State β → Prop
  | init (s : State β) (lbaStart totalSectors : ℕ) (hnone : ∀ x, swapIsPte (s.entry x) = false)
      (harea : area lbaStart totalSectors)
      (hinit : (krustSwapInit s lbaStart totalSectors true).2 = 0) :
      Reached area ok (krustSwapInit s lbaStart totalSectors true).1
  | step {s s' : State β} (op : Op) (h : Reached area ok s) (hop : ok s op)
      (hs : op.exec s = some s') : Reached area ok s'

section Bits

lemma ff0_getLsbD (k : ℕ) : (0xFF0#64).getLsbD k = decide (4 ≤ k ∧ k < 12) := by
  by_cases hk : k < 64
  · have h : ∀ j : Fin 64, (0xFF0#64).getLsbD j = decide (4 ≤ j.val ∧ j.val < 12) := by decide
    exact h ⟨k, hk⟩
  rw [getLsbD_of_ge _ _ (by omega)]
  exact (decide_eq_false (by omega)).symm

lemma marker_eq (e : Pte) : (e &&& swapPteMarker != 0) = e.getLsbD 10 :=
  flag_eq (by decide) (by decide) e

lemma swapIsPte_present {e : Pte} (h : present e = true) : swapIsPte e = false := by
  simp [swapIsPte, h]

lemma swapPteToSlot_eq (e : Pte) : swapPteToSlot e = pteFrame e % 2 ^ 20 := by
  unfold swapPteToSlot pteFrame
  apply Nat.eq_of_testBit_eq
  intro i
  rw [show (4096 : ℕ) = 2 ^ 12 from rfl, Nat.testBit_mod_two_pow, Nat.testBit_mod_two_pow,
    Nat.testBit_div_two_pow, Nat.testBit_div_two_pow, toNat_and, Nat.testBit_and,
    ← getLsbD, ← getLsbD, pteMask_getLsbD]
  by_cases hi : i < 20
  · simp [hi]
    omega
  · simp [hi]

variable {slot f : ℕ} {old pte : Pte}

lemma evictedFlags_mask : ((old &&& 0xFF0) &&& ~~~1) &&& pteMask = 0#64 := by
  rw [BitVec.and_assoc, BitVec.and_assoc, show (0xFF0 : Pte) &&& (~~~1 &&& pteMask) = 0#64 by decide,
    BitVec.and_zero]

lemma swapPteToSlot_evicted (h : slot < 2 ^ 20) : swapPteToSlot (evictedEntry slot old) = slot := by
  rw [swapPteToSlot_eq, evictedEntry, pteFrame_or evictedFlags_mask, swapSlotToPte, BitVec.or_comm,
    pteFrame_or (by decide), Nat.mod_eq_of_lt h, pteFrame_frameAddr (by omega), Nat.mod_eq_of_lt h]

lemma evicted_getLsbD_low {k : ℕ} (hk : k < 12) :
    (evictedEntry slot old).getLsbD k = (decide (k = 10) || decide (4 ≤ k) && old.getLsbD k) := by
  have hm : swapPteMarker.getLsbD k = decide (k = 10) := by
    have h : ∀ j : Fin 64, swapPteMarker.getLsbD j = decide (j.val = 10) := by decide
    exact h ⟨k, by omega⟩
  have hone : (~~~(1 : Pte)).getLsbD k = decide (k ≠ 0) := by
    have h : ∀ j : Fin 64, (~~~(1 : Pte)).getLsbD j = decide (j.val ≠ 0) := by decide
    exact h ⟨k, by omega⟩
  have hma : (0xFF0 : Pte).getLsbD k = decide (4 ≤ k ∧ k < 12) := ff0_getLsbD k
  rw [evictedEntry, swapSlotToPte, getLsbD_or, getLsbD_or, getLsbD_and,
    getLsbD_and, hm, hone, hma, frameAddr_getLsbD (by omega),
    decide_eq_false (p := 12 ≤ k) (by omega), Bool.false_and, Bool.or_false]
  by_cases h4 : 4 ≤ k
  · simp [h4, hk, show k ≠ 0 by omega]
  · simp [h4]

lemma swapIsPte_evicted : swapIsPte (evictedEntry slot old) = true := by
  have h0 : present (evictedEntry slot old) = false := by
    rw [present_eq, evicted_getLsbD_low (by decide)]
    rfl
  have h10 : (evictedEntry slot old).getLsbD 10 = true := by
    rw [evicted_getLsbD_low (by decide)]
    rfl
  have hne : evictedEntry slot old ≠ 0 := by
    intro hz
    rw [hz] at h10
    exact absurd h10 (by decide)
  rw [swapIsPte, marker_eq, h0, h10]
  simpa using hne

lemma present_restored : present (restoredEntry f pte) = true := by
  rw [present_eq, restoredEntry, getLsbD_or]
  exact Bool.or_true _

lemma pteFrame_restored (h : f < 2 ^ 40) : pteFrame (restoredEntry f pte) = f := by
  have hf : ((pte &&& 0xFF0) &&& ~~~swapPteMarker) &&& pteMask = 0#64 := by
    rw [BitVec.and_assoc, BitVec.and_assoc,
      show (0xFF0 : Pte) &&& (~~~swapPteMarker &&& pteMask) = 0#64 by decide, and_zero]
  rw [restoredEntry, pteFrame_or (by decide), pteFrame_or hf, pteFrame_mask, pteFrame_frameAddr h]

/-- The bits below 4 and above 11 are gone, whatever the page had. -/
lemma restored_getLsbD {k : ℕ} (hk : 0 < k ∧ k < 4 ∨ 52 ≤ k) :
    (restoredEntry f pte).getLsbD k = false := by
  have hm : (0xFF0 : Pte).getLsbD k = false := by
    rw [show (0xFF0 : Pte) = 0xFF0#64 from rfl, ff0_getLsbD]
    exact decide_eq_false (by omega)
  have hone : (1#64).getLsbD k = false := by
    rw [getLsbD_one]
    simp only [Bool.and_eq_false_imp, decide_eq_true_eq, decide_eq_false_iff_not]
    omega
  rw [restoredEntry, getLsbD_or, getLsbD_or, addr_getLsbD_low (by omega),
    getLsbD_and, getLsbD_and, hm, hone]
  simp

end Bits

end Elitra.Swap
