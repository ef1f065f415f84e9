import Elitra.Bits

namespace Elitra.Pmm
open Bits List

def pageSize : ℕ := 4096

/-- `!0usize`, the value `krust_pmm_alloc_frame` returns when it finds nothing. -/
def noFrame : ℕ := 2 ^ 64 - 1

/-- The statics of `pmm.rs` with the bytes their pointers address. `bitmap = 0` is null. -/
structure State where
  mem : ℕ → BitVec 8
  bitmap : ℕ
  bitmapSize : ℕ
  totalFrames : ℕ
  firstFree : ℕ

/-- `bm.add(bit / 8)`. -/
def byteAddr (s : State) (bit : ℕ) : ℕ := (s.bitmap + bit / 8) % 2 ^ 64

/-- The guard all three bitmap accessors share. -/
def outside (s : State) (bit : ℕ) : Bool := s.bitmap == 0 || decide (s.bitmapSize ≤ bit / 8)

def bitmapTest (s : State) (bit : ℕ) : Bool :=
  if outside s bit then true else hasBit (s.mem (byteAddr s bit)) (bit % 8)

def writeByte (s : State) (a : ℕ) (v : BitVec 8) : State :=
  { s with mem := Function.update s.mem a v }

def bitmapSet (s : State) (bit : ℕ) : State :=
  if outside s bit then s
  else writeByte s (byteAddr s bit) (s.mem (byteAddr s bit) ||| (1#8 <<< (bit % 8)))

def bitmapClear (s : State) (bit : ℕ) : State :=
  if outside s bit then s
  else writeByte s (byteAddr s bit) (s.mem (byteAddr s bit) &&& ~~~(1#8 <<< (bit % 8)))

/-- The frames a `for i in start..end` loop visits. -/
def frameRange (start stop : ℕ) : List ℕ := List.range' start (stop - start)

def findFirstFree (s : State) : ℕ :=
  ((frameRange s.firstFree s.totalFrames).find? fun i => !bitmapTest s i).getD noFrame

def krustPmmMarkUsed (s : State) (bitmap start stop : ℕ) : State :=
  (frameRange start stop).foldl bitmapSet { s with bitmap := bitmap }

def krustPmmFreeFrames (s : State) (bitmap startFrame count : ℕ) : State :=
  let s := (frameRange startFrame ((startFrame + count) % 2 ^ 64)).foldl bitmapClear
    { s with bitmap := bitmap }
  if startFrame < s.firstFree then { s with firstFree := startFrame } else s

def krustPmmAllocFrame (s : State) : State × ℕ :=
  let frame := findFirstFree s
  if frame = noFrame then (s, noFrame)
  else ({ bitmapSet s frame with firstFree := frame + 1 }, frame)

def krustPmmFreeFrame (s : State) (frame : ℕ) : State :=
  let s := bitmapClear s frame
  if frame < s.firstFree then { s with firstFree := frame } else s

def totalFramesOf (memUpperKb : UInt32) : ℕ := (memUpperKb.toNat + 1024) * 1024 / pageSize

def bitmapSizeOf (memUpperKb : UInt32) : ℕ := (totalFramesOf memUpperKb + 7) / 8

/-- The sum is a `u64` and wraps in the release build the Makefile makes. -/
def usedFramesOf (memUpperKb : UInt32) (placementAddr : UInt64) : ℕ :=
  (placementAddr.toNat + bitmapSizeOf memUpperKb + pageSize - 1) % 2 ^ 64 / pageSize

/-- The loop that writes `0xFF` over the first `n` bytes of the bitmap. -/
def fillUsed (s : State) (n : ℕ) : State :=
  (List.range n).foldl (fun s i => writeByte s ((s.bitmap + i) % 2 ^ 64) 0xFF#8) s

def krustMmCppPmmInit (mem : ℕ → BitVec 8) (memUpperKb : UInt32) (placementAddr : UInt64) : State :=
  let s : State := {
    mem := mem, bitmap := placementAddr.toNat, bitmapSize := bitmapSizeOf memUpperKb,
    totalFrames := totalFramesOf memUpperKb, firstFree := 0 }
  let s := fillUsed s (bitmapSizeOf memUpperKb)
  let usedFrames := usedFramesOf memUpperKb placementAddr
  let s := (frameRange usedFrames s.totalFrames).foldl bitmapClear s
  { s with firstFree := usedFrames }

def krustPmmFreeCount (s : State) : ℕ :=
  if s.bitmap = 0 then 0
  else (List.range s.totalFrames).foldl (fun n i => if bitmapTest s i then n else n + 1) 0

section Accessors

variable (s : State) (b i : ℕ)

@[simp] lemma writeByte_mem (a : ℕ) (v : BitVec 8) :
    (writeByte s a v).mem = Function.update s.mem a v := rfl

/-- Everything of a state except the bytes: no bitmap accessor changes it. -/
def SameHeader (s t : State) : Prop :=
  t.bitmap = s.bitmap ∧ t.bitmapSize = s.bitmapSize ∧ t.totalFrames = s.totalFrames ∧
    t.firstFree = s.firstFree

lemma bitmapSet_header : SameHeader s (bitmapSet s b) := by
  unfold bitmapSet
  split
  · exact ⟨rfl, rfl, rfl, rfl⟩
  · exact ⟨rfl, rfl, rfl, rfl⟩

lemma bitmapClear_header : SameHeader s (bitmapClear s b) := by
  unfold bitmapClear
  split
  · exact ⟨rfl, rfl, rfl, rfl⟩
  · exact ⟨rfl, rfl, rfl, rfl⟩

lemma SameHeader.trans {s t u : State} (h : SameHeader s t) (h' : SameHeader t u) :
    SameHeader s u := by
  obtain ⟨h1, h2, h3, h4⟩ := h
  obtain ⟨g1, g2, g3, g4⟩ := h'
  exact ⟨g1.trans h1, g2.trans h2, g3.trans h3, g4.trans h4⟩

lemma SameHeader.outside {s t : State} (h : SameHeader s t) : outside t b = outside s b := by
  simp [Pmm.outside, h.1, h.2.1]

lemma bitmapTest_eq_of_outside (h : outside s i = true) : bitmapTest s i = true := by
  simp [bitmapTest, h]

/-- A `usize` holds the bitmap size, so two bytes of the bitmap never share an address. -/
lemma byteAddr_inj (hs : s.bitmapSize ≤ 2 ^ 64) (hb : outside s b = false)
    (hi : outside s i = false) (h : byteAddr s b = byteAddr s i) : b / 8 = i / 8 := by
  simp only [outside, Bool.or_eq_false_iff, decide_eq_false_iff_not, not_le] at hb hi
  unfold byteAddr at h
  omega

lemma bitmapTest_change (hs : s.bitmapSize ≤ 2 ^ 64) (g : BitVec 8 → BitVec 8) :
    bitmapTest (if outside s b then s
      else writeByte s (byteAddr s b) (g (s.mem (byteAddr s b)))) i =
      if outside s i = false ∧ outside s b = false ∧ i / 8 = b / 8
      then hasBit (g (s.mem (byteAddr s i))) (i % 8) else bitmapTest s i := by
  cases hb : outside s b with
  | true => simp
  | false =>
    rw [if_neg Bool.false_ne_true]
    change (if outside s i = true then true
      else hasBit (Function.update s.mem _ _ (byteAddr s i)) (i % 8)) = _
    cases hi : outside s i with
    | true => simp [bitmapTest, hi]
    | false =>
      by_cases hq : byteAddr s i = byteAddr s b
      · simp [hq, byteAddr_inj s i b hs hi hb hq]
      · have hd : i / 8 ≠ b / 8 := fun h => hq (by rw [byteAddr, h, byteAddr])
        simp [bitmapTest, hi, hq, hd]

lemma bitmapTest_bitmapSet (hs : s.bitmapSize ≤ 2 ^ 64) :
    bitmapTest (bitmapSet s b) i = (bitmapTest s i || decide (i = b)) := by
  rw [bitmapSet, bitmapTest_change s b i hs (· ||| 1#8 <<< (b % 8)), hasBit_or _ (by omega)]
  by_cases hq : i = b
  · subst hq
    cases hi : outside s i <;> simp [bitmapTest, hi]
  split
  · rename_i h
    have hne : i % 8 ≠ b % 8 := by omega
    simp [bitmapTest, h.1, hq, hne]
  · simp [hq]

lemma bitmapTest_bitmapClear (hs : s.bitmapSize ≤ 2 ^ 64) :
    bitmapTest (bitmapClear s b) i = (bitmapTest s i && (outside s b || !decide (i = b))) := by
  rw [bitmapClear, bitmapTest_change s b i hs (· &&& ~~~(1#8 <<< (b % 8))),
    hasBit_and_not _ (by omega)]
  by_cases hq : i = b
  · subst hq
    cases hi : outside s i <;> simp [bitmapTest, hi]
  split
  · rename_i h
    have hne : i % 8 ≠ b % 8 := by omega
    simp [bitmapTest, h.1, hq, hne]
  · simp [hq]

end Accessors

lemma foldl_header {g : State → ℕ → State} (hg : ∀ s b, SameHeader s (g s b)) (l : List ℕ)
    (s : State) : SameHeader s (l.foldl g s) := by
  induction l generalizing s with
  | nil => exact ⟨rfl, rfl, rfl, rfl⟩
  | cons b l ih => exact (hg s b).trans (ih _)

lemma bitmapTest_foldl_bitmapSet (l : List ℕ) (s : State) (hs : s.bitmapSize ≤ 2 ^ 64) (i : ℕ) :
    bitmapTest (l.foldl bitmapSet s) i = (bitmapTest s i || decide (i ∈ l)) := by
  induction l generalizing s with
  | nil => simp
  | cons b l ih =>
    rw [foldl_cons, ih _ (by rw [(bitmapSet_header s b).2.1]; exact hs),
      bitmapTest_bitmapSet s b i hs]
    simp [mem_cons, Bool.or_assoc]

lemma bitmapTest_foldl_bitmapClear (l : List ℕ) (s : State) (hs : s.bitmapSize ≤ 2 ^ 64) (i : ℕ) :
    bitmapTest (l.foldl bitmapClear s) i =
      (bitmapTest s i && (outside s i || !decide (i ∈ l))) := by
  induction l generalizing s with
  | nil => simp
  | cons b l ih =>
    rw [foldl_cons, ih _ (by rw [(bitmapClear_header s b).2.1]; exact hs),
      bitmapTest_bitmapClear s b i hs, (bitmapClear_header s b).outside]
    by_cases hq : i = b
    · subst hq
      cases outside s i <;> simp
    · simp [hq]

lemma mem_frameRange {a b i : ℕ} : i ∈ frameRange a b ↔ a ≤ i ∧ i < b := by
  rw [frameRange, mem_range'_1]
  omega

end Elitra.Pmm
