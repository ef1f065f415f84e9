import Elitra.Pmm

namespace Elitra.Pmm
open List

/-- What the bitmap stands for: the frames below `TOTAL_FRAMES` that are free. -/
def freeFrames (s : State) : Finset ℕ :=
  (Finset.range s.totalFrames).filter fun i => bitmapTest s i = false

/-- No free frame lies below the cached hint. -/
def HintOk (s : State) : Prop :=
  ∀ f, f < s.firstFree → f < s.totalFrames → bitmapTest s f = true

/-- The statics fit their machine types. -/
def Sized (s : State) : Prop := s.bitmapSize ≤ 2 ^ 64 ∧ s.totalFrames < noFrame

variable {s : State}

lemma mem_freeFrames {f : ℕ} : f ∈ freeFrames s ↔ f < s.totalFrames ∧ bitmapTest s f = false := by
  simp [freeFrames]

lemma findFirstFree_none (h : HintOk s) (ht : s.totalFrames < noFrame) :
    findFirstFree s = noFrame ↔ freeFrames s = ∅ := by
  unfold findFirstFree
  cases hf : (frameRange s.firstFree s.totalFrames).find? fun i => !bitmapTest s i with
  | none =>
    simp only [Option.getD_none, true_iff]
    rw [find?_eq_none] at hf
    apply Finset.eq_empty_of_forall_notMem
    intro f hmem
    obtain ⟨hlt, hfr⟩ := mem_freeFrames.mp hmem
    by_cases hlow : f < s.firstFree
    · simp [h f hlow hlt] at hfr
    have := hf f (mem_frameRange.mpr ⟨by omega, hlt⟩)
    simp [hfr] at this
  | some i =>
    have hi := mem_frameRange.mp (mem_of_find?_eq_some hf)
    have hfr := find?_some hf
    have hne : i ≠ noFrame := by omega
    simp only [Option.getD_some, hne, false_iff]
    apply Finset.ne_empty_of_mem (a := i)
    exact mem_freeFrames.mpr ⟨hi.2, by simpa using hfr⟩

lemma findFirstFree_least (h : HintOk s) (hne : findFirstFree s ≠ noFrame) :
    IsLeast (freeFrames s : Set ℕ) (findFirstFree s) := by
  unfold findFirstFree at hne ⊢
  cases hf : (frameRange s.firstFree s.totalFrames).find? fun i => !bitmapTest s i with
  | none => simp [hf] at hne
  | some i =>
    have hi := mem_frameRange.mp (mem_of_find?_eq_some hf)
    have hfr := find?_some hf
    refine ⟨Finset.mem_coe.mpr (mem_freeFrames.mpr ⟨hi.2, by simpa using hfr⟩), ?_⟩
    intro f hmem
    obtain ⟨hlt, hf0⟩ := mem_freeFrames.mp (Finset.mem_coe.mp hmem)
    by_contra hlow
    rw [Option.getD_some, not_le] at hlow
    -- Below the hint nothing is free; from the hint to `i` the search saw used bits.
    by_cases hh : f < s.firstFree
    · simp [h f hh hlt] at hf0
    rw [frameRange, find?_range'_eq_some] at hf
    simpa [hf0] using hf.2.2 f (by omega) hlow

lemma HintOk.alloc (h : HintOk s) (hs : Sized s) : HintOk (krustPmmAllocFrame s).1 := by
  by_cases hn : findFirstFree s = noFrame
  · simpa [krustPmmAllocFrame, hn] using h
  obtain ⟨-, hl⟩ := findFirstFree_least h hn
  simp only [krustPmmAllocFrame, hn, ↓reduceIte]
  intro f hf hlt
  change f < findFirstFree s + 1 at hf
  change f < (bitmapSet s (findFirstFree s)).totalFrames at hlt
  change bitmapTest (bitmapSet s (findFirstFree s)) f = true
  rw [(bitmapSet_header s _).2.2.1] at hlt
  rw [bitmapTest_bitmapSet _ _ _ hs.1]
  by_cases hq : f = findFirstFree s
  · simp [hq]
  by_contra hfr
  have hfr' : bitmapTest s f = false := by simpa [hq] using hfr
  have := hl (Finset.mem_coe.mpr (mem_freeFrames.mpr ⟨hlt, hfr'⟩))
  omega

lemma HintOk.bitmapSet (h : HintOk s) (hs : Sized s) (l : List ℕ) :
    HintOk (l.foldl bitmapSet s) := by
  obtain ⟨-, -, ht, hf⟩ := foldl_header bitmapSet_header l s
  intro f hlow hlt
  rw [hf] at hlow
  rw [ht] at hlt
  rw [bitmapTest_foldl_bitmapSet l s hs.1, h f hlow hlt, Bool.true_or]

lemma HintOk.bitmapClear (h : HintOk s) (hs : Sized s) (l : List ℕ) {low : ℕ}
    (hl : ∀ f ∈ l, low ≤ f) :
    HintOk (let t := l.foldl Pmm.bitmapClear s
      if low < t.firstFree then { t with firstFree := low } else t) := by
  obtain ⟨-, -, ht, hff⟩ := foldl_header bitmapClear_header l s
  have hk : ∀ f, f < low → f < s.firstFree → f < s.totalFrames →
      bitmapTest (l.foldl Pmm.bitmapClear s) f = true := by
    intro f hlow hlt hlt'
    have hnot : f ∉ l := fun hmem => by have := hl f hmem; omega
    rw [bitmapTest_foldl_bitmapClear l s hs.1, h f hlt hlt']
    simp [hnot]
  simp only [hff]
  split
  · intro f hf hlt
    change f < low at hf
    change f < (l.foldl Pmm.bitmapClear s).totalFrames at hlt
    rw [ht] at hlt
    exact hk f hf (by omega) hlt
  intro f hf hlt
  rw [hff] at hf
  rw [ht] at hlt
  exact hk f (by omega) hf hlt

lemma krustPmmFreeCount_eq (s : State) : krustPmmFreeCount s = (freeFrames s).card := by
  have hfo : ∀ (l : List ℕ) (n : ℕ), l.foldl (fun n i => if bitmapTest s i then n else n + 1) n =
        n + l.countP fun i => bitmapTest s i = false := by
    intro l
    induction l with
    | nil => intro n; simp
    | cons i l ih =>
      intro n
      rw [foldl_cons, ih, countP_cons]
      cases bitmapTest s i
      · simp
        omega
      · simp
  have hc : (freeFrames s).card = (range s.totalFrames).countP fun i => bitmapTest s i = false := by
    rw [countP_eq_length_filter]
    rfl
  unfold krustPmmFreeCount
  split
  · rename_i hn
    symm
    rw [Finset.card_eq_zero]
    apply Finset.eq_empty_of_forall_notMem
    intro f hf
    have := (mem_freeFrames.mp hf).2
    simp [bitmapTest, outside, hn] at this
  · rw [hfo, hc, Nat.zero_add]

inductive Call where
  | allocFrame
  | freeFrame (frame : ℕ)
  | freeFrames (bitmap startFrame count : ℕ)
  | markUsed (bitmap start stop : ℕ)

/-- The allocator together with the frames that are out: handed out and not freed since. -/
structure Trace where
  state : State
  out : Finset ℕ

def step (t : Trace) : Call → Trace
  | .allocFrame =>
    let r := krustPmmAllocFrame t.state
    ⟨r.1, if r.2 = noFrame then t.out else insert r.2 t.out⟩
  | .freeFrame f => ⟨krustPmmFreeFrame t.state f, t.out.erase f⟩
  | .freeFrames bm a n => ⟨krustPmmFreeFrames t.state bm a n,
      t.out.filter fun f => f ∉ frameRange a ((a + n) % 2 ^ 64)⟩
  | .markUsed bm a b => ⟨krustPmmMarkUsed t.state bm a b, t.out⟩

/-- `krust_mm_cpp_pmm_init` followed by a sequence of calls. -/
def run (mem : ℕ → BitVec 8) (memUpperKb : UInt32) (placementAddr : UInt64)
    (calls : List Call) : Trace :=
  calls.foldl step ⟨krustMmCppPmmInit mem memUpperKb placementAddr, ∅⟩

/-- The two range calls rebind `BITMAP`; this one passes the bitmap in force. -/
def Call.Passes (bm : ℕ) : Call → Prop
  | .allocFrame => True
  | .freeFrame _ => True
  | .freeFrames b _ _ => b = bm
  | .markUsed b _ _ => b = bm

structure Inv (bm : ℕ) (t : Trace) : Prop where
  bitmap : t.state.bitmap = bm
  sized : Sized t.state
  hint : HintOk t.state
  out : ∀ f ∈ t.out, f < t.state.totalFrames ∧ bitmapTest t.state f = true

lemma fillUsed_spec (s : State) (n : ℕ) :
    SameHeader s (fillUsed s n) ∧
      ∀ i < n, (fillUsed s n).mem ((s.bitmap + i) % 2 ^ 64) = 0xFF#8 := by
  induction n with
  | zero => exact ⟨⟨rfl, rfl, rfl, rfl⟩, fun i hi => absurd hi (Nat.not_lt_zero i)⟩
  | succ n ih =>
    obtain ⟨hh, hm⟩ := ih
    have hs : fillUsed s (n + 1) =
        writeByte (fillUsed s n) (((fillUsed s n).bitmap + n) % 2 ^ 64) 0xFF#8 := by
      rw [fillUsed, range_succ, foldl_append]
      rfl
    rw [hs, hh.1]
    refine ⟨hh.trans ⟨rfl, rfl, rfl, rfl⟩, ?_⟩
    intro i hi
    by_cases hq : (s.bitmap + i) % 2 ^ 64 = (s.bitmap + n) % 2 ^ 64
    · rw [writeByte_mem, hq, Function.update_self]
    have hne : i ≠ n := by rintro rfl; exact hq rfl
    rw [writeByte_mem, Function.update_of_ne hq]
    exact hm i (by omega)

lemma hasBit_ones {k : ℕ} (hk : k < 8) : Bits.hasBit 0xFF#8 k = true := by
  rw [Bits.hasBit_eq _ hk, show 0xFF#8 = BitVec.allOnes 8 from rfl, BitVec.getLsbD_allOnes]
  simpa using hk

lemma fillUsed_test (s : State) (f : ℕ) : bitmapTest (fillUsed s s.bitmapSize) f = true := by
  obtain ⟨hh, hon⟩ := fillUsed_spec s s.bitmapSize
  cases ho : outside (fillUsed s s.bitmapSize) f with
  | true => exact bitmapTest_eq_of_outside _ f ho
  | false =>
    have hlt : f / 8 < s.bitmapSize := by
      simp only [outside, Bool.or_eq_false_iff, decide_eq_false_iff_not, not_le, hh.2.1] at ho
      exact ho.2
    have ha : byteAddr (fillUsed s s.bitmapSize) f = (s.bitmap + f / 8) % 2 ^ 64 := by
      rw [byteAddr, hh.1]
    rw [bitmapTest, ho, ha, hon _ hlt]
    exact hasBit_ones (Nat.mod_lt _ (by decide))

lemma totalFramesOf_lt (kb : UInt32) : totalFramesOf kb < 2 ^ 31 := by
  have := kb.toNat_lt
  unfold totalFramesOf pageSize
  omega

lemma inv_of_filled (s : State) (hs : Sized s) (used : ℕ) (hall : ∀ f, bitmapTest s f = true) :
    Inv s.bitmap ⟨{ (frameRange used s.totalFrames).foldl bitmapClear s with firstFree := used }, ∅⟩ := by
  obtain ⟨h1, h2, h3, -⟩ := foldl_header bitmapClear_header (frameRange used s.totalFrames) s
  refine ⟨h1, ⟨h2.le.trans hs.1, h3.trans_lt hs.2⟩, ?_, by simp⟩
  intro f hf _
  have hnot : f ∉ frameRange used s.totalFrames := fun hmem =>
    absurd hf (Nat.not_lt_of_le (mem_frameRange.mp hmem).1)
  have ht := bitmapTest_foldl_bitmapClear (frameRange used s.totalFrames) s hs.1 f
  simp only [hall, hnot, decide_false, Bool.not_false, Bool.or_true, Bool.and_true] at ht
  exact ht

lemma Sized.fillUsed (h : Sized s) (n : ℕ) :
    (fillUsed s n).bitmap = s.bitmap ∧ (fillUsed s n).totalFrames = s.totalFrames ∧
      Sized (fillUsed s n) := by
  obtain ⟨h1, h2, h3, -⟩ := (fillUsed_spec s n).1
  exact ⟨h1, h3, h2.le.trans h.1, h3.trans_lt h.2⟩

lemma sized_init (mem : ℕ → BitVec 8) (kb : UInt32) (bm : ℕ) :
    Sized ⟨mem, bm, bitmapSizeOf kb, totalFramesOf kb, 0⟩ := by
  have h := totalFramesOf_lt kb
  constructor
  · change (totalFramesOf kb + 7) / 8 ≤ 2 ^ 64
    omega
  change totalFramesOf kb < 2 ^ 64 - 1
  omega

lemma init_inv (mem : ℕ → BitVec 8) (kb : UInt32) (placement : UInt64) :
    Inv placement.toNat ⟨krustMmCppPmmInit mem kb placement, ∅⟩ := by
  obtain ⟨hb, -, hs⟩ := (sized_init mem kb placement.toNat).fillUsed (bitmapSizeOf kb)
  have h := inv_of_filled _ hs (usedFramesOf kb placement) (fillUsed_test _)
  rwa [hb] at h

section Steps

variable {bm : ℕ} {t : Trace}

/-- What a successful search gives: the lowest free frame, marked alone and not out. -/
lemma alloc_spec (h : Inv bm t) :
    let r := krustPmmAllocFrame t.state
    (r.2 = noFrame ↔ freeFrames t.state = ∅) ∧ (r.2 = noFrame → r.1 = t.state) ∧
      (r.2 ≠ noFrame → IsLeast (freeFrames t.state : Set ℕ) r.2 ∧
        (∀ i, bitmapTest r.1 i = (bitmapTest t.state i || decide (i = r.2))) ∧ r.2 ∉ t.out) := by
  by_cases hn : findFirstFree t.state = noFrame
  · have he := (findFirstFree_none h.hint h.sized.2).mp hn
    simp [krustPmmAllocFrame, hn, he]
  have hne : freeFrames t.state ≠ ∅ := fun he =>
    hn ((findFirstFree_none h.hint h.sized.2).mpr he)
  have hl := findFirstFree_least h.hint hn
  simp only [krustPmmAllocFrame, hn, ↓reduceIte, hne, iff_self, ne_eq, not_false_eq_true,
    false_implies, true_and, true_implies]
  refine ⟨hl, fun i => bitmapTest_bitmapSet t.state _ i h.sized.1, fun hout => ?_⟩
  have hu := (h.out _ hout).2
  have hf := (mem_freeFrames.mp (Finset.mem_coe.mp hl.1)).2
  simp [hu] at hf

lemma krustPmmAllocFrame_header (s : State) :
    (krustPmmAllocFrame s).1.bitmap = s.bitmap ∧
      (krustPmmAllocFrame s).1.bitmapSize = s.bitmapSize ∧
      (krustPmmAllocFrame s).1.totalFrames = s.totalFrames := by
  obtain ⟨h1, h2, h3, -⟩ := bitmapSet_header s (findFirstFree s)
  by_cases hn : findFirstFree s = noFrame
  · simp [krustPmmAllocFrame, hn]
  · simp [krustPmmAllocFrame, hn, h1, h2, h3]

lemma inv_alloc (h : Inv bm t) : Inv bm (step t .allocFrame) := by
  obtain ⟨h1, h2, h3⟩ := krustPmmAllocFrame_header t.state
  obtain ⟨-, hs, hso⟩ := alloc_spec h
  refine ⟨h1.trans h.bitmap, ?_, h.hint.alloc h.sized, ?_⟩
  · simpa [Sized, step, h2, h3] using h.sized
  intro f hf
  simp only [step] at hf ⊢
  rw [h3]
  by_cases hn : (krustPmmAllocFrame t.state).2 = noFrame
  · rw [if_pos hn] at hf
    rw [hs hn]
    exact h.out f hf
  obtain ⟨hl, hm, -⟩ := hso hn
  rw [if_neg hn, Finset.mem_insert] at hf
  rw [hm]
  rcases hf with rfl | hf
  · exact ⟨(mem_freeFrames.mp (Finset.mem_coe.mp hl.1)).1, by simp⟩
  obtain ⟨hlt, hu⟩ := h.out f hf
  exact ⟨hlt, by simp [hu]⟩

lemma inv_clear (h : Inv bm t) (l : List ℕ) (low : ℕ) (hl : ∀ f ∈ l, low ≤ f)
    (out : Finset ℕ) (hout : ∀ f ∈ out, f ∈ t.out ∧ f ∉ l) :
    Inv bm ⟨let u := l.foldl bitmapClear t.state
      if low < u.firstFree then { u with firstFree := low } else u, out⟩ := by
  obtain ⟨h1, h2, h3, h4⟩ := foldl_header bitmapClear_header l t.state
  have hh := h.hint.bitmapClear h.sized l hl
  have hk : ∀ f ∈ out, f < t.state.totalFrames ∧
      bitmapTest (l.foldl bitmapClear t.state) f = true := by
    intro f hf
    obtain ⟨hin, hnot⟩ := hout f hf
    obtain ⟨hlt, hu⟩ := h.out f hin
    refine ⟨hlt, ?_⟩
    rw [bitmapTest_foldl_bitmapClear l _ h.sized.1, hu]
    simp [hnot]
  have hs : Sized (l.foldl bitmapClear t.state) := by simpa [Sized, h2, h3] using h.sized
  simp only at hh ⊢
  split at hh
  · rename_i hlow
    rw [if_pos hlow]
    exact ⟨h1.trans h.bitmap, hs, hh, fun f hf => ⟨h3.symm ▸ (hk f hf).1, (hk f hf).2⟩⟩
  rename_i hlow
  rw [if_neg hlow]
  exact ⟨h1.trans h.bitmap, hs, hh, fun f hf => ⟨h3.symm ▸ (hk f hf).1, (hk f hf).2⟩⟩

lemma inv_step (h : Inv bm t) (c : Call) (hc : c.Passes bm) : Inv bm (step t c) := by
  cases c with
  | allocFrame => exact inv_alloc h
  | freeFrame f =>
    refine inv_clear h [f] f (by simp) (t.out.erase f) ?_
    intro g hg
    rw [Finset.mem_erase] at hg
    exact ⟨hg.2, by simpa using hg.1⟩
  | freeFrames b a n =>
    have hb : ({ t.state with bitmap := b } : State) = t.state := by
      rw [show b = t.state.bitmap from hc.trans h.bitmap.symm]
    have := inv_clear h (frameRange a ((a + n) % 2 ^ 64)) a
      (fun f hf => (mem_frameRange.mp hf).1)
      (t.out.filter fun f => f ∉ frameRange a ((a + n) % 2 ^ 64))
      (fun f hf => Finset.mem_filter.mp hf)
    simpa only [step, krustPmmFreeFrames, hb] using this
  | markUsed b a e =>
    have hb : ({ t.state with bitmap := b } : State) = t.state := by
      rw [show b = t.state.bitmap from hc.trans h.bitmap.symm]
    obtain ⟨h1, h2, h3, -⟩ := foldl_header bitmapSet_header (frameRange a e) t.state
    simp only [step, krustPmmMarkUsed, hb]
    refine ⟨h1.trans h.bitmap, ?_, h.hint.bitmapSet h.sized _, ?_⟩
    · simpa [Sized, h2, h3] using h.sized
    intro f hf
    obtain ⟨hlt, hu⟩ := h.out f hf
    refine ⟨h3.symm ▸ hlt, ?_⟩
    rw [bitmapTest_foldl_bitmapSet _ _ h.sized.1, hu, Bool.true_or]

lemma inv_run (h : Inv bm t) (calls : List Call) (hc : ∀ c ∈ calls, c.Passes bm) :
    Inv bm (calls.foldl step t) := by
  induction calls generalizing t with
  | nil => exact h
  | cons c calls ih =>
    exact ih (inv_step h c (hc c (by simp))) (fun d hd => hc d (by simp [hd]))

end Steps

/-- The allocator's contract in one state of a run. -/
def Sound (t : Trace) : Prop :=
  let r := krustPmmAllocFrame t.state
  HintOk t.state ∧
    (r.2 = noFrame ↔ freeFrames t.state = ∅) ∧ (r.2 = noFrame → r.1 = t.state) ∧
    (r.2 ≠ noFrame → IsLeast (freeFrames t.state : Set ℕ) r.2 ∧
      (∀ i, bitmapTest r.1 i = (bitmapTest t.state i || decide (i = r.2))) ∧ r.2 ∉ t.out) ∧
    krustPmmFreeCount t.state = (freeFrames t.state).card

/-- Every memory size, every placement address and every sequence of calls that pass the
bitmap the initialisation set up. -/
theorem run_sound (mem : ℕ → BitVec 8) (memUpperKb : UInt32) (placementAddr : UInt64)
    (calls : List Call) (hc : ∀ c ∈ calls, c.Passes placementAddr.toNat) :
    Sound (run mem memUpperKb placementAddr calls) := by
  have h := inv_run (init_inv mem memUpperKb placementAddr) calls hc
  obtain ⟨hn, hs, hso⟩ := alloc_spec h
  exact ⟨h.hint, hn, hs, hso, krustPmmFreeCount_eq _⟩

theorem run_sound_free_alloc : Sound (run (fun _ => 0#8) 1024 0x100000
    [.allocFrame, .freeFrames 0x100000 260 3, .markUsed 0x100000 300 310, .freeFrame 257]) :=
  run_sound _ _ _ _ (by simp [Call.Passes])

/-- A call that passes another bitmap address puts that memory in force, whatever it holds. -/
theorem run_unsound_other_bitmap :
    ¬ Sound (run (fun _ => 0#8) 0 0x200000 [.markUsed 0x300000 0 0]) := by
  intro h
  have hu : bitmapTest (run (fun _ => 0#8) 0 0x200000 [.markUsed 0x300000 0 0]).state 0 = true :=
    h.1 0 (by decide) (by decide)
  revert hu
  decide

end Elitra.Pmm
