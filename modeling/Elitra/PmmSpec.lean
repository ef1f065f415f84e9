import Elitra.PmmRun

namespace Elitra.Pmm

/-- What the users of the allocator rely on: it is in a consistent state, and its frame numbers
fit the address field of a page-table entry. -/
structure Good (s : State) : Prop where
  sized : Sized s
  hint : HintOk s
  small : s.totalFrames ≤ 2 ^ 40

lemma good_of_filled (s : State) (hs : Sized s) (hsm : s.totalFrames ≤ 2 ^ 40) (used : ℕ)
    (hall : ∀ f, bitmapTest s f = true) :
    Good { (frameRange used s.totalFrames).foldl bitmapClear s with firstFree := used } := by
  have h := inv_of_filled s hs used hall
  exact ⟨h.sized, h.hint, (foldl_header bitmapClear_header _ s).2.2.1.trans_le hsm⟩

lemma init_good (mem : ℕ → BitVec 8) (kb : UInt32) (placement : UInt64) :
    Good (krustMmCppPmmInit mem kb placement) := by
  obtain ⟨-, hn, hs⟩ := (sized_init mem kb placement.toNat).fillUsed (bitmapSizeOf kb)
  refine good_of_filled _ hs ?_ (usedFramesOf kb placement) (fillUsed_test _)
  have h := totalFramesOf_lt kb
  dsimp at hn
  omega

variable {s : State}

lemma Good.mem_lt (h : Good s) {f : ℕ} (hf : f ∈ freeFrames s) : f < 2 ^ 40 :=
  (mem_freeFrames.mp hf).1.trans_le h.small

lemma Good.alloc (h : Good s) :
    (krustPmmAllocFrame s = (s, noFrame) ∧ freeFrames s = ∅) ∨
      ∃ t f, krustPmmAllocFrame s = (t, f) ∧ f ≠ noFrame ∧ f ∈ freeFrames s ∧
        freeFrames t = (freeFrames s).erase f ∧ Good t := by
  have hinv : Inv s.bitmap ⟨s, ∅⟩ := ⟨rfl, h.sized, h.hint, by simp⟩
  obtain ⟨hn, hs, hso⟩ := alloc_spec hinv
  obtain ⟨-, hsi, ht⟩ := krustPmmAllocFrame_header s
  by_cases hf : (krustPmmAllocFrame s).2 = noFrame
  · refine .inl ⟨?_, hn.mp hf⟩
    rw [← hf]
    exact Prod.ext (hs hf) rfl
  obtain ⟨hl, hte, -⟩ := hso hf
  have hg : Good (krustPmmAllocFrame s).1 :=
    ⟨by simpa [Sized, hsi, ht] using h.sized, h.hint.alloc h.sized, ht ▸ h.small⟩
  refine .inr ⟨(krustPmmAllocFrame s).1, (krustPmmAllocFrame s).2, rfl, hf, hl.1, ?_, hg⟩
  dsimp only at hte
  ext g
  rw [mem_freeFrames, Finset.mem_erase, mem_freeFrames, hte, ht, Bool.or_eq_false_iff,
    decide_eq_false_iff_not]
  tauto

lemma Good.free (h : Good s) (f : ℕ) :
    Good (krustPmmFreeFrame s f) ∧ freeFrames s ⊆ freeFrames (krustPmmFreeFrame s f) ∧
      freeFrames (krustPmmFreeFrame s f) ⊆ insert f (freeFrames s) := by
  have hinv : Inv s.bitmap ⟨s, ∅⟩ := ⟨rfl, h.sized, h.hint, by simp⟩
  have hs := inv_step hinv (.freeFrame f) trivial
  have ht : (krustPmmFreeFrame s f).totalFrames = s.totalFrames := by
    unfold krustPmmFreeFrame
    dsimp only
    split
    · exact (bitmapClear_header s f).2.2.1
    · exact (bitmapClear_header s f).2.2.1
  have hte : ∀ g, bitmapTest (krustPmmFreeFrame s f) g =
      (bitmapTest s g && (outside s f || !decide (g = f))) := by
    intro g
    rw [← bitmapTest_bitmapClear s f g h.sized.1]
    unfold krustPmmFreeFrame
    dsimp only
    split
    · rfl
    · rfl
  refine ⟨⟨hs.sized, hs.hint, ht ▸ h.small⟩, ?_, ?_⟩
  · intro g hg
    rw [mem_freeFrames] at hg ⊢
    rw [ht, hte, hg.2]
    exact ⟨hg.1, rfl⟩
  intro g hg
  rw [mem_freeFrames, ht, hte] at hg
  rw [Finset.mem_insert, mem_freeFrames]
  by_cases hgf : g = f
  · exact .inl hgf
  refine .inr ⟨hg.1, ?_⟩
  simpa [hgf] using hg.2

end Elitra.Pmm
