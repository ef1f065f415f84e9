import Elitra.HeapCalls
import Elitra.HeapList

namespace Elitra.Heap
open ByteMem BlockList

/-- The payload bytes of the block at `p` are the same in both memories. -/
def SamePayload (m m' : Mem) (p k : ℕ) : Prop :=
  ∀ i, i < k → m' (p + headerSize + i) = m (p + headerSize + i)

/-- The header that cutting the first fitting block would write is mapped. -/
def AllocRoom (mapped : ℕ → Bool) (bs : List Block) (n : ℕ) : Prop :=
  ∀ pre b post, FirstFit n bs pre b post → n + headerSize + 16 ≤ b.size →
    HeaderMapped mapped (heapStart + span headerSize pre + headerSize + n)

structure ReallocRoom (mapped : ℕ → Bool) (bs : List Block) (ptr : ℕ) (size : UInt32) : Prop where
  fresh : ptr = 0 → AllocRoom mapped bs (roundSize size)
  shrink : ∀ p k, Used bs p k → ptr = p + headerSize → size.toNat + headerSize + 16 ≤ k →
    HeaderMapped mapped (ptr + size.toNat)
  move : ∀ p k, Used bs p k → ptr = p + headerSize → k < size.toNat →
    AllocRoom mapped bs (roundSize size)

section Refinement

variable {mapped : ℕ → Bool} {s : State} {bs bs' : List Block} {size : UInt32} {n p q : ℕ}

lemma HeadersMapped.alloc (hmap : HeadersMapped mapped heapStart bs) (h : AllocEffect n bs q bs')
    (hr : AllocRoom mapped bs n) : HeadersMapped mapped heapStart bs' := by
  cases h with
  | none h => exact hmap
  | @found pre post b h =>
    intro r c hc
    obtain ⟨rfl, hb, hpre⟩ := h
    rcases at_append.mp hc with hc | hc
    · exact hmap r c (at_append.mpr (.inl hc))
    rcases at_append.mp hc with hc | hc
    · unfold carve at hc
      split at hc
      · rcases at_cons.mp hc with ⟨rfl, -⟩ | hc
        · exact hmap _ b ⟨pre, post, rfl, rfl⟩
        · exact absurd hc at_nil
      rename_i hs
      rcases at_cons.mp hc with ⟨rfl, -⟩ | hc
      · exact hmap _ b ⟨pre, post, rfl, rfl⟩
      rcases at_cons.mp hc with ⟨rfl, -⟩ | hc
      · have hnew := hr pre b post ⟨rfl, hb, hpre⟩ (by simpa using hs)
        rwa [Nat.add_assoc _ headerSize n] at hnew
      · exact absurd hc at_nil
    rw [span_carve] at hc
    exact hmap r c (at_append.mpr (.inr (at_cons.mpr (.inr hc))))

lemma HeadersMapped.free (hmap : HeadersMapped mapped heapStart bs) (h : FreeEffect bs p bs') :
    HeadersMapped mapped heapStart bs' := by
  cases h with
  | null => exact hmap
  | @used pre post b he hb =>
    subst he
    intro r c hc
    obtain ⟨d, hd⟩ := at_coalesceAll hc
    rcases at_reflag hd with ⟨rfl, -⟩ | hd'
    · exact hmap _ b ⟨pre, post, rfl, rfl⟩
    · exact hmap r d hd'

lemma alloc_refines (hl : Layout s bs) (hmap : HeadersMapped mapped heapStart bs)
    (hr : AllocRoom mapped bs (roundSize size)) :
    ∃ s' q bs', krustHeapAlloc mapped s size = .ok (s', q) ∧
      AllocEffect (roundSize size) bs q bs' ∧ Layout s' bs' ∧
      (∀ p k, Used bs p k → SamePayload s.mem s'.mem p k) ∧ (q = 0 → s' = s ∧ bs' = bs) := by
  rcases firstFit_or_none (roundSize size) bs with ⟨pre, b, post, hfit⟩ | hn
  · obtain ⟨m', hrun, hl', hfr⟩ := krustHeapAlloc_found hl hmap hfit (hr pre b post hfit)
    refine ⟨_, _, _, hrun, .found hfit, hl', ?_, ?_⟩
    · intro p k hu i hi
      obtain ⟨rfl, ⟨hf, -⟩, -⟩ := hfit
      apply hfr
      rcases at_separate hu ⟨pre, post, rfl, rfl⟩ with ⟨-, he⟩ | hsep | hsep
      · rw [← he] at hf
        simp at hf
      · simp only at hsep
        omega
      · omega
    have h17 : headerSize = 17 := rfl
    omega
  exact ⟨s, 0, bs, krustHeapAlloc_none hl hmap hn, .none hn, hl,
    fun p k _ i _ => rfl, fun _ => ⟨rfl, rfl⟩⟩

lemma free_refines (hl : Layout s bs) (hmap : HeadersMapped mapped heapStart bs)
    (hp : p = 0 ∨ ∃ p' k, p = p' + headerSize ∧ Used bs p' k) :
    ∃ s' bs', krustHeapFree mapped s p = .ok s' ∧ FreeEffect bs p bs' ∧ Layout s' bs' ∧
      ∀ p' k, Used bs p' k → SamePayload s.mem s'.mem p' k := by
  rcases hp with rfl | ⟨p', k, rfl, hu⟩
  · exact ⟨s, bs, rfl, .null, hl, fun _ _ _ _ _ => rfl⟩
  obtain ⟨pre, post, rfl, rfl⟩ := hu
  obtain ⟨m', hrun, hl', hf⟩ := krustHeapFree_used hl hmap rfl
  refine ⟨_, _, hrun, .used rfl rfl, hl', ?_⟩
  intro p' k' hu' i hi
  apply hf
  intro r c hc
  rcases at_separate hu' hc with ⟨rfl, -⟩ | hsep | hsep
  · omega
  · simp only at hsep
    omega
  · omega

lemma krustHeapRealloc_grow {pre post : List Block} {b : Block}
    (hl : Layout s (pre ++ b :: post)) (hmap : HeadersMapped mapped heapStart (pre ++ b :: post))
    (hg : b.size < size.toNat) :
    krustHeapRealloc mapped s (heapStart + span headerSize pre + headerSize) size = (do
      let (s', newPtr) ← krustHeapAlloc mapped s size
      if newPtr ≠ 0 then do
        let copySize := min (blockSize s'.mem (heapStart + span headerSize pre)) size.toNat
        let s'' ← krustHeapFree mapped
          { s' with mem := copyBytes s'.mem (heapStart + span headerSize pre + headerSize) newPtr
                      copySize } (heapStart + span headerSize pre + headerSize)
        .ok (s'', newPtr)
      else .ok (s', newPtr)) := by
  have h17 : headerSize = 17 := rfl
  rw [krustHeapRealloc, if_neg (by omega), if_neg (by omega), Nat.add_sub_cancel]
  dsimp only
  rw [touch_ok (hmap _ b ⟨pre, post, rfl, rfl⟩), ok_bind, (chain_header hl.chain).size,
    if_neg (by omega)]

lemma Chain.congr_headers {m m' : Mem} {z a : ℕ} {bs : List Block} (h : Chain m z a bs)
    (he : ∀ r c, At headerSize a bs r c → ∀ x, r ≤ x → x < r + headerSize → m' x = m x) :
    Chain m' z a bs := by
  induction bs generalizing a with
  | nil => trivial
  | cons b bs ih =>
    obtain ⟨hh, hc⟩ := h
    exact ⟨hh.congr (he a b (at_cons.mpr (.inl ⟨rfl, rfl⟩))),
      ih hc fun r c hr => he r c (at_cons.mpr (.inr hr))⟩

lemma Layout.payload {m' : Mem} {k : ℕ} (hl : Layout s bs) (hu : Used bs p k)
    (hm : ∀ x, x < p + headerSize ∨ p + headerSize + k ≤ x → m' x = s.mem x) :
    Layout { s with mem := m' } bs := by
  refine ⟨hl.head, hl.chain.congr_headers ?_, hl.nonempty, hl.extent⟩
  intro r c hc x hx hx'
  apply hm
  rcases at_separate hu hc with ⟨rfl, -⟩ | hsep | hsep
  · exact .inl hx'
  · simp only at hsep
    omega
  · omega

lemma Layout.size_of_used {k : ℕ} (hl : Layout s bs) (hu : Used bs p k) :
    blockSize s.mem p = k := by
  obtain ⟨pre, post, rfl, rfl⟩ := hu
  exact (chain_header hl.chain).size

lemma Used.disjoint {k k' : ℕ} (h : Used bs p k) (h' : Used bs q k') (hne : p ≠ q) :
    p + (headerSize + k) ≤ q ∨ q + (headerSize + k') ≤ p := by
  rcases at_separate h h' with ⟨he, -⟩ | hsep
  · exact absurd he hne
  · exact hsep

lemma realloc_move {s1 : State} {bs1 : List Block} {k : ℕ} (hl1 : Layout s1 bs1)
    (hmap1 : HeadersMapped mapped heapStart bs1) (ha : AllocEffect (roundSize size) bs q bs1)
    (hq : q ≠ 0) (hu : Used bs p k) (hg : k < size.toNat) :
    ∃ s' bs', krustHeapFree mapped
        { s1 with mem := copyBytes s1.mem (p + headerSize) q (min (blockSize s1.mem p) size.toNat) }
        (p + headerSize) = .ok s' ∧
      FreeEffect bs1 (p + headerSize) bs' ∧ Layout s' bs' ∧
      (∀ p' k', Used bs p' k' → SamePayload s1.mem s'.mem p' k') ∧
      ∀ i, i < k → s'.mem (q + i) = s1.mem (p + headerSize + i) := by
  obtain ⟨p1, k1, rfl, hu1, hk1, hfs⟩ := ha.result_pos hq
  have hold : ∀ p' k', Used bs p' k' → Used bs1 p' k' ∧ p1 ≠ p' := by
    intro p' k' hu'
    have hne : p1 ≠ p' := by
      intro he
      exact hfs k' (he ▸ hu')
    exact ⟨(ha.used_iff (by omega)).mpr hu', hne⟩
  have hr := le_roundSize size
  rw [hl1.size_of_used (hold p k hu).1, min_eq_left hg.le]
  set m := copyBytes s1.mem (p + headerSize) (p1 + headerSize) k with hm
  have hc : ∀ x, x < p1 + headerSize ∨ p1 + headerSize + k1 ≤ x → m x = s1.mem x :=
    fun x hx => copyBytes_of_outside (by omega)
  obtain ⟨s', bs', hrun, hf, hl', hfr⟩ := free_refines (hl1.payload hu1 hc) hmap1
    (.inr ⟨p, k, rfl, (hold p k hu).1⟩)
  refine ⟨s', bs', hrun, hf, hl', ?_, ?_⟩
  · intro p' k' hu' i hi
    obtain ⟨hu1', hne⟩ := hold p' k' hu'
    rw [hfr p' k' hu1' i hi]
    apply hc
    rcases hu1.disjoint hu1' hne with hsep | hsep <;> omega
  intro i hi
  rw [hfr p1 k1 hu1 i (by omega)]
  exact copyBytes_apply hi

lemma realloc_refines (hl : Layout s bs) (hmap : HeadersMapped mapped heapStart bs)
    (hp : p = 0 ∨ ∃ p' k, p = p' + headerSize ∧ Used bs p' k)
    (hr : ReallocRoom mapped bs p size) :
    ∃ s' q bs', krustHeapRealloc mapped s p size = .ok (s', q) ∧ ReallocEffect size bs p q bs' ∧
      Layout s' bs' ∧
      (∀ p' k, Used bs p' k → p ≠ p' + headerSize → SamePayload s.mem s'.mem p' k) ∧
      (∀ p' k, Used bs p' k → p = p' + headerSize → q ≠ 0 →
        ∀ i, i < min k size.toNat → s'.mem (q + i) = s.mem (p + i)) ∧
      (q = 0 → size.toNat ≠ 0 → s' = s ∧ bs' = bs) := by
  have h17 : headerSize = 17 := rfl
  rcases hp with rfl | ⟨p, k, rfl, hu⟩
  · obtain ⟨s', q, bs', hrun, ha, hl', hfr, hnu⟩ := alloc_refines hl hmap (hr.fresh rfl)
    exact ⟨s', q, bs', hrun, .fresh ha, hl', fun p k hu _ => hfr p k hu,
      fun p' k _ h0 => absurd h0 (by omega), fun hq _ => hnu hq⟩
  have hp : p + headerSize ≠ 0 := by omega
  by_cases hn : size.toNat = 0
  · obtain ⟨s', bs', hrun, hf, hl', hfr⟩ := free_refines hl hmap (.inr ⟨p, k, rfl, hu⟩)
    refine ⟨s', 0, bs', ?_, .release hp hn hf, hl', fun p k hu _ => hfr p k hu,
      fun _ _ _ _ h0 => absurd rfl h0, fun _ h0 => absurd hn h0⟩
    rw [krustHeapRealloc, if_neg hp, if_pos hn, hrun, ok_bind]
  obtain ⟨pre, post, rfl, rfl⟩ := hu.split
  by_cases hs : size.toNat ≤ k
  · obtain ⟨m', hrun, hl', hfr⟩ := krustHeapRealloc_shrink hl hmap hn hs (hr.shrink _ k hu rfl)
    refine ⟨_, _, _, hrun, .shrink hn rfl rfl hs, hl', ?_, ?_, fun h0 => absurd h0 hp⟩
    · intro p' k' hu' hne i hi
      have hsep := hu.disjoint hu' (by omega)
      apply hfr
      · omega
      simp only
      omega
    intro p' k' _ _ _ i hi
    have := lt_min_iff.mp hi
    exact hfr _ (by omega) (.inl (by omega))
  have hg : k < size.toNat := by omega
  obtain ⟨s1, q, bs1, hrun, ha, hl1, hfr, hnu⟩ :=
    alloc_refines hl hmap (hr.move _ k hu rfl hg)
  by_cases hq : q = 0
  · subst hq
    obtain ⟨rfl, rfl⟩ := hnu rfl
    refine ⟨_, 0, _, ?_, .fail hu hg ha, hl, fun _ _ _ _ _ _ => rfl,
      fun _ _ _ _ h0 => absurd rfl h0, fun _ _ => ⟨rfl, rfl⟩⟩
    rw [krustHeapRealloc_grow hl hmap hg, hrun, ok_bind]
    rfl
  obtain ⟨s', bs', hfre, hf, hl', hke, hc⟩ := realloc_move hl1
    (hmap.alloc ha (hr.move _ k hu rfl hg)) ha hq hu hg
  refine ⟨s', q, bs', ?_, .move hu hg hq ha hf, hl', ?_, ?_, fun h0 => absurd h0 hq⟩
  · rw [krustHeapRealloc_grow hl hmap hg, hrun, ok_bind]
    simp only [ne_eq, hq, not_false_eq_true, ↓reduceIte]
    rw [hfre, ok_bind]
  · intro p' k' hu' _ i hi
    rw [hke p' k' hu' i hi, hfr p' k' hu' i hi]
  intro p' k' hu' he _ i hi
  have hpp : p' = heapStart + span headerSize pre := by omega
  have hk : k = k' := hu.unique (hpp ▸ hu')
  have := lt_min_iff.mp hi
  rw [hc i (by omega), hfr _ k hu i (by omega)]

end Refinement

end Elitra.Heap
