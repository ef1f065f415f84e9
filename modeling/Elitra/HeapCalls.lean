import Elitra.HeapChain

namespace Elitra.Heap
open ByteMem BlockList

/-- The heap's memory is a chain of the blocks `bs` that fills the heap exactly. -/
structure Layout (s : State) (bs : List Block) : Prop where
  head : s.heapHead = heapStart
  chain : Chain s.mem 0 heapStart bs
  nonempty : bs ≠ []
  extent : span headerSize bs = heapSize

variable {bs : List Block} {s : State}

lemma Layout.fuel (h : Layout s bs) : bs.length < heapFuel := by
  have hlen := length_le_span (h := headerSize) bs
  rw [h.extent] at hlen
  have h17 : headerSize = 17 := rfl
  have hs : heapSize = 0x10000000 := rfl
  have hf : heapFuel = heapSize := rfl
  rw [h17] at hlen
  omega

lemma Layout.bound (h : Layout s bs) : heapStart + span headerSize bs < 2 ^ 64 := by
  rw [h.extent]
  decide

lemma Layout.link (h : Layout s bs) : linkTo 0 heapStart bs = heapStart := by
  obtain ⟨b, bs, rfl⟩ := List.exists_cons_of_ne_nil h.nonempty
  rfl

lemma heapStart_ne : heapStart ≠ 0 := by decide

lemma carve_flag (n : ℕ) (b : Block) (f : Bool) : ∃ c cs,
    carve headerSize 16 n b = c :: cs ∧ carve headerSize 16 n ⟨b.size, f⟩ = ⟨c.size, f⟩ :: cs := by
  unfold carve
  split
  · exact ⟨b, [], rfl, rfl⟩
  · exact ⟨⟨n, b.free⟩, [⟨b.size - n - headerSize, true⟩], rfl, rfl⟩

lemma at_reflag {a p : ℕ} {pre post : List Block} {b c : Block} {f : Bool}
    (h : At headerSize a (pre ++ ⟨b.size, f⟩ :: post) p c) :
    (p = a + span headerSize pre ∧ c = ⟨b.size, f⟩) ∨ At headerSize a (pre ++ b :: post) p c := by
  rcases at_append.mp h with h | h
  · exact .inr (at_append.mpr (.inl h))
  rcases at_cons.mp h with h | h
  · exact .inl h
  · exact .inr (at_append.mpr (.inr (at_cons.mpr (.inr h))))

variable {mapped : ℕ → Bool} {s : State} {bs pre post : List Block} {b : Block} {size : UInt32}

lemma krustHeapInit_spec (m : Mem) (hmap : HeaderMapped mapped heapStart) :
    ∃ s, krustHeapInit mapped m = .ok s ∧ Layout s [⟨heapSize - headerSize, true⟩] := by
  refine ⟨⟨setNext (setFree (setSize m heapStart (heapSize - headerSize)) heapStart true)
    heapStart 0, heapStart⟩, ?_, rfl, ?_, by simp, by rfl⟩
  · rw [krustHeapInit, touch_ok hmap, ok_bind]
  refine ⟨⟨?_, ?_, ?_⟩, trivial⟩
  · rw [blockSize_setNext (.inl (by omega)), blockSize_setFree (.inl (Nat.le_refl _)),
      blockSize_setSize (by decide)]
  · rw [blockFree_setNext (.inl (Nat.le_refl _)), blockFree_setFree]
  rw [blockNext_setNext (by decide)]
  rfl

lemma krustHeapAlloc_none (hl : Layout s bs) (hmap : HeadersMapped mapped heapStart bs)
    (hn : ∀ c ∈ bs, ¬ Suits (roundSize size) c) :
    krustHeapAlloc mapped s size = .ok (s, 0) := by
  obtain ⟨prev, hrun⟩ := findBlock_none 0 heapStart_ne hl.chain hmap hn hl.fuel
  rw [hl.link] at hrun
  rw [krustHeapAlloc, if_neg (by rw [hl.head]; exact heapStart_ne), hl.head, hrun, ok_bind]
  rfl

lemma krustHeapAlloc_found (hl : Layout s bs) (hmap : HeadersMapped mapped heapStart bs)
    (hfit : FirstFit (roundSize size) bs pre b post)
    (hnew : roundSize size + headerSize + 16 ≤ b.size →
      HeaderMapped mapped (heapStart + span headerSize pre + headerSize + roundSize size)) :
    ∃ m', krustHeapAlloc mapped s size =
        .ok ({ s with mem := m' }, heapStart + span headerSize pre + headerSize) ∧
      Layout { s with mem := m' }
        (pre ++ (carve headerSize 16 (roundSize size) ⟨b.size, false⟩ ++ post)) ∧
      ∀ x, x < heapStart + span headerSize pre ∨
        heapStart + span headerSize pre + (headerSize + b.size) ≤ x → m' x = s.mem x := by
  have h17 : headerSize = 17 := rfl
  have hbs := hfit.1
  set p := heapStart + span headerSize pre with hp
  have hp0 : p ≠ 0 := by have := heapStart_ne; omega
  obtain ⟨prev, hf⟩ := findBlock_found 0 heapStart_ne hl.chain hmap hfit hl.fuel
  rw [hl.link] at hf
  have hc : Chain s.mem 0 heapStart (pre ++ b :: post) := hbs ▸ hl.chain
  have hend : heapStart + span headerSize (pre ++ b :: post) < 2 ^ 64 := hbs ▸ hl.bound
  have hm : HeaderMapped mapped p := hmap p b ⟨pre, post, hbs, rfl⟩
  obtain ⟨m1, hs, hch, hfr⟩ := splitBlock_spec hc hend hm hnew
  obtain ⟨c, cs, hca, hca'⟩ := carve_flag (roundSize size) b false
  refine ⟨setFree m1 p false, ?_, ?_, ?_⟩
  · rw [krustHeapAlloc, if_neg (by rw [hl.head]; exact heapStart_ne), hl.head, hf, ok_bind]
    simp only [← hp, hp0, ↓reduceIte]
    rw [hs, ok_bind]
  · rw [hca] at hch
    have hfl := setFree_spec false hch
    rw [hca']
    refine ⟨hl.head, by simpa using hfl, by simp, ?_⟩
    rw [← hca', ← hl.extent, hbs]
    simp only [span_append, span_cons, span_carve]
  intro x hx
  rw [setFree_of_ne (by omega), hfr x (by omega) (by omega)]

/-- Freeing a used block marks it and coalesces the list; only headers are written. -/
lemma krustHeapFree_used (hl : Layout s (pre ++ b :: post))
    (hmap : HeadersMapped mapped heapStart (pre ++ b :: post)) (hb : b.free = false) :
    ∃ m', krustHeapFree mapped s (heapStart + span headerSize pre + headerSize) =
        .ok { s with mem := m' } ∧
      Layout { s with mem := m' } (coalesceAll headerSize (pre ++ ⟨b.size, true⟩ :: post)) ∧
      ∀ x, (∀ q c, At headerSize heapStart (pre ++ b :: post) q c →
        x < q ∨ q + headerSize ≤ x) → m' x = s.mem x := by
  have h17 : headerSize = 17 := rfl
  set p := heapStart + span headerSize pre with hp
  have hatb : At headerSize heapStart (pre ++ b :: post) p b := ⟨pre, post, rfl, rfl⟩
  have hma : HeaderMapped mapped p := hmap p b hatb
  have hf := setFree_spec true hl.chain
  rw [← hp] at hf
  have hs : span headerSize (pre ++ ⟨b.size, true⟩ :: post) = heapSize := by
    rw [← hl.extent]
    simp only [span_append, span_cons]
  have hfre : blockFree s.mem p = false := (chain_header hl.chain).free.trans hb
  have hlen : (pre ++ ⟨b.size, true⟩ :: post).length < heapFuel := by
    have := hl.fuel
    simpa using this
  obtain ⟨d, rest, hd⟩ : ∃ d rest, pre ++ ⟨b.size, true⟩ :: post = d :: rest :=
    List.exists_cons_of_ne_nil (by simp)
  obtain ⟨m', hm, hc, hfr⟩ := mergeAdjacent_spec (k := heapFuel) [] heapStart_ne
    (hd ▸ hf)
    (by
      change heapStart + span headerSize (d :: rest) < 2 ^ 64
      rw [← hd, hs]
      decide)
    (by
      intro q c hq
      rw [← hd] at hq
      rcases at_reflag hq with ⟨rfl, -⟩ | hq'
      · exact hma
      · exact hmap q c hq')
    (by rw [hd, List.length_cons] at hlen; omega)
  refine ⟨m', ?_, ⟨hl.head, ?_, coalesceAll_ne_nil (by simp), ?_⟩, ?_⟩
  · rw [krustHeapFree, if_neg (by omega), Nat.add_sub_cancel]
    dsimp only
    rw [touch_ok hma, ok_bind, hfre, if_neg (by simp), hl.head]
    rw [span_nil, Nat.add_zero] at hm
    rw [hm, ok_bind]
  · rw [hd]
    exact hc
  · rw [span_coalesceAll, hs]
  intro x hx
  have hxp := hx p b hatb
  rw [hfr x, setFree_of_ne (by omega)]
  intro q c hq
  rw [span_nil, Nat.add_zero, ← hd] at hq
  rcases at_reflag hq with ⟨rfl, -⟩ | hq'
  · exact hxp
  · exact hx q c hq'

lemma krustHeapRealloc_shrink (hl : Layout s (pre ++ b :: post))
    (hmap : HeadersMapped mapped heapStart (pre ++ b :: post)) (hn : size.toNat ≠ 0)
    (hsi : size.toNat ≤ b.size)
    (hnew : size.toNat + headerSize + 16 ≤ b.size →
      HeaderMapped mapped (heapStart + span headerSize pre + headerSize + size.toNat)) :
    ∃ m', krustHeapRealloc mapped s (heapStart + span headerSize pre + headerSize) size =
        .ok ({ s with mem := m' }, heapStart + span headerSize pre + headerSize) ∧
      Layout { s with mem := m' } (pre ++ (carve headerSize 16 size.toNat b ++ post)) ∧
      ∀ x, x < heapStart + span headerSize pre ∨ heapStart + span headerSize pre + headerSize ≤ x →
        x < heapStart + span headerSize pre + headerSize + size.toNat ∨
          heapStart + span headerSize pre + (headerSize + b.size) ≤ x → m' x = s.mem x := by
  have h17 : headerSize = 17 := rfl
  set p := heapStart + span headerSize pre with hp
  have hm : HeaderMapped mapped p := hmap p b ⟨pre, post, rfl, rfl⟩
  obtain ⟨m', hs, hc, hf⟩ := splitBlock_spec hl.chain hl.bound hm hnew
  refine ⟨m', ?_, ⟨hl.head, hc, ?_, ?_⟩, hf⟩
  · rw [krustHeapRealloc, if_neg (by omega), if_neg hn, Nat.add_sub_cancel]
    dsimp only
    rw [touch_ok hm, ok_bind, (chain_header hl.chain).size, if_pos hsi, hs, ok_bind]
  · simp [carve_ne_nil]
  rw [← hl.extent]
  simp only [span_append, span_cons, span_carve]

end Elitra.Heap
