import Elitra.Heap
import Elitra.BlockList

namespace Elitra.Heap
open ByteMem BlockList

/-- The header at `p` describes `b` and links to `next`. -/
structure Header (m : Mem) (p : ℕ) (b : Block) (next : ℕ) : Prop where
  size : blockSize m p = b.size
  free : blockFree m p = b.free
  link : blockNext m p = next

/-- The pointer to a list of blocks laid out at `a`: the tail pointer `z` when there are none. -/
def linkTo (z a : ℕ) : List Block → ℕ
  | [] => z
  | _ :: _ => a

/-- Memory holds the blocks `bs` one behind the other from `a` on, the last one linking to `z`. -/
def Chain (m : Mem) (z : ℕ) : ℕ → List Block → Prop
  | _, [] => True
  | a, b :: bs =>
    Header m a b (linkTo z (a + (headerSize + b.size)) bs) ∧ Chain m z (a + (headerSize + b.size)) bs

variable {m m' : Mem}

variable {b : Block} {p : ℕ}

lemma Header.congr {next : ℕ} (h : Header m p b next)
    (he : ∀ x, p ≤ x → x < p + headerSize → m' x = m x) : Header m' p b next := by
  obtain ⟨h1, h2, h3⟩ := h
  have he' : ∀ x, p ≤ x → x < p + 17 → m' x = m x := he
  refine ⟨?_, ?_, ?_⟩
  · rw [← h1]
    exact readLE_congr fun x hx hx' => he' x (by omega) (by omega)
  · rw [← h2, blockFree, blockFree, he' (p + 8) (by omega) (by omega)]
  rw [← h3]
  exact readLE_congr fun x hx hx' => he' x (by omega) (by omega)

variable {z a : ℕ}

variable {m : Mem}

lemma chain_append {xs ys : List Block} : Chain m z a (xs ++ ys) ↔
      Chain m (linkTo z (a + span headerSize xs) ys) a xs ∧
        Chain m z (a + span headerSize xs) ys := by
  induction xs generalizing a with
  | nil => simp [Chain]
  | cons b xs ih =>
    have ha : a + span headerSize (b :: xs) = a + (headerSize + b.size) + span headerSize xs := by
      simp only [span_cons]
      omega
    have hl : linkTo z (a + (headerSize + b.size)) (xs ++ ys) =
        linkTo (linkTo z (a + (headerSize + b.size) + span headerSize xs) ys)
          (a + (headerSize + b.size)) xs := by
      cases xs with
      | nil => simp [linkTo]
      | cons c xs => rfl
    rw [List.cons_append, Chain, Chain, ih, ha, hl, and_assoc]

variable {bs : List Block}

lemma Chain.congr (h : Chain m z a bs)
    (he : ∀ x, a ≤ x → x < a + span headerSize bs → m' x = m x) : Chain m' z a bs := by
  induction bs generalizing a with
  | nil => trivial
  | cons b bs ih =>
    obtain ⟨hh, hc⟩ := h
    simp only [span_cons] at he
    exact ⟨hh.congr fun x h1 h2 => he x h1 (by omega),
      ih hc fun x h1 h2 => he x (by omega) (by omega)⟩

variable {pre : List Block}

lemma chain_replace {post : List Block} (xs ys : List Block)
    (hc : Chain m z a (pre ++ (xs ++ post))) (hx : xs ≠ []) (hy : ys ≠ [])
    (hs : span headerSize ys = span headerSize xs)
    (hm : ∀ x, x < a + span headerSize pre ∨ a + span headerSize pre + span headerSize xs ≤ x →
      m' x = m x)
    (hnew : Chain m' (linkTo z (a + span headerSize pre + span headerSize xs) post)
      (a + span headerSize pre) ys) :
    Chain m' z a (pre ++ (ys ++ post)) := by
  obtain ⟨hpre, hr⟩ := chain_append.mp hc
  obtain ⟨-, hp⟩ := chain_append.mp hr
  rw [chain_append, chain_append, hs]
  refine ⟨?_, hnew, ?_⟩
  · have hl : linkTo z (a + span headerSize pre) (ys ++ post) =
        linkTo z (a + span headerSize pre) (xs ++ post) := by
      obtain ⟨x, xs, rfl⟩ := List.exists_cons_of_ne_nil hx
      obtain ⟨y, ys, rfl⟩ := List.exists_cons_of_ne_nil hy
      rfl
    rw [hl]
    exact hpre.congr fun x _ h2 => hm x (Or.inl h2)
  · exact hp.congr fun x h1 _ => hm x (Or.inr h1)

lemma chain_header {post : List Block} (hc : Chain m z a (pre ++ b :: post)) :
    Header m (a + span headerSize pre) b
      (linkTo z (a + span headerSize pre + (headerSize + b.size)) post) :=
  (chain_append.mp hc).2.1

variable {a : ℕ}

section Specs

variable {mapped : ℕ → Bool}

def HeaderMapped (mapped : ℕ → Bool) (p : ℕ) : Prop := ∀ i, i < headerSize → mapped (p + i) = true

def HeadersMapped (mapped : ℕ → Bool) (a : ℕ) (bs : List Block) : Prop :=
  ∀ p b, At headerSize a bs p b → HeaderMapped mapped p

lemma touch_ok (h : HeaderMapped mapped p) : touch mapped p = .ok () := by
  have : ((List.range headerSize).all fun i => mapped (p + i)) = true := by
    rw [List.all_eq_true]
    intro i hi
    exact h i (List.mem_range.mp hi)
  rw [touch, if_pos this]

lemma touch_fault (h : ¬ HeaderMapped mapped p) : touch mapped p = .error (.fault p) := by
  have : ¬ ((List.range headerSize).all fun i => mapped (p + i)) = true := by
    intro hall
    rw [List.all_eq_true] at hall
    exact h fun i hi => hall i (List.mem_range.mpr hi)
  rw [touch, if_neg this]

/-- A block that can serve a request of `n` bytes. -/
def Suits (n : ℕ) (b : Block) : Prop := b.free = true ∧ n ≤ b.size

instance (n : ℕ) (b : Block) : Decidable (Suits n b) := inferInstanceAs (Decidable (_ ∧ _))

/-- The first block of the list that suits, with what stands before and behind it. -/
def FirstFit (n : ℕ) (bs pre : List Block) (b : Block) (post : List Block) : Prop :=
  bs = pre ++ b :: post ∧ Suits n b ∧ ∀ c ∈ pre, ¬ Suits n c

lemma firstFit_or_none (n : ℕ) (bs : List Block) :
    (∃ pre b post, FirstFit n bs pre b post) ∨ ∀ c ∈ bs, ¬ Suits n c := by
  induction bs with
  | nil => exact Or.inr (by simp)
  | cons b bs ih =>
    by_cases hb : Suits n b
    · exact Or.inl ⟨[], b, bs, rfl, hb, by simp⟩
    rcases ih with ⟨pre, c, post, rfl, hc, hpre⟩ | hn
    · refine Or.inl ⟨b :: pre, c, post, rfl, hc, ?_⟩
      intro d hd
      rcases List.mem_cons.mp hd with rfl | hd
      · exact hb
      · exact hpre d hd
    refine Or.inr fun d hd => ?_
    rcases List.mem_cons.mp hd with rfl | hd
    · exact hb
    · exact hn d hd

variable {m : Mem} {b : Block}

lemma findBlock_cons {n fuel prev next : ℕ} (ha : a ≠ 0)
    (hmap : HeaderMapped mapped a) (hb : Header m a b next) :
    findBlock mapped m n (fuel + 1) prev a =
      if Suits n b then .ok (a, prev) else findBlock mapped m n fuel a next := by
  rw [findBlock, if_neg ha, touch_ok hmap, ok_bind, hb.size, hb.free, hb.link]
  by_cases hs : Suits n b
  · rw [if_pos hs, if_pos (by simpa [Suits] using hs)]
  · rw [if_neg hs, if_neg (by simpa [Suits] using hs)]

lemma findBlock_skip {n : ℕ} (rest : List Block) (fuel prev : ℕ)
    (ha : a ≠ 0) (hc : Chain m 0 a (pre ++ rest)) (hmap : HeadersMapped mapped a pre)
    (hpre : ∀ c ∈ pre, ¬ Suits n c) :
    ∃ prev', findBlock mapped m n (pre.length + fuel) prev (linkTo 0 a (pre ++ rest)) =
      findBlock mapped m n fuel prev' (linkTo 0 (a + span headerSize pre) rest) := by
  induction pre generalizing a prev with
  | nil => exact ⟨prev, by simp⟩
  | cons b pre ih =>
    rw [List.cons_append] at hc ⊢
    obtain ⟨hb, hc'⟩ := hc
    have hm : HeaderMapped mapped a := hmap a b (at_cons.mpr (Or.inl ⟨rfl, rfl⟩))
    obtain ⟨prev', hrun⟩ := ih (a := a + (headerSize + b.size)) a (by omega) hc'
      (fun p c hp => hmap p c (at_cons.mpr (Or.inr hp))) (fun c hin => hpre c (by simp [hin]))
    refine ⟨prev', ?_⟩
    rw [show (b :: pre).length + fuel = pre.length + fuel + 1 by simp; omega]
    change findBlock mapped m n (pre.length + fuel + 1) prev a = _
    rw [findBlock_cons ha hm hb, if_neg (hpre b (by simp)), hrun, span_cons,
      show a + (headerSize + b.size) + span headerSize pre =
        a + (headerSize + b.size + span headerSize pre) by omega]

lemma findBlock_found {n fuel : ℕ} {post : List Block}
    (prev : ℕ) (ha : a ≠ 0) (hc : Chain m 0 a bs) (hmap : HeadersMapped mapped a bs)
    (hfit : FirstFit n bs pre b post) (hf : bs.length < fuel) :
    ∃ prev', findBlock mapped m n fuel prev (linkTo 0 a bs) =
      .ok (a + span headerSize pre, prev') := by
  obtain ⟨rfl, hb, hpre⟩ := hfit
  rw [List.length_append, List.length_cons] at hf
  obtain ⟨k, rfl⟩ : ∃ k, fuel = pre.length + (k + 1) := ⟨fuel - pre.length - 1, by omega⟩
  obtain ⟨prev', hrun⟩ := findBlock_skip (b :: post) (k + 1) prev ha hc
    (fun p c hp => hmap p c (at_append.mpr (Or.inl hp))) hpre
  refine ⟨prev', ?_⟩
  rw [hrun]
  change findBlock mapped m n (k + 1) prev' (a + span headerSize pre) = _
  rw [findBlock_cons (by omega) (hmap _ b ⟨pre, post, rfl, rfl⟩) (chain_header hc), if_pos hb]

lemma findBlock_none {n fuel : ℕ}
    (prev : ℕ) (ha : a ≠ 0) (hc : Chain m 0 a bs) (hmap : HeadersMapped mapped a bs)
    (hn : ∀ c ∈ bs, ¬ Suits n c) (hf : bs.length < fuel) :
    ∃ prev', findBlock mapped m n fuel prev (linkTo 0 a bs) = .ok (0, prev') := by
  obtain ⟨k, rfl⟩ : ∃ k, fuel = bs.length + (k + 1) := ⟨fuel - bs.length - 1, by omega⟩
  obtain ⟨prev', hrun⟩ := findBlock_skip [] (k + 1) prev ha
    (by simpa using hc) hmap hn
  rw [List.append_nil] at hrun
  refine ⟨prev', hrun.trans ?_⟩
  rw [linkTo, findBlock, if_pos rfl]

variable {pre post : List Block}

lemma setFree_spec {z : ℕ} (f : Bool) (hc : Chain m z a (pre ++ b :: post)) :
    Chain (setFree m (a + span headerSize pre) f) z a (pre ++ ⟨b.size, f⟩ :: post) := by
  have h17 : headerSize = 17 := rfl
  obtain ⟨h1, -, h3⟩ := chain_header hc
  refine chain_replace [b] [⟨b.size, f⟩] hc (by simp) (by simp) rfl ?_ ?_
  · intro x hx
    simp only [span_cons, span_nil] at hx
    exact setFree_of_ne (by omega)
  refine ⟨⟨?_, blockFree_setFree, ?_⟩, trivial⟩
  · rw [blockSize_setFree (by omega), h1]
  rw [blockNext_setFree (by omega), h3]
  simp only [linkTo, span_cons, span_nil, Nat.add_zero]

/-- `split_block` carves the block it is given and writes nothing outside its header and the
part that is cut off. -/
lemma splitBlock_spec {n : ℕ} (hc : Chain m 0 a (pre ++ b :: post))
    (hend : a + span headerSize (pre ++ b :: post) < 2 ^ 64)
    (hmap : HeaderMapped mapped (a + span headerSize pre))
    (hnew : n + headerSize + 16 ≤ b.size →
      HeaderMapped mapped (a + span headerSize pre + headerSize + n)) :
    ∃ m', splitBlock mapped m (a + span headerSize pre) n = .ok m' ∧
      Chain m' 0 a (pre ++ (carve headerSize 16 n b ++ post)) ∧
      ∀ x, x < a + span headerSize pre ∨ a + span headerSize pre + headerSize ≤ x →
        x < a + span headerSize pre + headerSize + n ∨
          a + span headerSize pre + (headerSize + b.size) ≤ x → m' x = m x := by
  have h17 : headerSize = 17 := rfl
  have hb := chain_header hc
  simp only [span_append, span_cons] at hend
  set p := a + span headerSize pre with hp
  by_cases hs : b.size < n + headerSize + 16
  · refine ⟨m, ?_, ?_, fun x _ _ => rfl⟩
    · rw [splitBlock, touch_ok hmap, ok_bind, hb.size, if_pos hs]
    rw [carve, if_pos hs]
    exact hc
  set nb := p + headerSize + n with hnb
  set m1 := setSize m nb (b.size - n - headerSize) with hm1
  set m2 := setFree m1 nb true with hm2
  set m3 := setNext m2 nb (blockNext m2 p) with hm3
  set m4 := setSize m3 p n with hm4
  have hrun : splitBlock mapped m p n = .ok (setNext m4 p nb) := by
    rw [splitBlock, touch_ok hmap, ok_bind, hb.size, if_neg hs]
    simp only [← hnb, touch_ok (hnew (by omega)), ok_bind]
    rfl
  have hl : blockNext m2 p = linkTo 0 (p + (headerSize + b.size)) post := by
    rw [hm2, hm1, blockNext_setFree (by omega), blockNext_setSize (by omega), hb.link]
  have hlt : linkTo 0 (p + (headerSize + b.size)) post < 2 ^ 64 := by
    cases post with
    | nil => simp [linkTo]
    | cons c post => simp only [linkTo]; omega
  have hf : ∀ x, x < p ∨ p + headerSize ≤ x →
      x < nb ∨ p + (headerSize + b.size) ≤ x → setNext m4 p nb x = m x := by
    intro x h1 h2
    rw [setNext_of_outside (by omega), hm4, setSize_of_outside (by omega), hm3,
      setNext_of_outside (by omega), hm2, setFree_of_ne (by omega), hm1,
      setSize_of_outside (by omega)]
  refine ⟨setNext m4 p nb, hrun, ?_, hf⟩
  rw [carve, if_neg hs]
  refine chain_replace [b] _ hc (by simp) (by simp) ?_ ?_ ?_
  · simp only [span_cons, span_nil]
    omega
  · intro x hx
    simp only [span_cons, span_nil] at hx
    exact hf x (by omega) (by omega)
  refine ⟨⟨?_, ?_, ?_⟩, ⟨?_, ?_, ?_⟩, trivial⟩
  · rw [blockSize_setNext (by omega), hm4, blockSize_setSize (by omega)]
  · rw [blockFree_setNext (by omega), hm4, blockFree_setSize (by omega), hm3,
      blockFree_setNext (by omega), hm2, blockFree_setFree_ne (by omega), hm1,
      blockFree_setSize (by omega), hb.free]
  · rw [blockNext_setNext (by omega)]
    simp only [linkTo]
    omega
  all_goals rw [← hp, show p + (headerSize + n) = nb by omega]
  · rw [blockSize_setNext (by omega), hm4, blockSize_setSize_ne (by omega), hm3,
      blockSize_setNext (by omega), hm2, blockSize_setFree (by omega), hm1,
      blockSize_setSize (by omega)]
  · rw [blockFree_setNext (by omega), hm4, blockFree_setSize (by omega), hm3,
      blockFree_setNext (by omega), hm2, blockFree_setFree]
  rw [blockNext_setNext_ne (by omega), hm4, blockNext_setSize (by omega), hm3, hl,
    blockNext_setNext hlt]
  simp only [linkTo, span_cons, span_nil, Nat.add_zero]

lemma join_spec {c : Block} (hc : Chain m 0 a (pre ++ b :: c :: post)) (hf : b.free = true)
    (hend : a + span headerSize (pre ++ b :: c :: post) < 2 ^ 64) :
    let p := a + span headerSize pre
    let m1 := setSize m p (b.size + (headerSize + c.size))
    Chain (setNext m1 p (blockNext m1 (p + (headerSize + b.size)))) 0 a
      (pre ++ ⟨b.size + (headerSize + c.size), true⟩ :: post) := by
  intro p m1
  have h17 : headerSize = 17 := rfl
  have hb := chain_header hc
  have hc' : Chain m 0 a ((pre ++ [b]) ++ c :: post) := by simpa using hc
  have hcc := chain_header hc'
  simp only [span_append, span_cons, span_nil, Nat.add_zero] at hend hcc
  have hq : a + (span headerSize pre + (headerSize + b.size)) = p + (headerSize + b.size) := by
    simp only [p]
    omega
  rw [hq] at hcc
  have hn : blockNext m1 (p + (headerSize + b.size)) =
      linkTo 0 (p + (headerSize + b.size) + (headerSize + c.size)) post := by
    rw [← hcc.link]
    exact blockNext_setSize (by omega)
  have hlt : linkTo 0 (p + (headerSize + b.size) + (headerSize + c.size)) post < 2 ^ 64 := by
    cases post with
    | nil => simp [linkTo]
    | cons d post => simp only [linkTo]; omega
  refine chain_replace [b, c] [⟨b.size + (headerSize + c.size), true⟩] hc (by simp) (by simp)
    ?_ ?_ ?_
  · simp only [span_cons, span_nil]
    omega
  · intro x hx
    simp only [span_cons, span_nil] at hx
    rw [setNext_of_outside (by omega)]
    exact setSize_of_outside (by omega)
  refine ⟨⟨?_, ?_, ?_⟩, trivial⟩
  · rw [blockSize_setNext (by omega)]
    exact blockSize_setSize (by omega)
  · rw [blockFree_setNext (by omega)]
    exact (blockFree_setSize (by omega)).trans (hb.free.trans hf)
  rw [hn, blockNext_setNext hlt]
  simp only [linkTo, span_cons, span_nil, Nat.add_zero]
  rw [show p + (headerSize + b.size) + (headerSize + c.size) =
    a + span headerSize pre + (headerSize + b.size + (headerSize + c.size)) by omega]

lemma mergeAdjacent_last {k : ℕ} (hp : p ≠ 0) (hmap : HeaderMapped mapped p) (hb : Header m p b 0) :
    mergeAdjacent mapped (k + 1) m p = .ok m := by
  rw [mergeAdjacent, if_neg hp, touch_ok hmap, ok_bind, if_pos hb.link]

lemma mergeAdjacent_cons {k q r : ℕ} {c : Block} (hp : p ≠ 0) (hq : q ≠ 0)
    (hmap : HeaderMapped mapped p) (hm : HeaderMapped mapped q)
    (hb : Header m p b q) (hc : Header m q c r) :
    mergeAdjacent mapped (k + 1) m p =
      if b.free && c.free then
        let m1 := setSize m p (b.size + (headerSize + c.size))
        mergeAdjacent mapped k (setNext m1 p (blockNext m1 q)) p
      else mergeAdjacent mapped k m q := by
  rw [mergeAdjacent, if_neg hp, touch_ok hmap, ok_bind, hb.link, if_neg hq, hb.free]
  cases hbf : b.free with
  | false => simp
  | true => rw [if_pos rfl, touch_ok hm, ok_bind, hc.free, hb.size, hc.size, Bool.true_and]

/-- `merge_adjacent` from the block `b` on is one coalescing pass; it writes into headers only. -/
lemma mergeAdjacent_spec {k : ℕ} {rest : List Block}
    (pre : List Block) (ha : a ≠ 0) (hc : Chain m 0 a (pre ++ b :: rest))
    (hend : a + span headerSize (pre ++ b :: rest) < 2 ^ 64)
    (hmap : HeadersMapped mapped (a + span headerSize pre) (b :: rest)) (hk : rest.length < k) :
    ∃ m', mergeAdjacent mapped k m (a + span headerSize pre) = .ok m' ∧
      Chain m' 0 a (pre ++ coalesce headerSize b rest) ∧
      ∀ x, (∀ p c, At headerSize (a + span headerSize pre) (b :: rest) p c →
        x < p ∨ p + headerSize ≤ x) → m' x = m x := by
  have h17 : headerSize = 17 := rfl
  induction rest generalizing m k pre b with
  | nil =>
    obtain ⟨k, rfl⟩ : ∃ j, k = j + 1 := ⟨k - 1, by simp at hk; omega⟩
    have hm := hmap _ b (at_cons.mpr (Or.inl ⟨rfl, rfl⟩))
    exact ⟨m, mergeAdjacent_last (by omega) hm (chain_header hc), hc, fun x _ => rfl⟩
  | cons c rest ih =>
    rw [List.length_cons] at hk
    obtain ⟨k, rfl⟩ : ∃ j, k = j + 1 := ⟨k - 1, by omega⟩
    have hc' : Chain m 0 a ((pre ++ [b]) ++ c :: rest) := by simpa using hc
    have hb := chain_header hc
    have hcc := chain_header hc'
    have hq : a + span headerSize (pre ++ [b]) = a + span headerSize pre + (headerSize + b.size) := by
      simp only [span_append, span_cons, span_nil]
      omega
    rw [hq] at hcc
    set p := a + span headerSize pre with hp
    have hm := hmap p b (at_cons.mpr (Or.inl ⟨rfl, rfl⟩))
    have hma := hmap _ c (at_cons.mpr (Or.inr (at_cons.mpr (Or.inl ⟨rfl, rfl⟩))))
    rw [mergeAdjacent_cons (by omega) (by omega) hm hma hb hcc, coalesce]
    by_cases hf : (b.free && c.free) = true
    · rw [if_pos hf, if_pos hf]
      have hbf : b.free = true := by simp only [Bool.and_eq_true] at hf; exact hf.1
      -- Headers behind the joined block are headers behind `c`.
      have hbe : ∀ q d,
          At headerSize (p + (headerSize + (b.size + (headerSize + c.size)))) rest q d →
          At headerSize p (b :: c :: rest) q d := by
        intro q d hqd
        refine at_cons.mpr (Or.inr (at_cons.mpr (Or.inr ?_)))
        rwa [show p + (headerSize + b.size) + (headerSize + c.size) =
          p + (headerSize + (b.size + (headerSize + c.size))) by omega]
      obtain ⟨m', hrun, hch, hfr⟩ := ih (k := k) pre (join_spec hc hbf hend)
        (by
          simp only [span_append, span_cons] at hend ⊢
          omega)
        (by
          intro q d hqd
          rcases at_cons.mp hqd with ⟨rfl, -⟩ | hqd'
          · exact hm
          · exact hmap q d (hbe q d hqd'))
        (by omega)
      refine ⟨m', hrun, hch, fun x hx => ?_⟩
      have hxp := hx p b (at_cons.mpr (Or.inl ⟨rfl, rfl⟩))
      rw [hfr x, setNext_of_outside (by omega), setSize_of_outside (by omega)]
      intro q d hqd
      rcases at_cons.mp hqd with ⟨rfl, -⟩ | hqd'
      · exact hxp
      · exact hx q d (hbe q d hqd')
    rw [if_neg hf, if_neg hf]
    obtain ⟨m', hrun, hch, hfr⟩ := ih (k := k) (pre ++ [b]) hc' (by simpa using hend)
      (by
        rw [hq]
        exact fun q d hqd => hmap q d (at_cons.mpr (Or.inr hqd)))
      (by omega)
    rw [hq] at hrun hfr
    refine ⟨m', hrun, by simpa using hch, fun x hx => hfr x fun q d hqd => ?_⟩
    exact hx q d (at_cons.mpr (Or.inr hqd))

end Specs

end Elitra.Heap
