import Elitra.HeapChain

namespace Elitra.Heap
open Function BlockList

/-- A block in use: `n` payload bytes behind the header at `p`. -/
def Used (bs : List Block) (p n : ℕ) : Prop := At headerSize heapStart bs p ⟨n, false⟩

/-- What an allocation of `n` bytes does to the list of blocks, and the pointer it returns. -/
inductive AllocEffect (n : ℕ) (bs : List Block) : ℕ → List Block → Prop
  | none (h : ∀ c ∈ bs, ¬ Suits n c) : AllocEffect n bs 0 bs
  | found {pre post : List Block} {b : Block} (h : FirstFit n bs pre b post) :
    AllocEffect n bs (heapStart + span headerSize pre + headerSize)
      (pre ++ (carve headerSize 16 n ⟨b.size, false⟩ ++ post))

inductive FreeEffect (bs : List Block) : ℕ → List Block → Prop
  | null : FreeEffect bs 0 bs
  | used {pre post : List Block} {b : Block} (he : bs = pre ++ b :: post) (hb : b.free = false) :
    FreeEffect bs (heapStart + span headerSize pre + headerSize)
      (coalesceAll headerSize (pre ++ ⟨b.size, true⟩ :: post))

/-- The five ways through a reallocation of the pointer (first index) to `size` bytes. -/
inductive ReallocEffect (size : UInt32) (bs : List Block) : ℕ → ℕ → List Block → Prop
  | fresh {q : ℕ} {bs' : List Block} (h : AllocEffect (roundSize size) bs q bs') :
    ReallocEffect size bs 0 q bs'
  | release {p : ℕ} {bs' : List Block} (hp : p ≠ 0) (hn : size.toNat = 0)
      (h : FreeEffect bs p bs') : ReallocEffect size bs p 0 bs'
  | shrink {pre post : List Block} {b : Block} (hn : size.toNat ≠ 0) (he : bs = pre ++ b :: post)
      (hb : b.free = false) (hs : size.toNat ≤ b.size) :
    ReallocEffect size bs (heapStart + span headerSize pre + headerSize)
      (heapStart + span headerSize pre + headerSize)
      (pre ++ (carve headerSize 16 size.toNat b ++ post))
  | move {p k q : ℕ} {bs₁ bs₂ : List Block} (hu : Used bs p k) (hk : k < size.toNat) (hq : q ≠ 0)
      (ha : AllocEffect (roundSize size) bs q bs₁) (hf : FreeEffect bs₁ (p + headerSize) bs₂) :
    ReallocEffect size bs (p + headerSize) q bs₂
  | fail {p k : ℕ} (hu : Used bs p k) (hk : k < size.toNat)
      (ha : AllocEffect (roundSize size) bs 0 bs) : ReallocEffect size bs (p + headerSize) 0 bs

/-- The allocations the clients hold: the last requested size of each live pointer. -/
abbrev Live := ℕ → Option ℕ

def Live.alloc (live : Live) (q n : ℕ) : Live :=
  if q = 0 then live else update live q (some n)

def Live.free (live : Live) (p : ℕ) : Live := update live p none

def Live.realloc (live : Live) (p n q : ℕ) : Live :=
  if p ≠ 0 ∧ n = 0 then live.free p
  else if q = 0 then live
  else (live.free p).alloc q n

/-- The blocks in use are the live allocations, and an unused heap is one block. -/
structure Books (live : Live) (bs : List Block) : Prop where
  used : ∀ p k, Used bs p k → (live (p + headerSize)).isSome
  live : ∀ q n, live q = some n → ∃ p k, q = p + headerSize ∧ Used bs p k ∧ n ≤ k
  merged : (∀ p k, ¬ Used bs p k) → bs = [⟨heapSize - headerSize, true⟩]

section Used

variable {bs pre post xs : List Block} {b : Block} {n p q k : ℕ}

lemma Used.unique {k' : ℕ} (h : Used bs p k) (h' : Used bs p k') : k = k' := by
  have he := at_unique (by decide) h h'
  simpa using he

lemma Used.split (h : Used bs p k) : ∃ pre post,
    bs = pre ++ ⟨k, false⟩ :: post ∧ p = heapStart + span headerSize pre := h

lemma used_replace (hs : span headerSize xs = headerSize + b.size) :
    Used (pre ++ (xs ++ post)) q k ↔
      At headerSize (heapStart + span headerSize pre) xs q ⟨k, false⟩ ∨
        (Used (pre ++ b :: post) q k ∧ q ≠ heapStart + span headerSize pre) := by
  have h17 : headerSize = 17 := rfl
  unfold Used
  rw [at_append, at_append, at_append, at_cons, hs]
  constructor
  · rintro (h | h | h)
    · have := (at_bounds h).2
      exact .inr ⟨.inl h, by omega⟩
    · exact .inl h
    have := (at_bounds h).1
    exact .inr ⟨.inr (.inr h), by omega⟩
  rintro (h | ⟨h | ⟨hq, -⟩ | h, hne⟩)
  · exact .inr (.inl h)
  · exact .inl h
  · exact absurd hq hne
  · exact .inr (.inr h)

/-- The size of the piece of a carved block that stays in use. -/
def keptSize (n : ℕ) (b : Block) : ℕ := if b.size < n + headerSize + 16 then b.size else n

lemma le_keptSize (h : n ≤ b.size) : n ≤ keptSize n b := by
  unfold keptSize
  split
  · exact h
  · exact Nat.le_refl n

lemma at_carve_used {a : ℕ} :
    At headerSize a (carve headerSize 16 n ⟨b.size, false⟩) q ⟨k, false⟩ ↔
      q = a ∧ k = keptSize n b := by
  unfold carve keptSize
  split
  · rw [at_cons]
    simp [at_nil]
  rw [at_cons, at_cons]
  simp [at_nil]

lemma used_carve :
    Used (pre ++ (carve headerSize 16 n ⟨b.size, false⟩ ++ post)) q k ↔
      (q = heapStart + span headerSize pre ∧ k = keptSize n b) ∨
        (Used (pre ++ b :: post) q k ∧ q ≠ heapStart + span headerSize pre) := by
  rw [used_replace (b := b) (span_carve 16 n ⟨b.size, false⟩), at_carve_used]

lemma used_alloc (hb : b.free = true) :
    Used (pre ++ (carve headerSize 16 n ⟨b.size, false⟩ ++ post)) q k ↔
      (q = heapStart + span headerSize pre ∧ k = keptSize n b) ∨ Used (pre ++ b :: post) q k := by
  have hne : Used (pre ++ b :: post) q k → q ≠ heapStart + span headerSize pre := by
    rintro h rfl
    have he := at_unique (by decide) h ⟨pre, post, rfl, rfl⟩
    rw [← he] at hb
    simp at hb
  rw [used_carve]
  exact or_congr_right (and_iff_left_of_imp hne)

lemma used_free :
    Used (coalesceAll headerSize (pre ++ ⟨b.size, true⟩ :: post)) q k ↔
      Used (pre ++ b :: post) q k ∧ q ≠ heapStart + span headerSize pre := by
  have h : Used (pre ++ ([⟨b.size, true⟩] ++ post)) q k ↔ _ := used_replace (b := b) rfl
  rw [at_cons] at h
  unfold Used at h ⊢
  rw [at_coalesceAll_used rfl]
  simpa [at_nil] using h

end Used

section Books

variable {live : Live} {bs bs' : List Block} {n p q : ℕ}

lemma Books.init : Books (fun _ => none) [⟨heapSize - headerSize, true⟩] := by
  refine ⟨?_, ?_, fun _ => rfl⟩
  · intro p k h
    rcases at_cons.mp h with ⟨-, he⟩ | h
    · simp at he
    · exact absurd h at_nil
  intro q n h
  simp at h

lemma AllocEffect.result_pos (h : AllocEffect n bs q bs') (hq : q ≠ 0) :
    ∃ p k, q = p + headerSize ∧ Used bs' p k ∧ n ≤ k ∧ ∀ k', ¬ Used bs p k' := by
  cases h with
  | none h => exact absurd rfl hq
  | @found pre post b h =>
    obtain ⟨rfl, ⟨hf, hs⟩, -⟩ := h
    refine ⟨_, keptSize n b, rfl, (used_alloc hf).mpr (.inl ⟨rfl, rfl⟩), le_keptSize hs, ?_⟩
    intro k' hk'
    have he := at_unique (by decide) hk' ⟨pre, post, rfl, rfl⟩
    rw [← he] at hf
    simp at hf

lemma AllocEffect.used_iff (h : AllocEffect n bs q bs') {p k : ℕ} (hne : q ≠ p + headerSize) :
    Used bs' p k ↔ Used bs p k := by
  cases h with
  | none h => rfl
  | @found pre post b h =>
    obtain ⟨rfl, ⟨hf, -⟩, -⟩ := h
    rw [used_alloc hf]
    refine or_iff_right ?_
    rintro ⟨rfl, -⟩
    exact hne rfl

lemma Books.alloc {m : ℕ} (hb : Books live bs) (h : AllocEffect n bs q bs') (hm : m ≤ n) :
    Books (live.alloc q m) bs' := by
  by_cases hq : q = 0
  · subst hq
    cases h with
    | none h => exact hb
  obtain ⟨p, k, rfl, hu, hk, -⟩ := h.result_pos hq
  rw [Live.alloc, if_neg hq]
  refine ⟨?_, ?_, fun hn => absurd hu (hn p k)⟩
  · intro p' k' hu'
    by_cases he : p + headerSize = p' + headerSize
    · simp [he]
    rw [update_of_ne (Ne.symm he)]
    exact hb.used p' k' ((h.used_iff he).mp hu')
  intro q' n' hl
  by_cases he : q' = p + headerSize
  · subst he
    rw [update_self, Option.some.injEq] at hl
    exact ⟨p, k, rfl, hu, by omega⟩
  rw [update_of_ne he] at hl
  obtain ⟨p', k', rfl, hu', hk'⟩ := hb.live q' n' hl
  exact ⟨p', k', rfl, (h.used_iff (Ne.symm he)).mpr hu', hk'⟩

lemma FreeEffect.used_iff (h : FreeEffect bs p bs') {p' k : ℕ} :
    Used bs' p' k ↔ Used bs p' k ∧ p ≠ p' + headerSize := by
  cases h with
  | null =>
    refine (and_iff_left ?_).symm
    have h17 : headerSize = 17 := rfl
    omega
  | @used pre post b he hb =>
    subst he
    rw [used_free]
    have : p' ≠ heapStart + span headerSize pre ↔
        heapStart + span headerSize pre + headerSize ≠ p' + headerSize := by omega
    rw [this]

lemma FreeEffect.merged (h : FreeEffect bs p bs') (hext : span headerSize bs = heapSize)
    (hb : (∀ p k, ¬ Used bs p k) → bs = [⟨heapSize - headerSize, true⟩])
    (hn : ∀ p k, ¬ Used bs' p k) : bs' = [⟨heapSize - headerSize, true⟩] := by
  cases h with
  | null => exact hb hn
  | @used pre post b he hb' =>
    subst he
    have hs : span headerSize (pre ++ ⟨b.size, true⟩ :: post) = heapSize := by
      rw [← hext]
      simp only [span_append, span_cons]
    rw [coalesceAll_all_free (by simp), hs]
    intro c hc
    by_contra hf
    rw [Bool.not_eq_true] at hf
    obtain ⟨l, r, hlr⟩ := List.append_of_mem hc
    refine hn (heapStart + span headerSize l) c.size ?_
    refine (at_coalesceAll_used rfl).mpr ⟨l, r, ?_, rfl⟩
    rw [hlr, ← hf]

lemma Books.free (hb : Books live bs) (h : FreeEffect bs p bs')
    (hext : span headerSize bs = heapSize) : Books (live.free p) bs' := by
  refine ⟨?_, ?_, h.merged hext hb.merged⟩
  · intro p' k hu
    obtain ⟨hu', hne⟩ := h.used_iff.mp hu
    rw [Live.free, update_of_ne (Ne.symm hne)]
    exact hb.used p' k hu'
  intro q n hl
  by_cases he : q = p
  · simp [Live.free, he] at hl
  rw [Live.free, update_of_ne he] at hl
  obtain ⟨p', k, rfl, hu, hk⟩ := hb.live q n hl
  exact ⟨p', k, rfl, h.used_iff.mpr ⟨hu, Ne.symm he⟩, hk⟩

lemma Books.null (hb : Books live bs) : live 0 = none := by
  cases hl : live 0 with
  | none => rfl
  | some n =>
    obtain ⟨p, k, h0, -, -⟩ := hb.live 0 n hl
    have h17 : headerSize = 17 := rfl
    omega

lemma le_roundSize (size : UInt32) : size.toNat ≤ roundSize size := by
  unfold roundSize
  split
  · omega
  · omega

lemma Books.shrink {pre post : List Block} {b : Block} (hb : Books live (pre ++ b :: post))
    (hf : b.free = false) (hn : n ≤ b.size) :
    Books (update live (heapStart + span headerSize pre + headerSize) (some n))
      (pre ++ (carve headerSize 16 n b ++ post)) := by
  have hc : carve headerSize 16 n b = carve headerSize 16 n ⟨b.size, false⟩ := by rw [← hf]
  have hu : Used (pre ++ (carve headerSize 16 n b ++ post)) (heapStart + span headerSize pre)
      (keptSize n b) := by
    rw [hc]
    exact used_carve.mpr (.inl ⟨rfl, rfl⟩)
  refine ⟨?_, ?_, fun hno => absurd hu (hno _ _)⟩
  · intro p k h
    rw [hc] at h
    rcases used_carve.mp h with ⟨rfl, -⟩ | ⟨h', hne⟩
    · simp
    rw [update_of_ne (by omega)]
    exact hb.used p k h'
  intro q m hl
  by_cases he : q = heapStart + span headerSize pre + headerSize
  · rw [he, update_self, Option.some.injEq] at hl
    exact ⟨_, _, he, hu, hl ▸ le_keptSize hn⟩
  rw [update_of_ne he] at hl
  obtain ⟨p, k, rfl, h, hk⟩ := hb.live q m hl
  refine ⟨p, k, rfl, ?_, hk⟩
  rw [hc]
  exact used_carve.mpr (.inr ⟨h, by omega⟩)

lemma AllocEffect.extent (h : AllocEffect n bs q bs') :
    span headerSize bs' = span headerSize bs := by
  cases h with
  | none h => rfl
  | found h =>
    rw [h.1]
    simp only [span_append, span_cons, span_carve]

lemma Books.realloc {size : UInt32} (hb : Books live bs) (h : ReallocEffect size bs p q bs')
    (hext : span headerSize bs = heapSize) : Books (live.realloc p size.toNat q) bs' := by
  unfold Live.realloc
  cases h with
  | fresh h =>
    have h0 : live.free 0 = live := by
      rw [Live.free, ← hb.null, update_eq_self]
    have hal := hb.alloc h (le_roundSize size)
    rw [if_neg (by simp), h0]
    split
    · rename_i hq
      rwa [Live.alloc, if_pos hq] at hal
    · exact hal
  | release hp hn h =>
    rw [if_pos ⟨hp, hn⟩]
    exact hb.free h hext
  | shrink hn he hfre hs =>
    subst he
    have h17 : headerSize = 17 := rfl
    rw [if_neg (by tauto), if_neg (by omega), Live.alloc, if_neg (by omega), Live.free, update_idem]
    exact hb.shrink hfre hs
  | @move p k q bs1 bs2 hu hk hq ha hf =>
    obtain ⟨p', k', rfl, -, -, hfr⟩ := ha.result_pos hq
    have hne : p + headerSize ≠ p' + headerSize := by
      intro he
      have : p = p' := by omega
      exact hfr k (this ▸ hu)
    rw [if_neg (by omega), if_neg hq, Live.alloc, if_neg hq, Live.free, update_comm hne]
    have hbo := (hb.alloc ha (le_roundSize size)).free hf (ha.extent.trans hext)
    rwa [Live.alloc, if_neg hq, Live.free] at hbo
  | fail hu hk ha =>
    rw [if_neg (by omega), if_pos rfl]
    exact hb

end Books

end Elitra.Heap
