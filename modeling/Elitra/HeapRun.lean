import Elitra.HeapRefine

namespace Elitra.Heap
open Function ByteMem BlockList

/-- The calls of the heap's clients, and their writes into what they hold. -/
inductive Call where
  | alloc (size : UInt32)
  | free (ptr : ℕ)
  | realloc (ptr : ℕ) (size : UInt32)
  | store (ptr off : ℕ) (v : BitVec 8)

structure Trace where
  state : State
  live : Live

def Call.ptr : Call → ℕ
  | .alloc _ => 0
  | .free p => p
  | .realloc p _ => p
  | .store p _ _ => p

def Call.size : Call → Option UInt32
  | .alloc size => some size
  | .free _ => none
  | .realloc _ size => some size
  | .store _ _ _ => none

/-- Clients pass null or a pointer they hold, and write only below the size they asked for. -/
def Call.Admissible (live : Live) : Call → Prop
  | .alloc _ => True
  | .free p => p = 0 ∨ (live p).isSome
  | .realloc p _ => p = 0 ∨ (live p).isSome
  | .store p off _ => ∃ n, live p = some n ∧ off < n

def exec (mapped : ℕ → Bool) (s : State) : Call → Run (State × ℕ)
  | .alloc size => krustHeapAlloc mapped s size
  | .free p => do
    let s ← krustHeapFree mapped s p
    .ok (s, 0)
  | .realloc p size => krustHeapRealloc mapped s p size
  | .store p off v => .ok ({ s with mem := update s.mem (p + off) v }, 0)

def Call.after (live : Live) (r : ℕ) : Call → Live
  | .alloc size => live.alloc r size.toNat
  | .free p => live.free p
  | .realloc p size => live.realloc p size.toNat r
  | .store _ _ _ => live

def step (mapped : ℕ → Bool) (t : Trace) (c : Call) : Run (Trace × ℕ) := do
  let (s, r) ← exec mapped t.state c
  .ok (⟨s, c.after t.live r⟩, r)

def results (mapped : ℕ → Bool) (t : Trace) : List Call → Run (List ℕ)
  | [] => .ok []
  | c :: cs => do
    let (t', r) ← step mapped t c
    let rs ← results mapped t' cs
    .ok (r :: rs)

/-- The traces of runs that start with `krust_heap_init` on any memory. -/
inductive Reachable (mapped : ℕ → Bool) : Trace → Prop
  | init {m : Mem} {s : State} (h : krustHeapInit mapped m = .ok s) :
    Reachable mapped ⟨s, fun _ => none⟩
  | step {t t' : Trace} {c : Call} {r : ℕ} (ht : Reachable mapped t)
    (h : step mapped t c = .ok (t', r)) (hc : c.Admissible t.live) : Reachable mapped t'

inductive Effect (bs : List Block) : Call → ℕ → List Block → Prop
  | alloc {size : UInt32} {q : ℕ} {bs' : List Block} (h : AllocEffect (roundSize size) bs q bs') :
    Effect bs (.alloc size) q bs'
  | free {p : ℕ} {bs' : List Block} (h : FreeEffect bs p bs') : Effect bs (.free p) 0 bs'
  | realloc {p q : ℕ} {size : UInt32} {bs' : List Block} (h : ReallocEffect size bs p q bs') :
    Effect bs (.realloc p size) q bs'
  | store {p off : ℕ} {v : BitVec 8} : Effect bs (.store p off v) 0 bs

/-- What one call guarantees, in terms of the block lists before and after it. -/
structure Stepped (bs : List Block) (t : Trace) (c : Call) (t' : Trace) (r : ℕ)
    (bs' : List Block) : Prop where
  effect : Effect bs c r bs'
  layout : Layout t'.state bs'
  books : Books t'.live bs'
  frame : ∀ p k, Used bs p k → c.ptr ≠ p + headerSize →
    SamePayload t.state.mem t'.state.mem p k
  copied : ∀ p k size, c = .realloc (p + headerSize) size → Used bs p k → r ≠ 0 →
    ∀ i, i < min k size.toNat → t'.state.mem (r + i) = t.state.mem (p + headerSize + i)
  null : ∀ size, c.size = some size → size.toNat ≠ 0 → r = 0 → t'.state = t.state

def Room (mapped : ℕ → Bool) (bs : List Block) : Call → Prop
  | .alloc size => AllocRoom mapped bs (roundSize size)
  | .free _ => True
  | .realloc p size => ReallocRoom mapped bs p size
  | .store _ _ _ => True

variable {c : Call}

section Step

variable {mapped : ℕ → Bool} {t : Trace} {bs : List Block}

lemma Books.live_used (hb : Books t.live bs) {p : ℕ} (hp : p = 0 ∨ (t.live p).isSome) :
    p = 0 ∨ ∃ p' k, p = p' + headerSize ∧ Used bs p' k := by
  rcases hp with h0 | hp
  · exact .inl h0
  obtain ⟨n, hn⟩ := Option.isSome_iff_exists.mp hp
  obtain ⟨p', k, he, hu, -⟩ := hb.live p n hn
  exact .inr ⟨p', k, he, hu⟩

lemma step_spec (hl : Layout t.state bs) (hb : Books t.live bs)
    (hmap : HeadersMapped mapped heapStart bs) (hc : c.Admissible t.live)
    (hro : Room mapped bs c) :
    ∃ t' r bs', step mapped t c = .ok (t', r) ∧ Stepped bs t c t' r bs' := by
  cases c with
  | alloc size =>
    obtain ⟨s', q, bs', hrun, ha, hl', hfr, hnu⟩ := alloc_refines hl hmap hro
    refine ⟨⟨s', (Call.alloc size).after t.live q⟩, q, bs', ?_, .alloc ha, hl',
      hb.alloc ha (le_roundSize size), fun p k hu _ => hfr p k hu, ?_, ?_⟩
    · rw [step, exec, hrun, ok_bind]
    · intro p k size' he
      simp at he
    intro size' _ _ hq
    exact (hnu hq).1
  | free p =>
    obtain ⟨s', bs', hrun, hf, hl', hfr⟩ := free_refines hl hmap (hb.live_used hc)
    refine ⟨⟨s', (Call.free p).after t.live 0⟩, 0, bs', ?_, .free hf, hl', hb.free hf hl.extent,
      fun p' k hu _ => hfr p' k hu, ?_, ?_⟩
    · rw [step, exec, hrun]
      rfl
    · intro p' k size he
      simp at he
    intro size he
    simp [Call.size] at he
  | realloc p size =>
    obtain ⟨s', q, bs', hrun, hr, hl', hfr, hco, hnu⟩ :=
      realloc_refines hl hmap (hb.live_used hc) hro
    refine ⟨⟨s', (Call.realloc p size).after t.live q⟩, q, bs', ?_, .realloc hr, hl',
      hb.realloc hr hl.extent, hfr, ?_, ?_⟩
    · rw [step, exec, hrun, ok_bind]
    · intro p' k size' he hu hq
      obtain ⟨rfl, rfl⟩ : p = p' + headerSize ∧ size = size' := by simpa using he
      exact hco p' k hu rfl hq
    intro size' he hn hq
    obtain rfl : size = size' := by simpa [Call.size] using he
    exact (hnu hq hn).1
  | store p off v =>
    obtain ⟨n, hn, hoff⟩ := hc
    obtain ⟨p, k, rfl, hu, hk⟩ := hb.live p n hn
    refine ⟨_, 0, bs, rfl, .store, hl.payload hu ?_, hb, ?_, ?_, ?_⟩
    · intro x hx
      exact update_of_ne (by omega) _ _
    · intro p' k' hu' hne i hi
      have hne' : p + headerSize ≠ p' + headerSize := hne
      have hsep := hu.disjoint hu' (by omega)
      exact update_of_ne (by omega) _ _
    · intro p' k' size he
      simp at he
    intro size he
    simp [Call.size] at he

end Step

def everywhere : ℕ → Bool := fun _ => true

lemma headerMapped_everywhere (p : ℕ) : HeaderMapped everywhere p := fun _ _ => rfl

lemma room_everywhere (bs : List Block) (c : Call) : Room everywhere bs c := by
  have ha : ∀ n, AllocRoom everywhere bs n := fun n pre b post _ _ => headerMapped_everywhere _
  cases c with
  | alloc size => exact ha _
  | free p => trivial
  | realloc p size =>
    exact ⟨fun _ => ha _, fun _ _ _ _ _ => headerMapped_everywhere _, fun _ _ _ _ _ => ha _⟩
  | store p off v => trivial

variable {r : ℕ} {t : Trace}

lemma step_live {mapped : ℕ → Bool} {t' : Trace}
    (h : step mapped t c = .ok (t', r)) : t'.live = c.after t.live r := by
  unfold step at h
  cases he : exec mapped t.state c with
  | error e => simp [he, bind, Except.bind] at h
  | ok a =>
    rw [he, ok_bind, Except.ok.injEq, Prod.mk.injEq] at h
    rw [← h.1, ← h.2]

lemma results_cons {mapped : ℕ → Bool} {cs : List Call}
    {rs : List ℕ} (h : results mapped t (c :: cs) = .ok (r :: rs)) :
    ∃ t', step mapped t c = .ok (t', r) ∧ t'.live = c.after t.live r ∧
      results mapped t' cs = .ok rs := by
  unfold results at h
  cases hs : step mapped t c with
  | error e => simp [hs, bind, Except.bind] at h
  | ok a =>
    obtain ⟨t', r'⟩ := a
    rw [hs, ok_bind] at h
    dsimp only at h
    cases hr : results mapped t' cs with
    | error e => simp [hr, bind, Except.bind] at h
    | ok rs' =>
      rw [hr, ok_bind, Except.ok.injEq, List.cons.injEq] at h
      obtain ⟨rfl, rfl⟩ := h
      exact ⟨t', rfl, step_live hs, hr⟩

/-- Every reachable trace has a block list that fills the heap and matches the live pointers. -/
lemma Reachable.inv (h : Reachable everywhere t) : ∃ bs, Layout t.state bs ∧ Books t.live bs := by
  induction h with
  | @init m s h =>
    obtain ⟨s', hs, hl⟩ := krustHeapInit_spec m (headerMapped_everywhere heapStart)
    rw [h, Except.ok.injEq] at hs
    exact ⟨_, hs ▸ hl, Books.init⟩
  | step ht h hc ih =>
    obtain ⟨bs, hl, hb⟩ := ih
    obtain ⟨t', r', bs', hst, hs⟩ := step_spec hl hb (fun _ _ _ => headerMapped_everywhere _) hc
      (room_everywhere bs _)
    rw [h, Except.ok.injEq, Prod.mk.injEq] at hst
    obtain ⟨rfl, rfl⟩ := hst
    exact ⟨bs', hs.layout, hs.books⟩

variable {bs : List Block}

lemma step_everywhere (hl : Layout t.state bs) (hb : Books t.live bs) (hc : c.Admissible t.live) :
    ∃ t' r bs', step everywhere t c = .ok (t', r) ∧ Stepped bs t c t' r bs' :=
  step_spec hl hb (fun _ _ _ => headerMapped_everywhere _) hc (room_everywhere bs c)

lemma Books.live_iff {live : Live} (hb : Books live bs) (q : ℕ) :
    (live q).isSome ↔
      ∃ p b, q = p + headerSize ∧ At headerSize heapStart bs p b ∧ b.free = false := by
  constructor
  · intro h
    obtain ⟨n, hn⟩ := Option.isSome_iff_exists.mp h
    obtain ⟨p, k, he, hu, -⟩ := hb.live q n hn
    exact ⟨p, _, he, hu, rfl⟩
  rintro ⟨p, ⟨k, f⟩, rfl, hat, hf⟩
  have hf' : f = false := hf
  subst hf'
  exact hb.used p k hat

lemma Books.requested_le {live : Live} (hb : Books live bs) {p n : ℕ}
    {b : Block} (hat : At headerSize heapStart bs p b) (hn : live (p + headerSize) = some n) :
    n ≤ b.size := by
  obtain ⟨p', k, he, hu, hk⟩ := hb.live _ n hn
  obtain rfl : p = p' := by omega
  rw [at_unique (by decide) hat hu]
  exact hk

/-- The blocks tile the heap, those in use are the live allocations, every call returns, and a
failed one changes nothing. -/
theorem blocks_tile_heap {t : Trace} (h : Reachable everywhere t) :
    ∃ bs, Layout t.state bs ∧
      (∀ q, (t.live q).isSome ↔
        ∃ p b, q = p + headerSize ∧ At headerSize heapStart bs p b ∧ b.free = false) ∧
      (∀ p b n, At headerSize heapStart bs p b → t.live (p + headerSize) = some n → n ≤ b.size) ∧
      ∀ c : Call, c.Admissible t.live → ∃ t' r, step everywhere t c = .ok (t', r) ∧
        ∀ size, c.size = some size → size ≠ 0 → r = 0 → t'.state = t.state := by
  obtain ⟨bs, hl, hb⟩ := h.inv
  refine ⟨bs, hl, hb.live_iff, fun p b n hat hn => hb.requested_le hat hn, ?_⟩
  intro c hc
  obtain ⟨t', r, bs', hst, hs⟩ := step_everywhere hl hb hc
  refine ⟨t', r, hst, fun size hsi hn hr => hs.null size hsi ?_ hr⟩
  intro h0
  exact hn (UInt32.toNat_inj.mp h0)

def bootTrace : Trace where
  state := ⟨setNext (setFree (setSize (fun _ => 0) heapStart (heapSize - headerSize)) heapStart true)
    heapStart 0, heapStart⟩
  live := fun _ => none

lemma reachable_bootTrace : Reachable everywhere bootTrace := .init (m := fun _ => 0) rfl

theorem blocks_tile_heap_alloc : ∃ t bs, Reachable everywhere t ∧ Layout t.state bs ∧
    t.live 0x40000011 = some 20 ∧
    ∃ b, At headerSize heapStart bs 0x40000000 b ∧ b.free = false ∧ 20 ≤ b.size := by
  have hrun : results everywhere bootTrace [.alloc 20] = .ok [0x40000011] := by decide +kernel
  obtain ⟨t, hs, hli, -⟩ := results_cons hrun
  have ht : Reachable everywhere t := .step reachable_bootTrace hs trivial
  have h20 : t.live 0x40000011 = some 20 := by rw [hli]; decide
  obtain ⟨bs, hl, hu, hsi, -⟩ := blocks_tile_heap ht
  obtain ⟨p, b, hp, hat, hf⟩ := (hu 0x40000011).mp (by simp [h20])
  obtain rfl : p = 0x40000000 := by
    have h17 : headerSize = 17 := rfl
    omega
  exact ⟨t, bs, ht, hl, h20, b, hat, hf, hsi _ b 20 hat h20⟩

/-- An allocation takes the lowest free block with room, and returns null only if there is none. -/
theorem alloc_first_fit {t : Trace} (h : Reachable everywhere t) (size : UInt32) :
    ∃ bs t' r, Layout t.state bs ∧ step everywhere t (.alloc size) = .ok (t', r) ∧
      ((r = 0 ∧ ∀ b ∈ bs, ¬ Suits (roundSize size) b) ∨
        ∃ p b, At headerSize heapStart bs p b ∧ Suits (roundSize size) b ∧ r = p + headerSize ∧
          ∀ q c, At headerSize heapStart bs q c → Suits (roundSize size) c → p ≤ q) := by
  obtain ⟨bs, hl, hb⟩ := h.inv
  obtain ⟨t', r, bs', hst, hs⟩ := step_everywhere (c := .alloc size) hl hb trivial
  refine ⟨bs, t', r, hl, hst, ?_⟩
  obtain ⟨hno | ⟨rfl, hs, hpre⟩⟩ := hs.effect
  · exact .inl ⟨rfl, hno⟩
  refine .inr ⟨_, _, ⟨_, _, rfl, rfl⟩, hs, rfl, fun q c hat hc => ?_⟩
  rcases at_append.mp hat with ⟨xs, ys, rfl, -⟩ | hat
  · exact absurd hc (hpre c (by simp))
  · exact (at_bounds hat).1

/-- Three blocks are free, of 32 bytes, of 112 bytes and the rest of the heap: 50 bytes are taken from
the second. -/
theorem alloc_first_fit_gap : ∃ t t' bs, Reachable everywhere t ∧ Layout t.state bs ∧
    step everywhere t (.alloc 50) = .ok (t', 0x40000073) ∧
    (∃ b, At headerSize heapStart bs 0x40000062 b ∧ Suits (roundSize 50) b) ∧
    ∀ q c, At headerSize heapStart bs q c → Suits (roundSize 50) c → 0x40000062 ≤ q := by
  have hrun : results everywhere bootTrace [.alloc 20, .alloc 20, .alloc 100, .alloc 20,
      .free 0x40000011, .free 0x40000073, .alloc 50] =
      .ok [0x40000011, 0x40000042, 0x40000073, 0x400000f4, 0, 0, 0x40000073] := by decide +kernel
  obtain ⟨t1, h1, hl1, hrun1⟩ := results_cons hrun
  obtain ⟨t2, h2, hl2, hrun2⟩ := results_cons hrun1
  obtain ⟨t3, h3, hl3, hrun3⟩ := results_cons hrun2
  obtain ⟨t4, h4, hl4, hrun4⟩ := results_cons hrun3
  obtain ⟨t5, h5, hl5, hrun5⟩ := results_cons hrun4
  obtain ⟨t6, h6, -, hrun6⟩ := results_cons hrun5
  obtain ⟨t7, h7, -, -⟩ := results_cons hrun6
  have hfirst : (t4.live 0x40000011).isSome := by
    rw [hl4, hl3, hl2, hl1]
    decide
  have hthird : (t5.live 0x40000073).isSome := by
    rw [hl5, hl4, hl3, hl2, hl1]
    decide
  have hr4 : Reachable everywhere t4 :=
    .step (.step (.step (.step reachable_bootTrace h1 trivial) h2 trivial) h3 trivial) h4 trivial
  have hr : Reachable everywhere t6 :=
    .step (.step hr4 h5 (.inr hfirst)) h6 (.inr hthird)
  obtain ⟨bs, t', r, hl, hst, hfit⟩ := alloc_first_fit hr 50
  obtain ⟨rfl, rfl⟩ : t7 = t' ∧ 0x40000073 = r := by simpa [h7] using hst
  rcases hfit with ⟨hz, -⟩ | ⟨p, b, hat, hs, hp, hall⟩
  · exact absurd hz (by decide)
  · obtain rfl : p = 0x40000062 := by
      have h17 : headerSize = 17 := rfl
      omega
    exact ⟨t6, t7, bs, hr, hl, h7, ⟨b, hat, hs⟩, hall⟩

/-- A call returns, leaves the payloads of the other allocations alone, and a reallocation carries
the common bytes over. -/
theorem calls_keep_payloads {t : Trace} (h : Reachable everywhere t) {c : Call}
    (hc : c.Admissible t.live) :
    ∃ t' r, step everywhere t c = .ok (t', r) ∧
      (∀ q, (t.live q).isSome → q ≠ c.ptr → ∀ i, i < blockSize t.state.mem (q - headerSize) →
        t'.state.mem (q + i) = t.state.mem (q + i)) ∧
      ∀ p n size, c = .realloc p size → t.live p = some n → size ≠ 0 → r ≠ 0 →
        ∀ i, i < min n size.toNat → t'.state.mem (r + i) = t.state.mem (p + i) := by
  obtain ⟨bs, hl, hb⟩ := h.inv
  obtain ⟨t', r, bs', hst, hs⟩ := step_everywhere hl hb hc
  refine ⟨t', r, hst, ?_, ?_⟩
  · intro q hq hne i hi
    obtain ⟨n, hn⟩ := Option.isSome_iff_exists.mp hq
    obtain ⟨p, k, rfl, hu, -⟩ := hb.live q n hn
    rw [Nat.add_sub_cancel, hl.size_of_used hu] at hi
    exact hs.frame p k hu (Ne.symm hne) i hi
  intro p n size he hn _ hr i hi
  obtain ⟨p, k, rfl, hu, hk⟩ := hb.live p n hn
  have := lt_min_iff.mp hi
  exact hs.copied p k size he hu hr i (lt_min_iff.mpr ⟨by omega, by omega⟩)

theorem calls_keep_payloads_realloc : ∃ t t', Reachable everywhere t ∧
    t.live 0x40000011 = some 20 ∧
    step everywhere t (.realloc 0x40000011 100) = .ok (t', 0x40000042) ∧
    ∀ i, i < 20 → t'.state.mem (0x40000042 + i) = t.state.mem (0x40000011 + i) := by
  have hrun : results everywhere bootTrace [.alloc 20, .store 0x40000011 3 7,
      .realloc 0x40000011 100] = .ok [0x40000011, 0, 0x40000042] := by decide +kernel
  obtain ⟨t1, h1, hl1, hrun1⟩ := results_cons hrun
  obtain ⟨t2, h2, hl2, hrun2⟩ := results_cons hrun1
  obtain ⟨t3, h3, -, -⟩ := results_cons hrun2
  have h20 : t1.live 0x40000011 = some 20 := by rw [hl1]; decide
  have h20' : t2.live 0x40000011 = some 20 := by rw [hl2]; exact h20
  have ht : Reachable everywhere t2 :=
    .step (.step reachable_bootTrace h1 trivial) h2 ⟨20, h20, by decide⟩
  obtain ⟨t', r, hs, -, hc⟩ := calls_keep_payloads ht (c := .realloc 0x40000011 100)
    (.inr (by simp [h20']))
  obtain ⟨rfl, rfl⟩ : t3 = t' ∧ 0x40000042 = r := by simpa [h3] using hs
  exact ⟨t2, t3, ht, h20', h3, hc _ 20 100 rfl h20' (by decide) (by decide)⟩

/-- When every allocation has been freed, the heap is the block that `krust_heap_init` made. -/
theorem all_freed_single_block {t : Trace} (h : Reachable everywhere t)
    (hfreed : ∀ q, t.live q = none) : Layout t.state [⟨heapSize - headerSize, true⟩] := by
  obtain ⟨bs, hl, hb⟩ := h.inv
  have hn : ∀ p k, ¬ Used bs p k := by
    intro p k hu
    have := hb.used p k hu
    simp [hfreed] at this
  rw [← hb.merged hn]
  exact hl

theorem all_freed_single_block_shrunk : ∃ t, Reachable everywhere t ∧
    (∀ q, t.live q = none) ∧ Layout t.state [⟨0xfffffef, true⟩] := by
  have hrun : results everywhere bootTrace [.alloc 100, .realloc 0x40000011 10,
      .free 0x40000011] = .ok [0x40000011, 0x40000011, 0] := by decide +kernel
  obtain ⟨t1, h1, hl1, hrun1⟩ := results_cons hrun
  obtain ⟨t2, h2, hl2, hrun2⟩ := results_cons hrun1
  obtain ⟨t3, h3, hl3, -⟩ := results_cons hrun2
  have ht : Reachable everywhere t3 :=
    .step (.step (.step reachable_bootTrace h1 trivial) h2 (.inr (by rw [hl1]; decide)))
      h3 (.inr (by rw [hl2, hl1]; decide))
  have hn : ∀ q, t3.live q = none := by
    intro q
    rw [hl3, hl2, hl1]
    simp [bootTrace, Call.after, Live.alloc, Live.realloc, Live.free, update_apply]
  exact ⟨t3, ht, hn, all_freed_single_block ht hn⟩

end Elitra.Heap
