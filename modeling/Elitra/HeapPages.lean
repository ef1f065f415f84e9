import Elitra.HeapRun
import Elitra.Paging

namespace Elitra.Paging

/-- The machine while the boot builds the heap, with the pages for which `krust_paging_map_page`
succeeded and the frames they got. -/
structure HeapWindow where
  machine : Machine
  pages : List (ℕ × ℕ)

/-- One round; without a frame the loop ends. The result of the map call is ignored. -/
def allocHeapPage (i : ℕ) (w : HeapWindow) : HeapWindow × Bool :=
  let a := allocFrame w.machine
  if a.2 = Pmm.noFrame then (⟨a.1, w.pages⟩, false)
  else
    let virt := heapVaddr + i * 4096
    let r := krustPagingMapPage a.1 virt (frameAddr a.2) 3#64
    (⟨r.1, if r.2 then w.pages ++ [(virt / 4096, a.2)] else w.pages⟩, true)

def allocHeapPages (m : Machine) : HeapWindow :=
  (Loop.run allocHeapPage (List.range (heapInitial / 4096)) ⟨m, []⟩).1

def krustPagingInit (m : Machine) : HeapWindow :=
  let r := Cow.krustCowInit m.pmm m.cow (m.pmm.totalFrames % 2 ^ 32)
  allocHeapPages { m with pml4 := m.cr3, pmm := r.1, cow := r.2.1 }

/-- The page of the address is one that `alloc_heap_pages` mapped to a frame of the allocator. -/
def heapMapped (w : HeapWindow) (addr : ℕ) : Bool := w.pages.any fun x => x.1 == addr / 4096

lemma heapMapped_window {m : Machine} {addr : ℕ}
    (h : heapMapped (krustPagingInit m) addr = true) : addr < heapVaddr + heapInitial := by
  have hp : ∀ m', ∀ x ∈ (allocHeapPages m').pages, x.1 < (heapVaddr + heapInitial) / 4096 := by
    intro m'
    have hr : ∀ i (w : HeapWindow), i < heapInitial / 4096 →
        (∀ x ∈ w.pages, x.1 < (heapVaddr + heapInitial) / 4096) →
        ∀ x ∈ (allocHeapPage i w).1.pages, x.1 < (heapVaddr + heapInitial) / 4096 := by
      intro i w hi hw x hx
      unfold allocHeapPage at hx
      dsimp only at hx
      split at hx
      · exact hw x hx
      dsimp only at hx
      split at hx
      · rcases List.mem_append.mp hx with hx | hx
        · exact hw x hx
        rw [List.mem_singleton.mp hx]
        unfold heapVaddr heapInitial at *
        dsimp only
        omega
      · exact hw x hx
    unfold allocHeapPages
    have hrun := Loop.run_range (n := heapInitial / 4096) (s := (⟨m', []⟩ : HeapWindow))
      (fun _ w => ∀ x ∈ w.pages, x.1 < (heapVaddr + heapInitial) / 4096)
      (fun w => ∀ x ∈ w.pages, x.1 < (heapVaddr + heapInitial) / 4096)
      (by simp) (fun i w hi hw _ => hr i w hi hw) (fun i w hi hw _ => hr i w hi hw)
    cases hf : (Loop.run allocHeapPage (List.range (heapInitial / 4096)) ⟨m', []⟩).2 with
    | true => exact hrun.1 hf
    | false => exact hrun.2 hf
  unfold heapMapped krustPagingInit at h
  rw [List.any_eq_true] at h
  obtain ⟨x, hx, heq⟩ := h
  have := hp _ x hx
  rw [beq_iff_eq] at heq
  unfold heapVaddr heapInitial at *
  omega

end Elitra.Paging

namespace Elitra.Heap
open ByteMem BlockList

section Fits

variable (mapped : ℕ → Bool)

/-- The end of what an allocation of `n` bytes takes from a block: its payload and the header of
the rest that is cut off, or the whole block. -/
def claimEnd (m : Mem) (n block : ℕ) : ℕ :=
  if blockSize m block < n + headerSize + 16 then block + headerSize + blockSize m block
  else block + headerSize + n + headerSize

/-- The first block that is large enough lies in mapped memory as far as it is needed. -/
def AllocFits (s : State) (n : ℕ) : Prop :=
  ∀ block prev, findBlock everywhere s.mem n heapFuel 0 s.heapHead = .ok (block, prev) →
    block ≠ 0 → ∀ a, block ≤ a → a < claimEnd s.mem n block → mapped a = true

def Call.Fits (s : State) : Call → Prop
  | .alloc size => AllocFits mapped s (roundSize size)
  | .free _ => True
  | .realloc p size => (p = 0 ∨ blockSize s.mem (p - headerSize) < size.toNat) →
      AllocFits mapped s (roundSize size)
  | .store _ _ _ => True

/-- Runs in which every call fits. -/
inductive Fitted : Trace → Prop
  | init {m : Mem} {s : State} (h : krustHeapInit mapped m = .ok s) : Fitted ⟨s, fun _ => none⟩
  | step {t t' : Trace} {c : Call} {r : ℕ} (ht : Fitted t) (h : step mapped t c = .ok (t', r))
    (hc : c.Admissible t.live) (hf : c.Fits mapped t.state) : Fitted t'

/-- All headers and all payloads in use are mapped. -/
structure Covered (bs : List Block) : Prop where
  headers : HeadersMapped mapped heapStart bs
  payloads : ∀ p k, Used bs p k → ∀ i, i < k → mapped (p + headerSize + i) = true

end Fits

variable {i r : ℕ} {b : Block} {c : Call}

section Covered

variable {mapped : ℕ → Bool} {s : State} {t : Trace} {bs bs' : List Block} {n p q : ℕ}
  {size : UInt32}

lemma AllocFits.claim (h : AllocFits mapped s n) (hl : Layout s bs) {pre post : List Block}
    (hfit : FirstFit n bs pre b post)
    (hi : i < headerSize + keptSize n b ∨
      n + headerSize + 16 ≤ b.size ∧ i < headerSize + n + headerSize) :
    mapped (heapStart + span headerSize pre + i) = true := by
  obtain ⟨prev, hf⟩ := findBlock_found 0 heapStart_ne hl.chain
    (fun _ _ _ => headerMapped_everywhere _) hfit hl.fuel
  rw [hl.link] at hf
  have hs : blockSize s.mem (heapStart + span headerSize pre) = b.size := by
    obtain ⟨rfl, -, -⟩ := hfit
    exact (chain_header hl.chain).size
  refine h (heapStart + span headerSize pre) prev ?_ ?_ _ (by omega) ?_
  · rw [hl.head]
    exact hf
  · have := heapStart_ne
    omega
  rw [claimEnd, hs]
  unfold keptSize at hi
  split at hi <;> split <;> omega

lemma AllocFits.room (h : AllocFits mapped s n) (hl : Layout s bs) : AllocRoom mapped bs n := by
  intro pre b post hfit hs i hi
  have := h.claim hl hfit (i := headerSize + n + i) (.inr ⟨hs, by omega⟩)
  rwa [← Nat.add_assoc, ← Nat.add_assoc] at this

lemma Covered.alloc (hc : Covered mapped bs) (hl : Layout s bs) (h : AllocFits mapped s n)
    (he : AllocEffect n bs q bs') : Covered mapped bs' := by
  refine ⟨hc.headers.alloc he (h.room hl), ?_⟩
  cases he with
  | none _ => exact hc.payloads
  | @found pre post b hfit =>
    intro p k hu i hi
    obtain ⟨rfl, ⟨hf, -⟩, -⟩ := id hfit
    rcases (used_alloc hf).mp hu with ⟨rfl, rfl⟩ | hu
    · rw [Nat.add_assoc]
      exact h.claim hl hfit (.inl (by omega))
    · exact hc.payloads p k hu i hi

lemma Covered.free (hc : Covered mapped bs) (he : FreeEffect bs p bs') : Covered mapped bs' := by
  refine ⟨hc.headers.free he, ?_⟩
  cases he with
  | null => exact hc.payloads
  | @used pre post b hbs hb =>
    subst hbs
    intro p k hu
    exact hc.payloads p k (used_free.mp hu).1

lemma Covered.shrink {pre post : List Block}
    (hc : Covered mapped (pre ++ b :: post)) (hb : b.free = false) :
    Covered mapped (pre ++ (carve headerSize 16 n b ++ post)) := by
  have hu : Used (pre ++ b :: post) (heapStart + span headerSize pre) b.size :=
    ⟨pre, post, by rw [← hb], rfl⟩
  have hf : carve headerSize 16 n b = carve headerSize 16 n ⟨b.size, false⟩ := by rw [← hb]
  refine ⟨?_, ?_⟩
  · intro r c hr
    rcases at_append.mp hr with hr | hr
    · exact hc.headers r c (at_append.mpr (.inl hr))
    rcases at_append.mp hr with hr | hr
    · unfold carve at hr
      split at hr
      · rcases at_cons.mp hr with ⟨rfl, -⟩ | hr
        · exact hc.headers _ b ⟨pre, post, rfl, rfl⟩
        · exact absurd hr at_nil
      rcases at_cons.mp hr with ⟨rfl, -⟩ | hr
      · exact hc.headers _ b ⟨pre, post, rfl, rfl⟩
      rcases at_cons.mp hr with ⟨rfl, -⟩ | hr
      · intro i hi
        have := hc.payloads _ _ hu (n + i) (by omega)
        rwa [← Nat.add_assoc, Nat.add_assoc _ headerSize n] at this
      · exact absurd hr at_nil
    rw [span_carve] at hr
    exact hc.headers r c (at_append.mpr (.inr (at_cons.mpr (.inr hr))))
  intro p k hp i hi
  rw [hf] at hp
  rcases used_carve.mp hp with ⟨rfl, rfl⟩ | ⟨hp, -⟩
  · refine hc.payloads _ _ hu i ?_
    unfold keptSize at hi
    split at hi <;> omega
  · exact hc.payloads p k hp i hi

lemma Covered.realloc (hc : Covered mapped bs) (hl : Layout s bs)
    (hf : (Call.realloc p size).Fits mapped s) (he : ReallocEffect size bs p q bs') :
    Covered mapped bs' := by
  cases he with
  | fresh ha => exact hc.alloc hl (hf (.inl rfl)) ha
  | release _ _ h => exact hc.free h
  | shrink _ hbs hb _ =>
    subst hbs
    exact hc.shrink hb
  | @move p k q bs1 bs2 hu hk _ ha hfr =>
    refine (hc.alloc hl (hf (.inr ?_)) ha).free hfr
    rw [Nat.add_sub_cancel, hl.size_of_used hu]
    exact hk
  | fail _ _ _ => exact hc

lemma Covered.room (hc : Covered mapped bs) (hl : Layout s bs)
    (hf : c.Fits mapped s) : Room mapped bs c := by
  cases c with
  | alloc size => exact AllocFits.room hf hl
  | free p => trivial
  | realloc p size =>
    refine ⟨fun h0 => (hf (.inl h0)).room hl, ?_, ?_⟩
    · rintro p' k hu rfl hk i hi
      have := hc.payloads p' k hu (size.toNat + i) (by omega)
      rwa [← Nat.add_assoc] at this
    rintro p' k hu rfl hk
    refine (hf (.inr ?_)).room hl
    rw [Nat.add_sub_cancel, hl.size_of_used hu]
    exact hk
  | store p off v => trivial

lemma Covered.effect (hc : Covered mapped bs) (hl : Layout s bs)
    (hf : c.Fits mapped s) (he : Effect bs c r bs') : Covered mapped bs' := by
  cases he with
  | alloc h => exact hc.alloc hl hf h
  | free h => exact hc.free h
  | realloc h => exact hc.realloc hl hf h
  | store => exact hc

lemma krustHeapInit_inv {m : Mem} (h : krustHeapInit mapped m = .ok s) :
    HeaderMapped mapped heapStart ∧ Layout s [⟨heapSize - headerSize, true⟩] := by
  have hmap : HeaderMapped mapped heapStart := by
    by_contra hno
    rw [krustHeapInit, touch_fault hno] at h
    simp [bind, Except.bind] at h
  obtain ⟨s', hs, hl⟩ := krustHeapInit_spec m hmap
  rw [h, Except.ok.injEq] at hs
  exact ⟨hmap, hs ▸ hl⟩

lemma headersMapped_single (h : HeaderMapped mapped heapStart) :
    HeadersMapped mapped heapStart [b] := by
  intro p c hat
  rcases at_cons.mp hat with ⟨rfl, -⟩ | hat
  · exact h
  · exact absurd hat at_nil

lemma Fitted.inv (h : Fitted mapped t) :
    ∃ bs, Layout t.state bs ∧ Books t.live bs ∧ Covered mapped bs := by
  induction h with
  | init h =>
    obtain ⟨hmap, hl⟩ := krustHeapInit_inv h
    refine ⟨_, hl, Books.init, headersMapped_single hmap, ?_⟩
    intro p k hu
    rcases at_cons.mp hu with ⟨-, hb⟩ | hu
    · simp at hb
    · exact absurd hu at_nil
  | step ht h hc hf ih =>
    obtain ⟨bs, hl, hb, hcov⟩ := ih
    obtain ⟨t', r', bs', hst, hs⟩ := step_spec hl hb hcov.headers hc (hcov.room hl hf)
    rw [h, Except.ok.injEq, Prod.mk.injEq] at hst
    obtain ⟨rfl, rfl⟩ := hst
    exact ⟨bs', hs.layout, hs.books, hcov.effect hl hf hs.effect⟩

lemma Effect.returned_live {live : Live} (he : Effect bs c r bs')
    (hr : r ≠ 0) : (c.after live r r).isSome := by
  have ha : ∀ (l : Live) n, (l.alloc r n r).isSome := by
    intro l n
    simp [Live.alloc, hr]
  cases he with
  | alloc h => exact ha _ _
  | free h => exact absurd rfl hr
  | @realloc p q size _ h =>
    have hke : ¬ (p ≠ 0 ∧ size.toNat = 0) := by
      rintro ⟨hp, hn⟩
      cases h with
      | fresh _ => exact hp rfl
      | release _ _ _ => exact hr rfl
      | shrink hn' _ _ _ => exact hn' hn
      | move _ hk _ _ _ => omega
      | fail _ _ _ => exact hr rfl
    rw [Call.after, Live.realloc, if_neg hke, if_neg hr]
    exact ha _ _
  | store => exact absurd rfl hr

lemma Covered.region (hc : Covered mapped bs) (hl : Layout t.state bs) (hb : Books t.live bs)
    (hq : (t.live q).isSome) (hi : i < blockSize t.state.mem (q - headerSize)) :
    mapped (q + i) = true := by
  obtain ⟨m, hm⟩ := Option.isSome_iff_exists.mp hq
  obtain ⟨p, k, rfl, hu, -⟩ := hb.live q m hm
  rw [Nat.add_sub_cancel, hl.size_of_used hu] at hi
  exact hc.payloads p k hu i hi

end Covered

section Boot

open Paging

/-- In a run of fitting calls every header that a call reads or writes is mapped, so the call
returns, and so is the region it returns. -/
theorem fitting_calls_mapped (m : Machine) {t : Trace}
    (h : Fitted (heapMapped (krustPagingInit m)) t) {c : Call} (hc : c.Admissible t.live)
    (hf : c.Fits (heapMapped (krustPagingInit m)) t.state) :
    ∃ t' r, step (heapMapped (krustPagingInit m)) t c = .ok (t', r) ∧
      (r ≠ 0 → ∀ i, i < blockSize t'.state.mem (r - headerSize) →
        heapMapped (krustPagingInit m) (r + i) = true) ∧
      ∀ q, (t'.live q).isSome → ∀ i, i < blockSize t'.state.mem (q - headerSize) →
        heapMapped (krustPagingInit m) (q + i) = true := by
  obtain ⟨bs, hl, hb, hcov⟩ := h.inv
  obtain ⟨t', r, bs', hst, hs⟩ := step_spec hl hb hcov.headers hc (hcov.room hl hf)
  have hcov' := hcov.effect hl hf hs.effect
  refine ⟨t', r, hst, fun hr i hi => ?_, fun q hq i hi => hcov'.region hs.layout hs.books hq hi⟩
  refine hcov'.region hs.layout hs.books ?_ hi
  rw [step_live hst]
  exact hs.effect.returned_live hr

/-- The last frames of 1 MB of memory, and empty page tables. -/
def smallMachine : Machine where
  mem := fun _ _ => 0
  pmm := Pmm.krustMmCppPmmInit (fun _ => 0) 0 0xF8000
  cow := ⟨0, 0, fun _ => 0⟩
  pml4 := 0
  cr3 := 1

lemma smallMachine_pages :
    (krustPagingInit smallMachine).pages = [(0x40000, 250), (0x40001, 254), (0x40002, 255)] := by
  decide +kernel

lemma smallMachine_mapped {a : ℕ} (h : heapStart ≤ a) (h' : a < heapStart + 0x3000) :
    heapMapped (krustPagingInit smallMachine) a = true := by
  have ha : a / 4096 = 0x40000 ∨ a / 4096 = 0x40001 ∨ a / 4096 = 0x40002 := by
    unfold heapStart at h h'
    omega
  rw [heapMapped, smallMachine_pages]
  rcases ha with ha | ha | ha <;> simp [ha]

lemma smallMachine_init : krustHeapInit (heapMapped (krustPagingInit smallMachine)) (fun _ => 0) =
    .ok bootTrace.state := by
  have hmap : HeaderMapped (heapMapped (krustPagingInit smallMachine)) heapStart := by
    intro i hi
    have h17 : headerSize = 17 := rfl
    exact smallMachine_mapped (by omega) (by omega)
  rw [krustHeapInit, touch_ok hmap]
  rfl

theorem fitting_calls_mapped_small : ∃ t t', Fitted (heapMapped (krustPagingInit smallMachine)) t ∧
    step (heapMapped (krustPagingInit smallMachine)) t (.alloc 20) = .ok (t', 0x40000011) ∧
    ∀ i, i < blockSize t'.state.mem 0x40000000 →
      heapMapped (krustPagingInit smallMachine) (0x40000011 + i) = true := by
  have hf : findBlock everywhere bootTrace.state.mem (roundSize 20) heapFuel 0
      bootTrace.state.heapHead = .ok (0x40000000, 0) := by decide +kernel
  have hend : claimEnd bootTrace.state.mem (roundSize 20) 0x40000000 = 0x40000042 := by
    decide +kernel
  have hfi : (Call.alloc 20).Fits (heapMapped (krustPagingInit smallMachine)) bootTrace.state := by
    intro block prev hb _ a ha ha'
    rw [hf, Except.ok.injEq, Prod.mk.injEq] at hb
    obtain ⟨rfl, -⟩ := hb
    rw [hend] at ha'
    refine smallMachine_mapped ha ?_
    unfold heapStart
    omega
  have hbo : Fitted (heapMapped (krustPagingInit smallMachine)) bootTrace :=
    .init smallMachine_init
  obtain ⟨t', r, hs, hr, -⟩ :=
    fitting_calls_mapped smallMachine hbo (c := .alloc 20) trivial hfi
  have hrun : results (fun a => [(0x40000, 250), (0x40001, 254), (0x40002, 255)].any
      fun x : ℕ × ℕ => x.1 == a / 4096) bootTrace [.alloc 20] = .ok [0x40000011] := by decide +kernel
  have hmap : heapMapped (krustPagingInit smallMachine) = fun a =>
      [(0x40000, 250), (0x40001, 254), (0x40002, 255)].any fun x : ℕ × ℕ => x.1 == a / 4096 := by
    funext a
    rw [heapMapped, smallMachine_pages]
  rw [← hmap] at hrun
  obtain ⟨t1, h1, -, -⟩ := results_cons hrun
  obtain ⟨rfl, rfl⟩ : t1 = t' ∧ 0x40000011 = r := by simpa [h1] using hs
  exact ⟨bootTrace, t1, hbo, h1, hr (by decide)⟩

/-- On no machine the heap can hand out 5 MB: the header of the rest is not mapped. -/
theorem alloc_5mb_faults :
    (∃ m mem s, krustHeapInit (heapMapped (krustPagingInit m)) mem = .ok s) ∧
      ∀ m mem s, krustHeapInit (heapMapped (krustPagingInit m)) mem = .ok s →
        krustHeapAlloc (heapMapped (krustPagingInit m)) s 0x500000 =
          .error (.fault 0x40500011) := by
  refine ⟨⟨smallMachine, _, _, smallMachine_init⟩, fun m mem s h => ?_⟩
  have hfa : ¬ HeaderMapped (heapMapped (krustPagingInit m)) 0x40500011 := by
    intro hmap
    have := heapMapped_window (hmap 0 (by decide))
    unfold heapVaddr heapInitial at this
    omega
  obtain ⟨hmap, hl⟩ := krustHeapInit_inv h
  have hh : HeadersMapped (heapMapped (krustPagingInit m)) heapStart
      [⟨heapSize - headerSize, true⟩] := headersMapped_single hmap
  have hfit : FirstFit (roundSize 0x500000) [⟨heapSize - headerSize, true⟩] []
      ⟨heapSize - headerSize, true⟩ [] := ⟨rfl, ⟨rfl, by decide⟩, by simp⟩
  obtain ⟨prev, hf⟩ := findBlock_found 0 heapStart_ne hl.chain hh hfit hl.fuel
  rw [hl.link] at hf
  have hsi : blockSize s.mem heapStart = heapSize - headerSize := hl.chain.1.size
  have hs : splitBlock (heapMapped (krustPagingInit m)) s.mem heapStart (roundSize 0x500000) =
      .error (.fault 0x40500011) := by
    rw [splitBlock, touch_ok hmap, ok_bind, hsi, if_neg (by decide)]
    dsimp only
    rw [show heapStart + headerSize + roundSize 0x500000 = 0x40500011 by decide, touch_fault hfa]
    rfl
  rw [krustHeapAlloc, if_neg (by rw [hl.head]; exact heapStart_ne), hl.head, hf, ok_bind]
  dsimp only
  rw [span_nil, Nat.add_zero, if_neg heapStart_ne, hs]
  rfl

end Boot

end Elitra.Heap
