import Elitra.Elf

namespace Elitra.Elf
open Finset Function Paging Vmm

variable {f : ℕ}

section Shrinks

/-- The allocator is sound, and its bitmap is where it was. -/
structure SameBits (m m' : Machine) : Prop where
  good : Pmm.Good m'.pmm
  bitmap : m'.pmm.bitmap = m.pmm.bitmap
  bitmapSize : m'.pmm.bitmapSize = m.pmm.bitmapSize
  totalFrames : m'.pmm.totalFrames = m.pmm.totalFrames

/-- A step that may take frames from the allocator and gives none back. -/
structure Shrinks (m m' : Machine) : Prop extends SameBits m m' where
  free : freeSet m' ⊆ freeSet m
  cr3 : m'.cr3 = m.cr3

variable {m m' m'' : Machine}

lemma Shrinks.refl (h : Pmm.Good m.pmm) : Shrinks m m :=
  ⟨⟨h, rfl, rfl, rfl⟩, fun _ hf => hf, rfl⟩

lemma Shrinks.trans (h : Shrinks m m') (h' : Shrinks m' m'') : Shrinks m m'' :=
  ⟨⟨h'.good, h'.bitmap.trans h.bitmap, h'.bitmapSize.trans h.bitmapSize,
    h'.totalFrames.trans h.totalFrames⟩, fun _ hf => h.free (h'.free hf), h'.cr3.trans h.cr3⟩

lemma Shrinks.memory (h : Shrinks m m') (mem : ℕ → ℕ → Pte) : Shrinks m { m' with mem := mem } :=
  ⟨⟨h.good, h.bitmap, h.bitmapSize, h.totalFrames⟩, h.free, h.cr3⟩

lemma shrinks_alloc (h : Pmm.Good m.pmm) : Shrinks m (allocFrame m).1 := by
  obtain ⟨hb, hs, ht⟩ := Pmm.krustPmmAllocFrame_header m.pmm
  rcases allocFrame_cases h with ⟨heq, -⟩ | ⟨p, f, heq, -, -, hf, hgo⟩
  · rw [heq]
    exact .refl h
  have hp : p = (Pmm.krustPmmAllocFrame m.pmm).1 := by
    have := congrArg (fun r => r.1.pmm) heq
    exact this.symm
  rw [heq]
  refine ⟨⟨hgo, hp ▸ hb, hp ▸ hs, hp ▸ ht⟩, fun g hg => ?_, rfl⟩
  change g ∈ Pmm.freeFrames p at hg
  rw [hf] at hg
  exact mem_of_mem_erase hg

lemma shrinks_tableAlloc (h : Pmm.Good m.pmm) : Shrinks m (tableAlloc m).1 := by
  unfold tableAlloc
  dsimp only
  split_ifs
  · exact shrinks_alloc h
  · exact (shrinks_alloc h).memory _
  · exact (shrinks_alloc h).memory _

lemma shrinks_ensureTable (h : Pmm.Good m.pmm) (t i : ℕ) (flags : Pte) :
    Shrinks m (ensureTable m t i flags).1 := by
  have ht := shrinks_tableAlloc h
  unfold ensureTable
  split_ifs
  · exact .refl h
  generalize tableAlloc m = r at ht
  obtain ⟨m', f⟩ := r
  cases f with
  | none => exact ht
  | some f => exact ht.memory _

lemma shrinks_splitHuge (h : Pmm.Good m.pmm) (t i : ℕ) : Shrinks m (splitHuge m t i).1 := by
  have ht := shrinks_tableAlloc h
  unfold splitHuge
  split_ifs
  · generalize tableAlloc m = r at ht
    obtain ⟨m', f⟩ := r
    cases f with
    | none => exact ht
    | some f => exact (ht.memory _).memory _
  · exact .refl h

lemma Shrinks.seq {r : Machine × Bool} {rest : Machine → Machine × Bool} (h : Shrinks m r.1)
    (hr : Shrinks r.1 (rest r.1).1) : Shrinks m (Loop.seq r rest).1 := by
  rw [Loop.seq_eq]
  split_ifs
  · exact h.trans hr
  · exact h

lemma shrinks_mapPage (h : Pmm.Good m.pmm) (virt : ℕ) (phys flags : Pte) :
    Shrinks m (krustPagingMapPage m virt phys flags).1 := by
  unfold krustPagingMapPage krustPagingMapPageIn
  have h4 := shrinks_ensureTable h m.cr3 (pml4I virt) 3#64
  refine h4.seq ?_
  have h3 := shrinks_ensureTable h4.good (child (ensureTable m m.cr3 (pml4I virt) 3#64).1 m.cr3
    (pml4I virt)) (pdpI virt) 3#64
  refine h3.seq ?_
  refine (shrinks_ensureTable h3.good _ (pdI virt) 3#64).seq ?_
  refine (shrinks_splitHuge (shrinks_ensureTable h3.good _ (pdI virt) 3#64).good _ (pdI virt)).seq ?_
  exact (Shrinks.refl (shrinks_splitHuge
    (shrinks_ensureTable h3.good _ (pdI virt) 3#64).good _ (pdI virt)).good).memory _

/-- A frame that was free when the allocator had this bitmap is free again when given back. -/
lemma mem_freeSet_freeFrame (h : SameBits m m') (hf : f ∈ freeSet m) :
    f ∈ freeSet (freeFrame m' f) := by
  have hin : Pmm.outside m'.pmm f = false := by
    have hout : Pmm.outside m'.pmm f = Pmm.outside m.pmm f := by
      rw [Pmm.outside, Pmm.outside, h.bitmap, h.bitmapSize]
    rw [hout, ← Bool.not_eq_true]
    intro ht
    have hte := (Pmm.mem_freeFrames.mp hf).2
    rw [Pmm.bitmapTest_eq_of_outside m.pmm f ht] at hte
    cases hte
  have hte := Pmm.bitmapTest_bitmapClear m'.pmm f f h.good.sized.1
  rw [hin] at hte
  simp only [decide_true, Bool.not_true, Bool.or_self, Bool.and_false] at hte
  have hlt := (Pmm.mem_freeFrames.mp hf).1
  change f ∈ Pmm.freeFrames (Pmm.krustPmmFreeFrame m'.pmm f)
  rw [Pmm.mem_freeFrames]
  unfold Pmm.krustPmmFreeFrame
  dsimp only
  have hto := (Pmm.bitmapClear_header m'.pmm f).2.2.1
  split_ifs
  · exact ⟨by rw [← h.totalFrames] at hlt; exact hto ▸ hlt, hte⟩
  · exact ⟨by rw [← h.totalFrames] at hlt; exact hto ▸ hlt, hte⟩

lemma SameBits.freeFrame (h : SameBits m m') (f : ℕ) : SameBits m (freeFrame m' f) := by
  obtain ⟨hb, hs, ht, -⟩ := Pmm.bitmapClear_header m'.pmm f
  have hsa : (Pmm.krustPmmFreeFrame m'.pmm f).bitmap = m'.pmm.bitmap ∧
      (Pmm.krustPmmFreeFrame m'.pmm f).bitmapSize = m'.pmm.bitmapSize ∧
      (Pmm.krustPmmFreeFrame m'.pmm f).totalFrames = m'.pmm.totalFrames := by
    unfold Pmm.krustPmmFreeFrame
    dsimp only
    split_ifs
    · exact ⟨hb, hs, ht⟩
    · exact ⟨hb, hs, ht⟩
  exact ⟨(h.good.free f).1, hsa.1.trans h.bitmap, hsa.2.1.trans h.bitmapSize,
    hsa.2.2.trans h.totalFrames⟩

end Shrinks

variable {v : ℕ} {e : Pte} {m : Machine}

section Holding

/-- The page of an address, as the page tables see it. -/
def pageOf (v : ℕ) : ℕ := v / 4096 % 2 ^ 36

/-- The loader since the machine `m₀`: `pages` are the pages it has mapped, with their frames; all
other addresses are translated as before. -/
structure Holding (m₀ : Machine) (pages : ℕ → Option ℕ) (s : Loader) : Prop where
  shape : ∃ place, Shape m₀.cr3 place s.machine
  flat : ∀ v, NoGiant (walkOf s.machine m₀.cr3 v)
  cr3 : s.machine.cr3 = m₀.cr3
  bits : SameBits m₀ s.machine
  free : freeSet s.machine ⊆ freeSet m₀
  here : ∀ v f, pages (pageOf v) = some f → ∃ up, up.length = 3 ∧
    walkOf s.machine m₀.cr3 v = up ++ [leafEntry (frameAddr f) 7#64]
  other : ∀ v, pages (pageOf v) = none →
    Same v (walkOf m₀ m₀.cr3 v) (walkOf s.machine m₀.cr3 v)
  taken : ∀ p f, pages p = some f → f ∈ freeSet m₀
  held : ∀ p f, pages p = some f → f ∉ freeSet s.machine
  inj : ∀ p q f, pages p = some f → pages q = some f → p = q

/-- A loader that can go on: its tables are in use and the allocator is sound. -/
structure Going (m₀ : Machine) (pages : ℕ → Option ℕ) (s : Loader) : Prop
    extends Holding m₀ pages s where
  tree : ∃ place, Tree m₀.cr3 place s.machine
  shrinks : Shrinks m₀ s.machine

variable {m₀ : Machine} {pages : ℕ → Option ℕ} {s : Loader} {vaddr : ℕ}

lemma not_large_of_phys {l : List Pte} (h : physOf v l = none) : ¬ Large l := by
  rintro ⟨a, b, e, rfl, he⟩
  simp [physOf, he] at h

lemma Holding.small (h : Holding m₀ pages s) (hv : ¬ Large (walkOf m₀ m₀.cr3 v)) :
    ¬ Large (walkOf s.machine m₀.cr3 v) := by
  cases hp : pages (pageOf v) with
  | none =>
    rcases h.other v hp with heq | ⟨-, hn, -⟩
    · rw [heq]
      exact hv
    · exact not_large_of_phys hn
  | some f =>
    obtain ⟨up, hlen, hw⟩ := h.here v f hp
    rintro ⟨a, b, e, hl, -⟩
    have := congrArg List.length (hw.symm.trans hl)
    simp [hlen] at this

lemma mapped_other {m' : Machine} {root virt : ℕ} (h : Mapped root virt e m m')
    (hl : ¬ Large (walkOf m root virt)) (hv : pageOf v ≠ pageOf virt) :
    Same v (walkOf m root v) (walkOf m' root v) := by
  rcases h.other v fun heq => hv ((indices_eq_iff v virt).mp heq) with hsa | ⟨-, hs⟩
  · exact hsa
  obtain ⟨a, b, e, link, hp, -, -, -, hw, -, -⟩ := hs
  exact absurd ⟨a, b, e, hw, hp⟩ hl

lemma noGiant_four {up : List Pte} (hlen : up.length = 3)
    (hl : ∀ u ∈ up, huge u = false) : NoGiant (up ++ [e]) := by
  intro a ha _
  rw [List.take_append_of_le_length (by omega)] at ha
  exact hl a (List.mem_of_mem_take ha)

section

variable (h : Going m₀ pages s)
include h

lemma Going.claim {p : Pmm.State} (hf : f ∈ freeSet s.machine)
    (hfr : Pmm.freeFrames p = (freeSet s.machine).erase f) (hgo : Pmm.Good p)
    (hs : Shrinks s.machine { s.machine with pmm := p }) :
    Going m₀ pages (s.claim { s.machine with pmm := p } f) ∧
      f ∉ freeSet (s.claim { s.machine with pmm := p } f).machine := by
  obtain ⟨place, ht⟩ := h.tree
  have hto : Took s.machine (s.claim { s.machine with pmm := p } f).machine :=
    .inr ⟨p, f, hf, hfr, hgo, rfl⟩
  obtain ⟨ht', hw⟩ := ht.took hto
  have hset : freeSet (s.claim { s.machine with pmm := p } f).machine =
      (freeSet s.machine).erase f := hfr
  have hsub : freeSet (s.claim { s.machine with pmm := p } f).machine ⊆ freeSet s.machine := by
    rw [hset]
    exact erase_subset _ _
  have hsh := h.shrinks.trans (hs.memory (s.claim { s.machine with pmm := p } f).machine.mem)
  refine ⟨⟨⟨⟨place, ht'.forest⟩, fun v => ?_, h.cr3, hsh.toSameBits,
    fun g hg => h.free (hsub hg), fun v g hg => ?_, fun v hv => ?_, h.taken,
    fun q g hg hmem => h.held q g hg (hsub hmem), h.inj⟩, ⟨place, ht'⟩, hsh⟩, ?_⟩
  · rw [hw v]
    exact h.flat v
  · rw [hw v]
    exact h.here v g hg
  · rw [hw v]
    exact h.other v hv
  rw [hset]
  exact notMem_erase f _

lemma Going.map (hl : ¬ Large (walkOf m₀ m₀.cr3 vaddr))
    (hf : f ∈ freeSet m₀) (hu : f ∉ freeSet s.machine) (hfr : ∀ p, pages p ≠ some f)
    (hmap : krustPagingMapPage s.machine vaddr (frameAddr f) 7#64 = (m, true)) :
    Going m₀ (update pages (pageOf vaddr) (some f)) (Loader.note { s with machine := m } (.map vaddr)) := by
  obtain ⟨place, ht⟩ := h.tree
  have hsp := mapPageIn_spec ht (h.flat vaddr) (frameAddr f) 7#64
  rw [krustPagingMapPage, h.cr3] at hmap
  rw [hmap] at hsp
  have hm := hsp.1 rfl
  have hs : Shrinks s.machine m := by
    have := shrinks_mapPage h.shrinks.good vaddr (frameAddr f) 7#64
    rw [krustPagingMapPage, h.cr3, hmap] at this
    exact this
  obtain ⟨up, hlen, hli, hw, -⟩ := hm.here
  obtain ⟨place', ht'⟩ := hm.tree
  have hp : ∀ v, pageOf v = pageOf vaddr → walkOf m m₀.cr3 v = up ++ [leafEntry (frameAddr f) 7#64] :=
    fun v hv => hw v ((indices_eq_iff v vaddr).mpr hv)
  have hsa : ∀ v, pageOf v ≠ pageOf vaddr →
      Same v (walkOf s.machine m₀.cr3 v) (walkOf m m₀.cr3 v) :=
    fun v hv => mapped_other hm (h.small hl) hv
  refine ⟨⟨⟨place', ht'.forest⟩, fun v => ?_, hs.cr3.trans h.cr3,
    (h.shrinks.trans hs).toSameBits, fun g hg => h.free (hs.free hg), fun v g hg => ?_, fun v hv => ?_, fun q g hg => ?_,
    fun q g hg hmem => ?_, fun q q' g hg hg' => ?_⟩, ⟨place', ht'⟩, h.shrinks.trans hs⟩
  · by_cases hv : pageOf v = pageOf vaddr
    · change NoGiant (walkOf m m₀.cr3 v)
      rw [hp v hv]
      exact noGiant_four hlen hli
    · exact (hsa v hv).noGiant (h.flat v)
  · by_cases hv : pageOf v = pageOf vaddr
    · rw [hv, update_self] at hg
      rw [← Option.some.inj hg]
      exact ⟨up, hlen, hp v hv⟩
    rw [update_of_ne hv] at hg
    obtain ⟨up', hlen', hold⟩ := h.here v g hg
    refine ⟨up', hlen', ?_⟩
    rcases hsa v hv with heq | ⟨hn, -, -⟩
    · exact heq.trans hold
    rw [hold, physOf_four hlen' v (present_leafEntry _ _)] at hn
    cases hn
  · by_cases hpv : pageOf v = pageOf vaddr
    · rw [hpv, update_self] at hv
      cases hv
    rw [update_of_ne hpv] at hv
    exact (h.other v hv).trans (hsa v hpv)
  · by_cases hq : q = pageOf vaddr
    · rw [hq, update_self] at hg
      exact Option.some.inj hg ▸ hf
    rw [update_of_ne hq] at hg
    exact h.taken q g hg
  · by_cases hq : q = pageOf vaddr
    · rw [hq, update_self] at hg
      exact hu (hs.free (Option.some.inj hg ▸ hmem))
    rw [update_of_ne hq] at hg
    exact h.held q g hg (hs.free hmem)
  by_cases hq : q = pageOf vaddr
  · by_cases hq' : q' = pageOf vaddr
    · exact hq.trans hq'.symm
    rw [hq, update_self] at hg
    rw [update_of_ne hq'] at hg'
    exact absurd (hg'.trans hg.symm) (hfr q')
  by_cases hq' : q' = pageOf vaddr
  · rw [hq', update_self] at hg'
    rw [update_of_ne hq] at hg
    exact absurd (hg.trans hg'.symm) (hfr q)
  rw [update_of_ne hq] at hg
  rw [update_of_ne hq'] at hg'
  exact h.inj q q' g hg hg'

lemma Going.refuse (hf : f ∈ freeSet m₀) (hfr : ∀ p, pages p ≠ some f)
    (hmap : krustPagingMapPage s.machine vaddr (frameAddr f) 7#64 = (m, false)) :
    Holding m₀ pages { s with machine := freeFrame m f } ∧ f ∈ freeSet (freeFrame m f) := by
  obtain ⟨place, ht⟩ := h.tree
  have hsp := mapPageIn_spec ht (h.flat vaddr) (frameAddr f) 7#64
  have hs := shrinks_mapPage h.shrinks.good vaddr (frameAddr f) 7#64
  rw [krustPagingMapPage, h.cr3] at hmap hs
  rw [hmap] at hsp hs
  have hfa := hsp.2 rfl
  obtain ⟨place', ht'⟩ := hfa.tree
  have hall := h.shrinks.trans hs
  have hb : freeSet (freeFrame m f) ⊆ insert f (freeSet m) := (hall.good.free f).2.2
  refine ⟨⟨⟨place', ht'.forest⟩, fun v => (hfa.same v).noGiant (h.flat v),
    hs.cr3.trans h.cr3, hall.toSameBits.freeFrame f, fun g hg => ?_, fun v g hg => ?_,
    fun v hv => (h.other v hv).trans (hfa.same v), h.taken, fun q g hg hmem => ?_, h.inj⟩,
    mem_freeSet_freeFrame hall.toSameBits hf⟩
  · rcases mem_insert.mp (hb hg) with rfl | hg
    · exact hf
    · exact hall.free hg
  · obtain ⟨up, hlen, hold⟩ := h.here v g hg
    refine ⟨up, hlen, ?_⟩
    rcases hfa.same v with heq | ⟨hn, -, -⟩
    · exact heq.trans hold
    rw [hold, physOf_four hlen v (present_leafEntry _ _)] at hn
    cases hn
  rcases mem_insert.mp (hb hmem) with rfl | hmem
  · exact hfr q hg
  · exact h.held q g hg (hs.free hmem)

/-- What a round over one page does: it maps the page to a frame that was free, or leaves no frame
behind. -/
lemma Going.mapOne (hl : ¬ Large (walkOf m₀ m₀.cr3 vaddr)) :
    (∃ f ∈ freeSet s.machine, ∃ s', Elf.mapOne vaddr s = (s', true) ∧
      Going m₀ (update pages (pageOf vaddr) (some f)) s' ∧
      s'.byte = update s.byte f (fun _ => 0) ∧
      s'.log = s.log ++ [.frame f] ++ [.map vaddr] ∧
      s'.mapStart = s.mapStart ∧ s'.mapEnd = s.mapEnd) ∨
    ∃ s', Elf.mapOne vaddr s = (s', false) ∧ Holding m₀ pages s' ∧
      (s'.log = s.log ∨ ∃ f ∈ freeSet s'.machine, s'.log = s.log ++ [.frame f]) ∧
      s'.mapStart = s.mapStart ∧ s'.mapEnd = s.mapEnd := by
  have hg := h.shrinks.good
  unfold Elf.mapOne
  rcases allocFrame_cases hg with ⟨heq, -⟩ | ⟨p, f, heq, hne, hf, hfre, hp⟩
  · right
    rw [heq]
    exact ⟨s, rfl, h.toHolding, .inl rfl, rfl, rfl⟩
  have hs := shrinks_alloc hg
  rw [heq] at hs
  obtain ⟨hgo, hu⟩ := h.claim hf hfre hp hs
  have hfr : ∀ q, pages q ≠ some f := fun q hq => h.held q f hq hf
  rw [heq]
  dsimp only
  rw [if_neg hne]
  cases hmap : krustPagingMapPage (s.claim { s.machine with pmm := p } f).machine vaddr (frameAddr f)
      7#64 with
  | mk m b =>
    cases b with
    | true =>
      left
      exact ⟨f, hf, _, rfl, hgo.map hl (h.free hf) hu hfr hmap, rfl, rfl, rfl, rfl⟩
    | false =>
      right
      obtain ⟨hh, hb⟩ := hgo.refuse (h.free hf) hfr hmap
      exact ⟨_, rfl, hh, .inr ⟨f, hb, rfl⟩, rfl, rfl⟩

end

end Holding

end Elitra.Elf
