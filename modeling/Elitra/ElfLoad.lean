import Elitra.ElfPages

namespace Elitra.Elf
open Function List Paging Vmm

variable {f k : ℕ} {src : ℕ → BitVec 8} {s'' : Loader}

section Bytes

variable {m₀ : Machine} {pages : ℕ → Option ℕ} {s s' : Loader}

lemma Holding.congr (h : Holding m₀ pages s) (hm : s'.machine = s.machine) :
    Holding m₀ pages s' := by
  obtain ⟨h1, h2, h3, h4, h5, h6, h7, h8, h9, h10⟩ := h
  rw [← hm] at h1 h2 h3 h4 h5 h6 h7 h9
  exact ⟨h1, h2, h3, h4, h5, h6, h7, h8, h9, h10⟩

lemma Going.congr (h : Going m₀ pages s) (hm : s'.machine = s.machine) : Going m₀ pages s' :=
  ⟨h.toHolding.congr hm, hm ▸ h.tree, hm ▸ h.shrinks⟩

lemma toNat_location {v : ℕ} (hf : f < 2 ^ 40) :
    (frameAddr f ||| BitVec.ofNat 64 (v % 4096)).toNat = f * 4096 + v % 4096 := by
  have hlow : v % 4096 < 2 ^ 12 := Nat.mod_lt _ (by decide)
  rw [BitVec.toNat_or, frameAddr_toNat hf, BitVec.toNat_ofNat,
    Nat.mod_eq_of_lt (show v % 4096 < 2 ^ 64 by omega),
    show f * 4096 = f <<< 12 by rw [Nat.shiftLeft_eq], ← Nat.shiftLeft_add_eq_or_of_lt hlow]

lemma Holding.location_inj (h : Holding m₀ pages s) {x y : ℕ} (hx : pages (pageOf x) = some f)
    (hy : pages (pageOf y) = some f) (hxlt : x < 2 ^ 48) (hylt : y < 2 ^ 48)
    (ho : x % 4096 = y % 4096) : x = y := by
  have hp := h.inj _ _ f hx hy
  unfold pageOf at hp
  omega

variable (hgood : Pmm.Good m₀.pmm)
include hgood

section Pages

variable (h : Holding m₀ pages s)
include h

lemma Holding.getPhys {v : ℕ} (hp : pages (pageOf v) = some f) :
    ∃ phys, krustPagingGetPhys s.machine v = some phys ∧ phys.toNat / 4096 = f ∧
      phys.toNat % 4096 = v % 4096 := by
  obtain ⟨up, hlen, hw⟩ := h.here v f hp
  have hlt : f < 2 ^ 40 := hgood.mem_lt (h.taken _ f hp)
  have hf := h.flat v
  rw [← h.cr3] at hf hw
  refine ⟨frameAddr f ||| BitVec.ofNat 64 (v % 4096), ?_, ?_⟩
  · rw [getPhys_eq hf, hw, physOf_four hlen v (present_leafEntry _ _), addr_leafEntry,
      frameAddr_and_mask hlt]
  rw [toNat_location hlt]
  omega

lemma Holding.loadByte {v : ℕ} (hp : pages (pageOf v) = some f) :
    s.loadByte v = some (s.byte f (v % 4096)) := by
  obtain ⟨phys, hph, hf, ho⟩ := h.getPhys hgood hp
  rw [Loader.loadByte, hph, Option.map_some, hf, ho]

lemma Holding.storeByte {v : ℕ} (hp : pages (pageOf v) = some f) (b : BitVec 8) : s.storeByte v b =
      { s with byte := update s.byte f (update (s.byte f) (v % 4096) b) } := by
  obtain ⟨phys, hph, hf, ho⟩ := h.getPhys hgood hp
  unfold Loader.storeByte
  rw [hph]
  dsimp only
  rw [hf, ho]

/-- What a copy to held pages changes: the bytes of its window, and nothing else. -/
structure Copied (pages : ℕ → Option ℕ) (dst : ℕ) (src : ℕ → BitVec 8) (n : ℕ) (s s' : Loader) :
    Prop where
  machine : s'.machine = s.machine
  mapStart : s'.mapStart = s.mapStart
  mapEnd : s'.mapEnd = s.mapEnd
  byte : ∀ x f, x < 2 ^ 48 → pages (pageOf x) = some f →
    s'.byte f (x % 4096) = if dst ≤ x ∧ x < dst + n then src (x - dst) else s.byte f (x % 4096)

lemma Holding.copy_step {dst : ℕ}
    {s' : Loader} (hc : Copied pages dst src k s s') (hlt : dst + k < 2 ^ 48)
    (hp : pages (pageOf (dst + k)) = some f) :
    Copied pages dst src (k + 1) s (s'.storeByte (add64 dst k) (src k)) := by
  have hadd : add64 dst k = dst + k := Nat.mod_eq_of_lt (by omega)
  rw [hadd, (h.congr hc.machine).storeByte hgood hp]
  refine ⟨hc.machine, hc.mapStart, hc.mapEnd, fun x g hx hg => ?_⟩
  dsimp only
  by_cases hxk : x = dst + k
  · subst hxk
    obtain rfl : f = g := Option.some.inj (hp.symm.trans hg)
    rw [update_self, update_self, if_pos (by omega), Nat.add_sub_cancel_left]
  have hot : update s'.byte f (update (s'.byte f) ((dst + k) % 4096) (src k)) g
      (x % 4096) = s'.byte g (x % 4096) := by
    by_cases hfg : g = f
    · subst hfg
      rw [update_self, update_of_ne]
      exact fun ho => hxk (h.location_inj hg hp hx hlt ho)
    · rw [update_of_ne hfg]
  rw [hot, hc.byte x g hx hg]
  split_ifs with h1 h2 h2
  · rfl
  · omega
  · omega
  · rfl

lemma Holding.memcpy (dst n : ℕ) (src : ℕ → BitVec 8)
    (hlt : dst + n ≤ 2 ^ 48) (hh : ∀ k < n, ∃ f, pages (pageOf (dst + k)) = some f) :
    Copied pages dst src n s (s.memcpy dst src n) := by
  unfold Loader.memcpy
  refine Loop.each_range (fun k s' => Copied pages dst src k s s') ?_ ?_
  · exact ⟨rfl, rfl, rfl, fun x f _ _ => by rw [if_neg (by omega)]; rfl⟩
  intro k s' hk hc
  obtain ⟨f, hf⟩ := hh k hk
  exact h.copy_step hgood hc (by omega) hf

end Pages

omit hgood in
lemma Copied.append {dst n n' : ℕ} {src' : ℕ → BitVec 8}
    (h : Copied pages dst src n s s') (h' : Copied pages (dst + n) src' n' s' s'') :
    Copied pages dst (fun k => if k < n then src k else src' (k - n)) (n + n') s s'' := by
  refine ⟨h'.machine.trans h.machine, h'.mapStart.trans h.mapStart, h'.mapEnd.trans h.mapEnd,
    fun x f hx hf => ?_⟩
  rw [h'.byte x f hx hf, h.byte x f hx hf]
  by_cases h1 : dst ≤ x ∧ x < dst + n
  · rw [if_neg (by omega), if_pos h1, if_pos (by omega), if_pos (by omega)]
  by_cases h2 : dst + n ≤ x ∧ x < dst + n + n'
  · rw [if_pos h2, if_pos (by omega), if_neg (by omega), Nat.sub_sub]
  · rw [if_neg h2, if_neg h1, if_neg (by omega)]

end Bytes

variable {pages' : ℕ → Option ℕ}

section Segments

variable {m₀ : Machine} {pages : ℕ → Option ℕ} {s s' : Loader} {start n : ℕ}

/-- Every frame the loader has taken is behind one of its pages. -/
def Tracked (pages : ℕ → Option ℕ) (s : Loader) : Prop :=
  ∀ f, Access.frame f ∈ s.log → ∃ p, pages p = some f

/-- The pages `start / 4096 + j` for `j < k`. -/
def InRange (start k p : ℕ) : Prop := start / 4096 ≤ p ∧ p < start / 4096 + k

/-- The loop over the pages of a segment after `k` rounds: these pages are held now, the others as
before. -/
structure Mapping (pages : ℕ → Option ℕ) (s : Loader) (start k : ℕ) (pages' : ℕ → Option ℕ)
    (s' : Loader) : Prop where
  filled : ∀ p, InRange start k p → ∃ f, pages' p = some f
  kept : ∀ p, ¬ InRange start k p → pages' p = pages p
  mapStart : s'.mapStart = s.mapStart
  mapEnd : s'.mapEnd = s.mapEnd

def SameBytes (pages : ℕ → Option ℕ) (s : Loader) (start k : ℕ) (s' : Loader) : Prop :=
  ∀ p f, ¬ InRange start k p → pages p = some f → s'.byte f = s.byte f

/-- A loop that ran out of memory after mapping `k` pages. -/
structure Stopped (m₀ : Machine) (pages : ℕ → Option ℕ) (s : Loader) (start k : ℕ)
    (pages' : ℕ → Option ℕ) (s' : Loader) : Prop where
  holding : Holding m₀ pages' s'
  mapping : Mapping pages s start k pages' s'
  tracked : Tracked pages s → (∀ p, InRange start k p → pages p = none) →
    ∀ f, Access.frame f ∈ s'.log → (∃ p, pages' p = some f) ∨ f ∈ freeSet s'.machine

lemma pageOf_pageAt (hs : start % 4096 = 0) (hlt : start + k * 4096 < 2 ^ 48) :
    pageOf (pageAt start k) = start / 4096 + k := by
  unfold pageOf pageAt
  omega

lemma not_inRange_succ {p : ℕ} (h : ¬ InRange start (k + 1) p) :
    p ≠ start / 4096 + k ∧ ¬ InRange start k p := by
  unfold InRange at h ⊢
  omega

lemma Mapping.step
    (h : Mapping pages s start k pages' s') (f : ℕ) (hms : s''.mapStart = s'.mapStart)
    (hme : s''.mapEnd = s'.mapEnd) :
    Mapping pages s start (k + 1) (update pages' (start / 4096 + k) (some f)) s'' := by
  refine ⟨fun p hp => ?_, fun p hp => ?_, hms.trans h.mapStart, hme.trans h.mapEnd⟩
  · by_cases hpk : p = start / 4096 + k
    · exact ⟨f, by rw [hpk, update_self]⟩
    rw [update_of_ne hpk]
    unfold InRange at hp
    exact h.filled p ⟨hp.1, by omega⟩
  rw [update_of_ne (not_inRange_succ hp).1]
  exact h.kept p (not_inRange_succ hp).2

lemma SameBytes.step (h : SameBytes pages s start k s') (hmap : Mapping pages s start k pages' s')
    (hh : ∀ p g, pages' p = some g → g ≠ f)
    (hb : s''.byte = update s'.byte f fun _ => 0) :
    SameBytes pages s start (k + 1) s'' := by
  intro p g hp hg
  have hout := (not_inRange_succ hp).2
  rw [hb, update_of_ne (hh p g ((hmap.kept p hout).trans hg))]
  exact h p g hout hg

lemma Tracked.step {v : ℕ} (h : Tracked pages s) (hn : pages k = none)
    (hlog : s'.log = s.log ++ [.frame f] ++ [.map v]) :
    Tracked (update pages k (some f)) s' := by
  intro g hg
  rw [hlog, mem_append, mem_append] at hg
  rcases hg with (hg | hg) | hg
  · obtain ⟨p, hp⟩ := h g hg
    refine ⟨p, ?_⟩
    rw [update_of_ne]
    · exact hp
    rintro rfl
    rw [hn] at hp
    cases hp
  · rw [mem_singleton] at hg
    exact ⟨k, by rw [update_self, Access.frame.inj hg]⟩
  rw [mem_singleton] at hg
  cases hg

lemma Going.mapRun (h : Going m₀ pages s) (hs : start % 4096 = 0) (hlt : start + n * 4096 ≤ 2 ^ 48)
    (hl : ∀ k < n, ¬ Large (walkOf m₀ m₀.cr3 (pageAt start k))) :
    let r := Loop.run (fun k => Elf.mapOne (pageAt start k)) (range n) s
    (r.2 = true → ∃ pages', Going m₀ pages' r.1 ∧ Mapping pages s start n pages' r.1 ∧
      SameBytes pages s start n r.1 ∧
      (Tracked pages s → (∀ p, InRange start n p → pages p = none) → Tracked pages' r.1)) ∧
    (r.2 = false → ∃ k ≤ n, ∃ pages', Stopped m₀ pages s start k pages' r.1) := by
  refine Loop.run_range
    (fun k s' => ∃ pages', Going m₀ pages' s' ∧ Mapping pages s start k pages' s' ∧
      SameBytes pages s start k s' ∧
      (Tracked pages s → (∀ p, InRange start k p → pages p = none) → Tracked pages' s'))
    (fun s' => ∃ k ≤ n, ∃ pages', Stopped m₀ pages s start k pages' s') ?_ ?_ ?_
  · exact ⟨pages, h, ⟨fun p hp => absurd hp (by unfold InRange; omega), fun _ _ => rfl, rfl, rfl⟩,
      fun _ _ _ _ => rfl, fun ht _ => ht⟩
  · rintro k s' hk ⟨pages', hgo, hmap, hb, htr⟩ hok
    have hpa := pageOf_pageAt (k := k) hs (by omega)
    rcases hgo.mapOne (hl k hk) with ⟨f, hf, s'', heq, hgo', hby, hlog, hms, hme⟩ |
      ⟨s'', heq, -⟩
    · rw [heq]
      rw [hpa] at hgo'
      refine ⟨_, hgo', hmap.step f hms hme,
        hb.step hmap (fun p g hg hgf => hgo.held p g hg (hgf ▸ hf)) hby, fun ht hn => ?_⟩
      have hr : ∀ p, InRange start k p → InRange start (k + 1) p := by
        unfold InRange
        omega
      refine (htr ht fun p hp => hn p (hr p hp)).step ?_ hlog
      rw [hmap.kept _ (by unfold InRange; omega)]
      exact hn _ (by unfold InRange; omega)
    rw [heq] at hok
    cases hok
  rintro k s' hk ⟨pages', hgo, hmap, -, htr⟩ hfa
  rcases hgo.mapOne (hl k hk) with ⟨f, hf, s'', heq, -⟩ | ⟨s'', heq, hh, hlog, hms, hme⟩
  · rw [heq] at hfa
    cases hfa
  rw [heq]
  refine ⟨k, hk.le, pages', hh, ⟨hmap.filled, hmap.kept, hms.trans hmap.mapStart,
    hme.trans hmap.mapEnd⟩, fun ht hn f hf => ?_⟩
  rcases hlog with hlog | ⟨g, hg, hlog⟩
  · rw [hlog] at hf
    exact .inl (htr ht hn f hf)
  rw [hlog, mem_append, mem_singleton] at hf
  rcases hf with hf | hf
  · exact .inl (htr ht hn f hf)
  · exact .inr (Access.frame.inj hf ▸ hg)

end Segments

section File

/-- A segment that the loader's arithmetic is right for: its file bytes lie in the file and do not
outnumber its memory, and it lies in the user range. -/
structure Fits (size base : ℕ) (ph : ProgramHeader) : Prop where
  file : ph.offset + ph.filesz ≤ size
  sizes : ph.filesz ≤ ph.memsz
  low : 0x1000 ≤ ph.vaddr + base
  high : ph.vaddr + base + ph.memsz ≤ Syscalls.userAddrMax

/-- The page belongs to the segment. -/
def InSegment (base : ℕ) (ph : ProgramHeader) (p : ℕ) : Prop :=
  InRange (segmentStart base ph) (rounds (segmentStart base ph) (segmentEnd base ph)) p

/-- The segments among the first `n` headers that are loaded. -/
def Loads (fmt : Format) (d : Mem) (n i : ℕ) : Prop := i < n ∧ (fmt.segment d i).type = ptLoad

def ProgramHeader.byteAt (ph : ProgramHeader) (d : Mem) (k : ℕ) : BitVec 8 :=
  if k < ph.filesz then d (ph.offset + k) else 0

def Loaded (d : Mem) (base : ℕ) (ph : ProgramHeader) (s : Loader) : Prop :=
  ∀ k < ph.memsz, s.loadByte (ph.vaddr + base + k) = some (ph.byteAt d k)

/-- Every segment fits, and no two have a page in common. -/
structure WellFormed (fmt : Format) (d : Mem) (size base : ℕ) : Prop where
  fits : ∀ i, Loads fmt d (fmt.header d).phnum i → Fits size base (fmt.segment d i)
  apart : ∀ i j, Loads fmt d (fmt.header d).phnum i → Loads fmt d (fmt.header d).phnum j → i ≠ j →
    ∀ p, InSegment base (fmt.segment d i) p → ¬ InSegment base (fmt.segment d j) p

/-- `mapStart` and `mapEnd` are the borders of the segments met so far. -/
structure Spans (fmt : Format) (d : Mem) (base n : ℕ) (s : Loader) : Prop where
  low : ∀ i, Loads fmt d n i → s.mapStart ≤ segmentStart base (fmt.segment d i)
  high : ∀ i, Loads fmt d n i → segmentEnd base (fmt.segment d i) ≤ s.mapEnd
  start : s.mapStart = 2 ^ 64 - 1 ∨ ∃ i, Loads fmt d n i ∧
    s.mapStart = segmentStart base (fmt.segment d i)
  stop : s.mapEnd = 0 ∨ ∃ i, Loads fmt d n i ∧ s.mapEnd = segmentEnd base (fmt.segment d i)

/-- The loader after the first `n` headers: it holds the pages of their segments. -/
structure Progress (fmt : Format) (d : Mem) (base : ℕ) (m₀ : Machine) (n : ℕ) (pages : ℕ → Option ℕ)
    (s : Loader) : Prop where
  going : Going m₀ pages s
  tracked : Tracked pages s
  spans : Spans fmt d base n s
  owned : ∀ p f, pages p = some f → ∃ i, Loads fmt d n i ∧ InSegment base (fmt.segment d i) p
  filled : ∀ i, Loads fmt d n i → ∀ p, InSegment base (fmt.segment d i) p → ∃ f, pages p = some f
  loaded : ∀ i, Loads fmt d n i → Loaded d base (fmt.segment d i) s

/-- The loader at an exit with -1, before it cleans up. -/
structure Exits (fmt : Format) (d : Mem) (base : ℕ) (m₀ : Machine) (n : ℕ) (pages : ℕ → Option ℕ)
    (s : Loader) : Prop where
  holding : Holding m₀ pages s
  tracked : ∀ f, Access.frame f ∈ s.log → (∃ p, pages p = some f) ∨ f ∈ freeSet s.machine
  spans : Spans fmt d base n s
  owned : ∀ p f, pages p = some f → ∃ i, Loads fmt d n i ∧ InSegment base (fmt.segment d i) p

variable {fmt : Format} {d : Mem} {size base : ℕ} {ph : ProgramHeader}

section Borders

variable (h : Fits size base ph)
include h

lemma Fits.start :
    segmentStart base ph = (ph.vaddr + base) / 4096 * 4096 := by
  have hh := h.high
  unfold segmentStart alignDown add64 pageSize
  unfold Syscalls.userAddrMax at hh
  omega

lemma Fits.stop :
    segmentEnd base ph = (ph.vaddr + base + ph.memsz + 4095) / 4096 * 4096 := by
  have hh := h.high
  unfold segmentEnd alignUp add64 pageSize
  unfold Syscalls.userAddrMax at hh
  omega

lemma Fits.top :
    segmentStart base ph + rounds (segmentStart base ph) (segmentEnd base ph) * 4096 ≤ 2 ^ 47 := by
  have hh := h.high
  rw [h.start, h.stop]
  unfold Syscalls.userAddrMax at hh
  unfold rounds
  omega

lemma Fits.inSegment (hk : k < ph.memsz) : InSegment base ph (pageOf (ph.vaddr + base + k)) := by
  have hh := h.high
  unfold InSegment InRange
  rw [h.start, h.stop]
  unfold rounds pageOf
  unfold Syscalls.userAddrMax at hh
  omega

lemma Fits.sums (hsi : size < 2 ^ 32) :
    add64 ph.vaddr base = ph.vaddr + base ∧
      add64 (ph.vaddr + base) ph.filesz = ph.vaddr + base + ph.filesz ∧
      add64 ph.offset ph.filesz = ph.offset + ph.filesz := by
  have hh := h.high
  have hf := h.file
  have hs := h.sizes
  unfold Syscalls.userAddrMax at hh
  refine ⟨Nat.mod_eq_of_lt ?_, Nat.mod_eq_of_lt ?_, Nat.mod_eq_of_lt ?_⟩
  · omega
  · omega
  · omega

lemma Fits.user (hk : k < rounds (segmentStart base ph) (segmentEnd base ph)) :
    pageAt (segmentStart base ph) k < 2 ^ 47 := by
  have htop := h.top
  have hr : k * 4096 < rounds (segmentStart base ph) (segmentEnd base ph) * 4096 :=
    Nat.mul_lt_mul_of_pos_right hk (by decide)
  unfold pageAt
  omega

end Borders

lemma loads_succ {n i : ℕ} (h : Loads fmt d (n + 1) i) :
    Loads fmt d n i ∨ i = n ∧ (fmt.segment d n).type = ptLoad := by
  rcases Nat.lt_succ_iff_lt_or_eq.mp h.1 with hi | rfl
  · exact .inl ⟨hi, h.2⟩
  · exact .inr ⟨rfl, h.2⟩

lemma Loads.mono {n n' i : ℕ} (h : Loads fmt d n i) (hn : n ≤ n') : Loads fmt d n' i :=
  ⟨h.1.trans_le hn, h.2⟩

lemma loads_skip {n i : ℕ} (hn : (fmt.segment d n).type ≠ ptLoad) :
    Loads fmt d (n + 1) i ↔ Loads fmt d n i := by
  refine ⟨fun h => (loads_succ h).resolve_right fun hi => hn hi.2, fun h => h.mono (Nat.le_succ n)⟩

variable {n : ℕ}

lemma Spans.step {s s' : Loader} (h : Spans fmt d base n s) (hn : (fmt.segment d n).type = ptLoad)
    (hms : s'.mapStart = if segmentStart base (fmt.segment d n) < s.mapStart then
      segmentStart base (fmt.segment d n) else s.mapStart)
    (hme : s'.mapEnd = if s.mapEnd < segmentEnd base (fmt.segment d n) then
      segmentEnd base (fmt.segment d n) else s.mapEnd) : Spans fmt d base (n + 1) s' := by
  have hl : Loads fmt d (n + 1) n := ⟨Nat.lt_succ_self n, hn⟩
  refine ⟨fun i hi => ?_, fun i hi => ?_, ?_, ?_⟩
  · rw [hms]
    rcases loads_succ hi with hi | ⟨rfl, -⟩
    · have := h.low i hi
      split_ifs <;> omega
    · split_ifs <;> omega
  · rw [hme]
    rcases loads_succ hi with hi | ⟨rfl, -⟩
    · have := h.high i hi
      split_ifs <;> omega
    · split_ifs <;> omega
  · rw [hms]
    split_ifs
    · exact .inr ⟨n, hl, rfl⟩
    rcases h.start with hs | ⟨i, hi, hs⟩
    · exact .inl hs
    · exact .inr ⟨i, hi.mono (Nat.le_succ n), hs⟩
  rw [hme]
  split_ifs
  · exact .inr ⟨n, hl, rfl⟩
  rcases h.stop with hs | ⟨i, hi, hs⟩
  · exact .inl hs
  · exact .inr ⟨i, hi.mono (Nat.le_succ n), hs⟩

lemma storeByte_log (s : Loader) (v : ℕ) (b : BitVec 8) : (s.storeByte v b).log = s.log := by
  unfold Loader.storeByte
  split <;> rfl

lemma memcpy_log (s : Loader) (dst : ℕ) (src : ℕ → BitVec 8) (n : ℕ) :
    (s.memcpy dst src n).log = s.log ++ [.write dst n] := by
  unfold Loader.memcpy
  refine Loop.each_range (fun _ (s' : Loader) => s'.log = s.log ++ [.write dst n]) ?_ ?_
  · rfl
  intro k s' _ h
  rw [storeByte_log, h]

variable {m₀ : Machine} {pages : ℕ → Option ℕ} {s : Loader}

lemma frame_mem_fillSegment (h : Access.frame f ∈ (fillSegment d size base ph s).log) :
    Access.frame f ∈ s.log := by
  unfold fillSegment Loader.note at h
  dsimp only at h
  split_ifs at h
  · simpa [memcpy_log] using h
  · simpa [memcpy_log] using h
  · simpa [memcpy_log] using h
  · exact h

lemma Holding.fill (hgood : Pmm.Good m₀.pmm) (h : Holding m₀ pages s) (hsz : size < 2 ^ 32)
    (hft : Fits size base ph) (hh : ∀ p, InSegment base ph p → ∃ f, pages p = some f) :
    Copied pages (ph.vaddr + base) (ph.byteAt d) ph.memsz s (fillSegment d size base ph s) := by
  have hhi := hft.high
  have hsi := hft.sizes
  unfold Syscalls.userAddrMax at hhi
  have hmem : ∀ k < ph.memsz, ∃ f, pages (pageOf (ph.vaddr + base + k)) = some f :=
    fun k hk => hh _ (hft.inSegment hk)
  obtain ⟨ha, hend, hin⟩ := hft.sums hsz
  have hn : Holding m₀ pages (s.note (.read ph.offset ph.filesz)) := h.congr rfl
  have hfi := hn.memcpy hgood (ph.vaddr + base) ph.filesz (fun k => d (ph.offset + k))
    (by omega) fun k hk => hmem k (by omega)
  have hfi' : Copied pages (ph.vaddr + base) (fun k => d (ph.offset + k)) ph.filesz s
      ((s.note (.read ph.offset ph.filesz)).memcpy (ph.vaddr + base) (fun k => d (ph.offset + k))
        ph.filesz) :=
    ⟨hfi.machine, hfi.mapStart, hfi.mapEnd, hfi.byte⟩
  unfold fillSegment
  rw [ha, hend, hin, if_pos hft.file]
  dsimp only
  by_cases hlt : ph.filesz < ph.memsz
  · rw [if_pos hlt]
    have hs := (h.congr hfi'.machine).memcpy hgood (ph.vaddr + base + ph.filesz)
      (ph.memsz - ph.filesz) (fun _ => 0) (by omega) fun k hk => by
        rw [Nat.add_assoc]
        exact hmem _ (by omega)
    have hb := hfi'.append hs
    rw [Nat.add_sub_cancel' hsi] at hb
    exact hb
  rw [if_neg hlt]
  have heq : ph.memsz = ph.filesz := by omega
  refine ⟨hfi'.machine, hfi'.mapStart, hfi'.mapEnd, fun x f hx hf => ?_⟩
  rw [hfi'.byte x f hx hf, heq]
  by_cases hwin : ph.vaddr + base ≤ x ∧ x < ph.vaddr + base + ph.filesz
  · rw [if_pos hwin, if_pos hwin, ProgramHeader.byteAt, if_pos (by omega)]
  · rw [if_neg hwin, if_neg hwin]

section Segments

variable (h : Progress fmt d base m₀ n pages s)
include h

/-- What a round of the outer loop does for a segment that fits and is apart from the earlier
ones. -/
lemma Progress.segment (hgood : Pmm.Good m₀.pmm) (hsi : size < 2 ^ 32)
    (hsm : ∀ v < 2 ^ 47, ¬ Large (walkOf m₀ m₀.cr3 v)) (hn : (fmt.segment d n).type = ptLoad)
    (hfi : ∀ i, Loads fmt d (n + 1) i → Fits size base (fmt.segment d i))
    (ha : ∀ i, Loads fmt d n i → ∀ p, InSegment base (fmt.segment d i) p →
      ¬ InSegment base (fmt.segment d n) p) :
    let r := loadSegment d size base (fmt.segment d n) s
    (r.2 = true → ∃ pages', Progress fmt d base m₀ (n + 1) pages' r.1) ∧
      (r.2 = false → ∃ pages', Exits fmt d base m₀ (n + 1) pages' r.1) := by
  have hfit := hfi n ⟨Nat.lt_succ_self n, hn⟩
  have htop := hfit.top
  have hfr : ∀ p, InSegment base (fmt.segment d n) p → pages p = none := by
    intro p hp
    cases hpg : pages p with
    | none => rfl
    | some f =>
      obtain ⟨i, hi, hin⟩ := h.owned p f hpg
      exact absurd hp (ha i hi p hin)
  have hnew : ∀ p, InSegment base (fmt.segment d n) p →
      ∃ i, Loads fmt d (n + 1) i ∧ InSegment base (fmt.segment d i) p :=
    fun p hp => ⟨n, ⟨Nat.lt_succ_self n, hn⟩, hp⟩
  have hold : ∀ p f, pages p = some f →
      ∃ i, Loads fmt d (n + 1) i ∧ InSegment base (fmt.segment d i) p := by
    intro p f hp
    obtain ⟨i, hi, hin⟩ := h.owned p f hp
    exact ⟨i, hi.mono (Nat.le_succ n), hin⟩
  unfold loadSegment
  dsimp only
  rw [Loop.seq_eq]
  -- The loop over the pages starts with the new borders.
  generalize hs0 : ({ s with
    mapStart := if segmentStart base (fmt.segment d n) < s.mapStart then
      segmentStart base (fmt.segment d n) else s.mapStart
    mapEnd := if s.mapEnd < segmentEnd base (fmt.segment d n) then
      segmentEnd base (fmt.segment d n) else s.mapEnd } : Loader) = s0
  have hsp : Spans fmt d base (n + 1) s0 := h.spans.step hn (by rw [← hs0]) (by rw [← hs0])
  have hgo : Going m₀ pages s0 := h.going.congr (by rw [← hs0])
  have hb0 : s0.byte = s.byte := by rw [← hs0]
  have hma0 : s0.machine = s.machine := by rw [← hs0]
  have ht0 : Tracked pages s0 := by
    intro f hf
    rw [← hs0] at hf
    exact h.tracked f hf
  have hm : ∀ s', s'.mapStart = s0.mapStart → s'.mapEnd = s0.mapEnd →
      Spans fmt d base (n + 1) s' := by
    intro s' hms hme
    refine ⟨fun i hi => ?_, fun i hi => ?_, ?_, ?_⟩
    · rw [hms]
      exact hsp.low i hi
    · rw [hme]
      exact hsp.high i hi
    · rw [hms]
      exact hsp.start
    rw [hme]
    exact hsp.stop
  have hsr : segmentStart base (fmt.segment d n) % 4096 = 0 := by
    rw [hfit.start]
    omega
  obtain ⟨hd, hsto⟩ := hgo.mapRun hsr (by omega) (fun k hk => hsm _ (hfit.user hk))
    (n := rounds (segmentStart base (fmt.segment d n)) (segmentEnd base (fmt.segment d n)))
  generalize Loop.run (fun k => Elf.mapOne (pageAt (segmentStart base (fmt.segment d n)) k))
    (range (rounds (segmentStart base (fmt.segment d n)) (segmentEnd base (fmt.segment d n))))
    s0 = r at hd hsto
  by_cases hr : r.2 = true
  · rw [if_pos hr]
    obtain ⟨pages', hgo', hmap, hby, ht⟩ := hd hr
    have hh : ∀ p, InSegment base (fmt.segment d n) p → ∃ f, pages' p = some f := hmap.filled
    have hc := hgo'.toHolding.fill (d := d) hgood hsi hfit hh
    refine ⟨fun _ => ⟨pages', hgo'.congr hc.machine, fun f hf => ?_,
      hm _ (hc.mapStart.trans hmap.mapStart) (hc.mapEnd.trans hmap.mapEnd),
      fun p f hp => ?_, fun i hi p hp => ?_, fun i hi k hk => ?_⟩, by simp⟩
    · exact ht ht0 hfr f (frame_mem_fillSegment hf)
    · by_cases hin : InSegment base (fmt.segment d n) p
      · exact hnew p hin
      rw [hmap.kept p hin] at hp
      exact hold p f hp
    · rcases loads_succ hi with hi | ⟨rfl, -⟩
      · rw [hmap.kept p (ha i hi p hp)]
        exact h.filled i hi p hp
      · exact hh p hp
    have hfit' := hfi i hi
    have hin := hfit'.inSegment hk
    have hhi := hfit'.high
    unfold Syscalls.userAddrMax at hhi
    have hlt : (fmt.segment d i).vaddr + base + k < 2 ^ 48 := by omega
    rcases loads_succ hi with hi | ⟨rfl, -⟩
    · -- an earlier segment: its page is kept, and lies outside the window of the copy
      have hout := ha i hi _ hin
      obtain ⟨f, hf⟩ := h.filled i hi _ hin
      have hf' := (hmap.kept _ hout).trans hf
      have hl := h.loaded i hi k hk
      rw [h.going.toHolding.loadByte hgood hf] at hl
      rw [(hgo'.toHolding.congr hc.machine).loadByte hgood hf', hc.byte _ f hlt hf', if_neg,
        hby _ f hout hf, hb0]
      · exact hl
      intro hwin
      have hba : (fmt.segment d n).vaddr + base +
          ((fmt.segment d i).vaddr + base + k - ((fmt.segment d n).vaddr + base)) =
          (fmt.segment d i).vaddr + base + k := by omega
      have := hfit.inSegment (k := (fmt.segment d i).vaddr + base + k -
        ((fmt.segment d n).vaddr + base)) (by omega)
      rw [hba] at this
      exact hout this
    obtain ⟨f, hf⟩ := hh _ hin
    rw [(hgo'.toHolding.congr hc.machine).loadByte hgood hf, hc.byte _ f hlt hf,
      if_pos (by omega), Nat.add_sub_cancel_left]
  rw [if_neg hr]
  refine ⟨fun h => absurd h hr, fun hfa => ?_⟩
  obtain ⟨k, hk, pages', hst⟩ := hsto hfa
  have hpa : ∀ p, InRange (segmentStart base (fmt.segment d n)) k p →
      InSegment base (fmt.segment d n) p := by
    intro p hp
    exact ⟨hp.1, hp.2.trans_le (Nat.add_le_add_left hk _)⟩
  refine ⟨pages', hst.holding, hst.tracked ht0 fun p hp => hfr p (hpa p hp),
    hm _ hst.mapping.mapStart hst.mapping.mapEnd, fun p f hp => ?_⟩
  by_cases hin : InRange (segmentStart base (fmt.segment d n)) k p
  · exact hnew p (hpa p hin)
  rw [hst.mapping.kept p hin] at hp
  exact hold p f hp

lemma Progress.note (o len : ℕ) :
    Progress fmt d base m₀ n pages (s.note (.read o len)) := by
  refine ⟨h.going.congr rfl, fun f hf => h.tracked f ?_, ⟨h.spans.low, h.spans.high, h.spans.start,
    h.spans.stop⟩, h.owned, h.filled, h.loaded⟩
  simpa [Loader.note] using hf

lemma Progress.skip
    (hn : (fmt.segment d n).type ≠ ptLoad) : Progress fmt d base m₀ (n + 1) pages s := by
  refine ⟨h.going, h.tracked, ⟨fun i hi => h.spans.low i ((loads_skip hn).mp hi),
    fun i hi => h.spans.high i ((loads_skip hn).mp hi), ?_, ?_⟩, fun p f hp => ?_,
    fun i hi => h.filled i ((loads_skip hn).mp hi), fun i hi => h.loaded i ((loads_skip hn).mp hi)⟩
  · simpa only [loads_skip hn] using h.spans.start
  · simpa only [loads_skip hn] using h.spans.stop
  · simpa only [loads_skip hn] using h.owned p f hp

lemma Progress.exits :
    Exits fmt d base m₀ n pages s :=
  ⟨h.going.toHolding, fun f hf => .inl (h.tracked f hf), h.spans, h.owned⟩

end Segments

/-- The address space a load starts from: a sound tree without 1 GB pages, and without 2 MB pages in
the user half. -/
structure Ready (m : Machine) : Prop where
  tree : ∃ place, Tree m.cr3 place m
  flat : ∀ v, NoGiant (walkOf m m.cr3 v)
  small : ∀ v < 2 ^ 47, ¬ Large (walkOf m m.cr3 v)

lemma Ready.good {m : Machine} (h : Ready m) : Pmm.Good m.pmm := by
  obtain ⟨place, ht⟩ := h.tree
  exact ht.pmm

lemma Progress.header (hm : Ready m₀) (hs : size < 2 ^ 32) (hwf : WellFormed fmt d size base)
    {i : ℕ} (hi : i < (fmt.header d).phnum) (hp : Progress fmt d base m₀ i pages s) :
    ((loadHeader fmt d size base i s).2 = true →
        ∃ pages', Progress fmt d base m₀ (i + 1) pages' (loadHeader fmt d size base i s).1) ∧
      ((loadHeader fmt d size base i s).2 = false → ∃ n ≤ (fmt.header d).phnum,
        ∃ pages', Exits fmt d base m₀ n pages' (loadHeader fmt d size base i s).1) := by
  unfold loadHeader
  dsimp only
  by_cases hout : size < add64 (fmt.header d).phoff ((i + 1) * (fmt.header d).phentsize)
  · rw [if_pos hout]
    exact ⟨by simp, fun _ => ⟨i, hi.le, pages, hp.exits⟩⟩
  rw [if_neg hout]
  by_cases ht : (fmt.segment d i).type = ptLoad
  · rw [if_neg (not_not.mpr ht)]
    have hmo : ∀ j, Loads fmt d (i + 1) j → Loads fmt d (fmt.header d).phnum j :=
      fun j hj => hj.mono hi
    obtain ⟨hgo, hst⟩ := ((hp.note _ 4).note _ fmt.programHeaderRead).segment hm.good hs
      hm.small ht (fun j hj => hwf.fits j (hmo j hj)) fun j hj p hin =>
        hwf.apart j i (hj.mono hi.le) ⟨hi, ht⟩ (Nat.ne_of_lt hj.1) p hin
    refine ⟨hgo, fun hf => ?_⟩
    obtain ⟨pages', he⟩ := hst hf
    exact ⟨i + 1, hi, pages', he⟩
  rw [if_pos ht]
  exact ⟨fun _ => ⟨pages, (hp.note _ 4).skip ht⟩, by simp⟩

end File

section Result

def fileFormat (d : Mem) : Format := if d 4 = 1 then elf32 else elf64

def fileBase (d : Mem) (random : ℕ) : ℕ :=
  if d 4 = 1 then 0 else if (elf64.header d).type = etDyn then generateAslrBase random else 0

/-- The checks of the file header, in the order of the loader. -/
structure Accepted (d : Mem) (size : ℕ) : Prop where
  ident : 16 ≤ size
  magic : d 0 = 0x7F ∧ d 1 = 0x45 ∧ d 2 = 0x4C ∧ d 3 = 0x46
  data : d 5 = 1
  header : (fileFormat d).headerSize ≤ size
  target : d 4 = 1 ∧ (elf32.header d).type = etExec ∧ (elf32.header d).machine = em386 ∨
    d 4 = 2 ∧ ((elf64.header d).type = etExec ∨ (elf64.header d).type = etDyn) ∧
      (elf64.header d).machine = emX8664

/-- The loader when it comes to the program headers. -/
def Loader.opened (s : Loader) (fmt : Format) : Loader :=
  (s.note (.read 0 6)).note (.read 0 fmt.headerSize)

variable {d : Mem} {size random : ℕ} {m : Machine} {byte : ℕ → ℕ → BitVec 8}

def fieldByte (v o i : ℕ) : BitVec 8 := BitVec.ofNat 8 (v / 256 ^ (i - o))

/-- A 64-bit executable with the given program headers behind its file header. -/
def executable (segments : List ProgramHeader) : Mem := fun i =>
  if i < 64 then
    if i = 0 then 0x7F else if i = 1 then 0x45 else if i = 2 then 0x4C else if i = 3 then 0x46
    else if i = 4 then 2 else if i = 5 then 1 else if i = 16 then 2 else if i = 18 then 62
    else if i = 25 then 0x50 else if i = 32 then 64 else if i = 54 then 56
    else if i = 56 then BitVec.ofNat 8 segments.length else 0
  else
    let ph := segments.getD ((i - 64) / 56) ⟨0, 0, 0, 0, 0⟩
    let o := (i - 64) % 56
    if o < 4 then fieldByte ph.type 0 o
    else if o < 8 then 0
    else if o < 16 then fieldByte ph.offset 8 o
    else if o < 24 then fieldByte ph.vaddr 16 o
    else if o < 32 then 0
    else if o < 40 then fieldByte ph.filesz 32 o
    else if o < 48 then fieldByte ph.memsz 40 o
    else 0

end Result

end Elitra.Elf
