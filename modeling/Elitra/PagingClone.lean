import Elitra.PagingTables

namespace Elitra.Paging
open BitVec Bool Function List Radix

lemma kernelLeaf_zero : KernelLeaf 0 := ⟨by decide, by decide, by decide⟩

lemma fillFrame_fillFrame (m : Machine) (f : ℕ) (a b : ℕ → Pte) :
    fillFrame (fillFrame m f a) f b = fillFrame m f b := by
  simp [fillFrame]

variable {e : Pte} {f : ℕ}

lemma fillFrame_writeEntry {m : Machine} {t i : ℕ} {a b : ℕ → Pte} (h : f ≠ t) :
    fillFrame (writeEntry (fillFrame m f a) t i e) f b = writeEntry (fillFrame m f b) t i e := by
  simp only [fillFrame, writeEntry, update_of_ne h.symm]
  rw [update_comm h.symm, update_idem, update_comm h]

lemma split_getLsbD (x : Pte) (i : ℕ) {k : ℕ} (hk : k < 12) :
    ((x &&& pteMask) + BitVec.ofNat 64 (i * 4096)).getLsbD k = false := by
  have hx : (x &&& pteMask).toNat % 4096 = 0 := by
    have h : (x &&& pteMask) &&& 0xFFF#64 = 0#64 := by
      rw [BitVec.and_assoc, show pteMask &&& 0xFFF#64 = 0#64 by decide, BitVec.and_zero]
    have h' := congrArg BitVec.toNat h
    rw [toNat_and, show (0xFFF#64).toNat = 2 ^ 12 - 1 from rfl,
      Nat.and_two_pow_sub_one_eq_mod] at h'
    simpa using h'
  have hsum : ((x &&& pteMask) + BitVec.ofNat 64 (i * 4096)).toNat % 2 ^ 12 = 0 := by
    rw [toNat_add, toNat_ofNat]
    omega
  have hbit := Nat.testBit_mod_two_pow
    ((x &&& pteMask) + BitVec.ofNat 64 (i * 4096)).toNat 12 k
  rw [hsum, Nat.zero_testBit, decide_eq_true hk, Bool.true_and] at hbit
  rw [getLsbD, ← hbit]

lemma kernelLeaf_split (h : KernelLeaf e) (i : ℕ) :
    KernelLeaf (((e &&& pteMask) + BitVec.ofNat 64 (i * 0x1000)) |||
      ((e &&& flagsMask) &&& ~~~ps2mb) ||| 1#64) := by
  have hone : (1#64).getLsbD 2 = false ∧ (1#64).getLsbD 9 = false ∧ (1#64).getLsbD 10 = false := by
    decide
  refine ⟨?_, ?_, ?_⟩
  · rw [getLsbD_or, getLsbD_or, split_getLsbD e i (by decide), getLsbD_and,
      getLsbD_and, h.user, hone.1]
    rfl
  · rw [getLsbD_or, getLsbD_or, split_getLsbD e i (by decide), getLsbD_and,
      getLsbD_and, h.cow, hone.2.1]
    rfl
  rw [getLsbD_or, getLsbD_or, split_getLsbD e i (by decide), getLsbD_and,
    getLsbD_and, h.swap, hone.2.2]
  rfl

lemma cloneLink (flags : Pte) (hf : f < 2 ^ 40) (hm : flags &&& pteMask = 0#64) :
    pteNext (frameAddr f ||| flags ||| 1#64) = some f ∧
      (flags.getLsbD 7 = false → huge (frameAddr f ||| flags ||| 1#64) = false) := by
  rw [BitVec.or_assoc]
  refine ⟨pteNext_linkEntry hf ?_ ?_, fun h7 => huge_linkEntry hf ?_⟩
  · rw [BitVec.getLsbD_or]
    exact Bool.or_true _
  · have hd : (flags ||| 1#64) &&& pteMask = (flags &&& pteMask) ||| (1#64 &&& pteMask) := by
      ext i hi
      simp only [BitVec.getElem_and, BitVec.getElem_or, Bool.and_or_distrib_right]
    rw [hd, hm]
    decide
  rw [BitVec.getLsbD_or, h7]
  rfl

lemma flagsMask_and_pteMask (e : Pte) : (e &&& flagsMask) &&& pteMask = 0#64 := by
  rw [BitVec.and_assoc, show flagsMask &&& pteMask = 0#64 by decide, BitVec.and_zero]

/-- The state of a clone in progress: `m₀` is the machine before the call, `np` the new directory,
whose leaves so far are kernel memory. -/
structure Cloning (spaces kern : Set ℕ) (np : ℕ) (place₀ place : Place) (m₀ m : Machine) :
    Prop where
  tables : Tables (insert np spaces) kern place m
  grown : Grown spaces place₀ place m₀ m
  leaves : ∀ v, v < userPages → KernelLeaf (leaf m np v)

variable {words : ℕ → Pte} {i₃ : ℕ} {body : ℕ → Machine → Machine}

section Clone

variable {spaces kern : Set ℕ} {np : ℕ} {place₀ place : Place} {m₀ m : Machine}

/-- The frames that table building under `t` leaves alone. -/
def Keeps (t : ℕ) (m m' : Machine) : Prop :=
  freeSet m' ⊆ freeSet m ∧ ∀ g, g ∉ freeSet m → g ≠ t → m'.mem g = m.mem g

lemma Keeps.refl (t : ℕ) (m : Machine) : Keeps t m m := ⟨fun _ h => h, fun _ _ _ => rfl⟩

variable {t : ℕ}

lemma Keeps.trans {m m' m'' : Machine} (h : Keeps t m m') (h' : Keeps t m' m'') :
    Keeps t m m'' :=
  ⟨h'.1.trans h.1, fun g hg ht => (h'.2 g (fun hf => hg (h.1 hf)) ht).trans (h.2 g hg ht)⟩

/-- One round of a loop that fills entry `i` of the new table `t` at `path`. -/
structure Round (spaces kern : Set ℕ) (np : ℕ) (place₀ : Place) (m₀ : Machine) (path : List ℕ)
    (t i : ℕ) (m m' : Machine) : Prop where
  cloning : ∃ place, Cloning spaces kern np place₀ place m₀ m'
  table : descend pteNext m'.mem np path = some t
  entries : ∀ j, j ≠ i → m'.mem t j = m.mem t j
  keeps : Keeps t m m'

variable {path : List ℕ} {p : Pmm.State}

lemma Cloning.attach (h : Cloning spaces kern np place₀ place m₀ m) (hnp : np ∉ spaces)
    {t i : ℕ} (hf : f ∈ freeSet m)
    (hgo : Pmm.Good p) (hfr : Pmm.freeFrames p = (freeSet m).erase f)
    (hp : TablePath (path ++ [i])) (ht : descend pteNext m.mem np path = some t)
    (habs : present (m.mem t i) = false) (he : pteNext e = some f) (hfl : path.length = 2 → huge e = false)
    (hem : path.length < 2 → ∀ j, present (words j) = false)
    (hl : path.length = 2 → ∀ j, j < 512 → KernelLeaf (words j)) :
    let m' := attachTable m p f words t i e
    Round spaces kern np place₀ m₀ path t i m m' ∧
      descend pteNext m'.mem np (path ++ [i]) = some f ∧ m'.mem f = words := by
  intro m'
  have hin : np ∈ insert np spaces := Set.mem_insert np spaces
  obtain ⟨h', hl', hd, hmem, hen, hw⟩ :=
    h.tables.attach hf hgo hfr hin hp ht habs he hfl hem
  have hgr := h.tables.grown_attach hf hgo hfr hin hp ht habs he hfl hem
    (Set.subset_insert np spaces) (fun hmem => absurd hmem hnp)
  refine ⟨⟨⟨_, h', h.grown.trans hgr, ?_⟩, ?_, hen, hgr.free, ?_⟩, ?_, hw⟩
  · intro v hv
    rw [hl' np v hin hv]
    split
    · rename_i hh
      refine hl ?_ _ (Nat.mod_lt _ (by decide))
      have := congrArg length hh.2
      simp only [pathOf, length_append, length_cons, length_nil] at this
      omega
    · exact h.leaves v hv
  · rw [hd np path hin (tablePath_closed _ _ hp), if_neg, ht]
    rintro ⟨-, hpa⟩
    have := congrArg length hpa
    simp at this
  · intro g hg hgt
    refine hmem g ?_ hgt
    rintro rfl
    exact hg hf
  · rw [hd np _ hin hp, if_pos ⟨rfl, rfl⟩]

variable {m' : Machine}

lemma Grown.mono {spaces' : Set ℕ} {place' : Place} (hsub : spaces ⊆ spaces')
    (h : Grown spaces' place place' m m') : Grown spaces place place' m m' :=
  ⟨h.toFrames, fun r hr => h.leaf r (hsub hr), fun r hr => h.descend r (hsub hr), h.cow⟩

section

variable (h : Cloning spaces kern np place₀ place m₀ m)
include h

lemma Cloning.same (i : ℕ) (ht : descend pteNext m.mem np path = some t) :
    Round spaces kern np place₀ m₀ path t i m m :=
  ⟨⟨place, h⟩, ht, fun _ _ => rfl, Keeps.refl t m⟩

lemma Cloning.take {t : ℕ} (i : ℕ) (hf : f ∈ freeSet m) (hgo : Pmm.Good p)
    (hfr : Pmm.freeFrames p = (freeSet m).erase f) (hp : TablePath path)
    (ht : descend pteNext m.mem np path = some t) (words : ℕ → Pte) :
    Round spaces kern np place₀ m₀ path t i m (fillFrame { m with pmm := p } f words) := by
  obtain ⟨h', hg⟩ := h.tables.take hf hgo hfr words
  have hin : np ∈ insert np spaces := Set.mem_insert np spaces
  have hmem : ∀ g, g ∉ freeSet m → (fillFrame { m with pmm := p } f words).mem g = m.mem g := by
    intro g hgf
    refine update_of_ne ?_ _ _
    rintro rfl
    exact hgf hf
  refine ⟨⟨place, h', h.grown.trans (hg.mono (Set.subset_insert np spaces)), ?_⟩,
    hg.descend np hin path t hp ht, ?_, hg.free, fun g hgf _ => hmem g hgf⟩
  · intro v hv
    rw [hg.leaf np hin v hv]
    exact h.leaves v hv
  intro j _
  rw [hmem t (h.tables.used t _ (h.tables.place_table hin hp ht))]

lemma Cloning.kernel_ne {t g : ℕ}
    (hp : TablePath path) (ht : descend pteNext m.mem np path = some t)
    (hf : f ∈ freeSet m) (hg : g ∈ kern) : g ≠ f ∧ g ≠ t := by
  constructor
  · rintro rfl
    exact (h.tables.kernel g hg).1 hf
  rintro rfl
  have hpl := h.tables.place_table (Set.mem_insert np spaces) hp ht
  rw [(h.tables.kernel g hg).2] at hpl
  simp at hpl

end

lemma tablePath_two (h : i₃ < 512) : TablePath [0, i₃] :=
  ⟨by simp, by simp [h], by simp⟩

lemma tablePath_three {i2 : ℕ} (h : i₃ < 512) (h' : i2 < 512) : TablePath [0, i₃, i2] :=
  ⟨by simp, by simp [h, h'], by simp⟩

section Fill

variable (h : Cloning spaces kern np place₀ place m₀ m)
include h

lemma cloneEntry_spec (hnp : np ∉ spaces)
    {srcPd newPd i2 : ℕ} (hsrc : KernelPd m kern srcPd) (hi3 : i₃ < 512) (hi2 : i2 < 512)
    (hd : descend pteNext m.mem np [0, i₃] = some newPd) (habs : present (m.mem newPd i2) = false) :
    Round spaces kern np place₀ m₀ [0, i₃] newPd i2 m (cloneEntry srcPd newPd i2 m) := by
  unfold cloneEntry
  dsimp only
  split
  · exact h.same i2 hd
  rename_i hp
  have hp' : present (m.mem srcPd i2) = true := by simpa using hp
  obtain ⟨hk, he⟩ := hsrc
  obtain ⟨hhu, hsm⟩ := he i2 hi2 hp'
  rcases tableAlloc_cases h.tables.pmm with ⟨heq, -⟩ | ⟨p, f, hf, hfr, hg, heq⟩
  · rw [heq]
    split
    · exact h.same i2 hd
    · exact h.same i2 hd
  rw [heq]
  by_cases hf0 : f = 0
  · rw [if_pos hf0]
    split
    · exact h.take i2 hf hg hfr (tablePath_two hi3) hd _
    · exact h.take i2 hf hg hfr (tablePath_two hi3) hd _
  rw [if_neg hf0]
  have hlt := h.tables.pmm.mem_lt hf
  split
  · rename_i hh
    obtain ⟨hn, hfl⟩ := cloneLink (m.mem srcPd i2 &&& flagsMask &&& ~~~ps2mb) hlt (by
      rw [BitVec.and_assoc, BitVec.and_comm _ pteMask, ← BitVec.and_assoc, flagsMask_and_pteMask]
      exact BitVec.zero_and)
    dsimp only
    rw [fillFrame_fillFrame]
    refine (h.attach hnp hf hg hfr (tablePath_three hi3 hi2) hd habs hn (fun _ => hfl ?_)
      (fun hlen => absurd hlen (by simp)) fun _ j _ => ?_).1
    · rw [BitVec.getLsbD_and, show (~~~ps2mb).getLsbD 7 = false by decide, Bool.and_false]
    · exact kernelLeaf_split (hhu hh) j
  rename_i hh
  rw [Bool.not_eq_true] at hh
  obtain ⟨hptk, hpt⟩ := hsm hh
  obtain ⟨hn, hfl⟩ := cloneLink (m.mem srcPd i2 &&& flagsMask) hlt
    (flagsMask_and_pteMask _)
  have hsr := h.kernel_ne (tablePath_two hi3) hd hf hk
  have hpn := h.kernel_ne (tablePath_two hi3) hd hf hptk
  have hfne : f ≠ newPd := by
    rintro rfl
    exact h.tables.used f _ (h.tables.place_table (Set.mem_insert np spaces) (tablePath_two hi3) hd) hf
  have hs : (fillFrame { m with pmm := p } f fun _ => 0).mem srcPd = m.mem srcPd :=
    update_of_ne hsr.1 _ _
  have hpm : ∀ e, (writeEntry (fillFrame { m with pmm := p } f fun _ => 0) newPd i2 e).mem
      (child m srcPd i2) = m.mem (child m srcPd i2) := by
    intro e
    simp only [writeEntry, fillFrame, update_of_ne hpn.2, update_of_ne hpn.1]
  dsimp only
  rw [hs, hpm, fillFrame_writeEntry hfne]
  refine (h.attach hnp hf hg hfr (tablePath_three hi3 hi2) hd habs hn (fun _ => hfl ?_)
    (fun hlen => absurd hlen (by simp)) fun _ j hj => hpt j hj).1
  rw [BitVec.getLsbD_and, ← huge_eq, hh, Bool.false_and]

lemma Cloning.keeps_kernel (hp : TablePath path)
    (ht : descend pteNext m.mem np path = some t) (hk : Keeps t m m') :
    ∀ g ∈ kern, m'.mem g = m.mem g := by
  intro g hg
  refine hk.2 g (h.tables.kernel g hg).1 ?_
  rintro rfl
  have hpl := h.tables.place_table (Set.mem_insert np spaces) hp ht
  rw [(h.tables.kernel g hg).2] at hpl
  simp at hpl

lemma Cloning.fillTable (hp : TablePath path) (ht : descend pteNext m.mem np path = some t)
    (he : ∀ j, present (m.mem t j) = false)
    (hb : ∀ i m' place', i < 512 → Cloning spaces kern np place₀ place' m₀ m' →
      (∀ g ∈ kern, m'.mem g = m.mem g) → descend pteNext m'.mem np path = some t →
      present (m'.mem t i) = false → Round spaces kern np place₀ m₀ path t i m' (body i m')) :
    let m' := Loop.each body (range 512) m
    (∃ place', Cloning spaces kern np place₀ place' m₀ m') ∧ Keeps t m m' := by
  let P : ℕ → Machine → Prop := fun k m' =>
    (∃ place', Cloning spaces kern np place₀ place' m₀ m') ∧
      descend pteNext m'.mem np path = some t ∧ (∀ j, k ≤ j → present (m'.mem t j) = false) ∧
      Keeps t m m'
  have hl : P 512 (Loop.each body (range 512) m) := by
    refine Loop.each_range P ⟨⟨place, h⟩, ht, fun j _ => he j, Keeps.refl t m⟩ ?_
    rintro i m' hi ⟨⟨place', hc⟩, hd, habs, hk⟩
    obtain ⟨hc', hd', hent, hk'⟩ := hb i m' place' hi hc (h.keeps_kernel hp ht hk) hd
      (habs i (Nat.le_refl i))
    refine ⟨hc', hd', fun j hj => ?_, hk.trans hk'⟩
    rw [hent j (by omega)]
    exact habs j (by omega)
  exact ⟨hl.1, hl.2.2.2⟩

lemma Cloning.attach_fill (hnp : np ∉ spaces) {t i : ℕ}
    (hf : f ∈ freeSet m) (hgo : Pmm.Good p) (hfr : Pmm.freeFrames p = (freeSet m).erase f)
    (hp : TablePath (path ++ [i])) (hlen : path.length < 2)
    (ht : descend pteNext m.mem np path = some t) (habs : present (m.mem t i) = false)
    (he : pteNext e = some f) (hfl : path.length = 2 → huge e = false)
    (hb : ∀ j m' place', j < 512 → Cloning spaces kern np place₀ place' m₀ m' →
      (∀ g ∈ kern, m'.mem g = m.mem g) → descend pteNext m'.mem np (path ++ [i]) = some f →
      present (m'.mem f j) = false →
      Round spaces kern np place₀ m₀ (path ++ [i]) f j m' (body j m')) :
    Round spaces kern np place₀ m₀ path t i m
      (Loop.each body (List.range 512) (attachTable m p f (fun _ => 0) t i e)) := by
  obtain ⟨hr, hd, hw⟩ := h.attach hnp hf hgo hfr hp ht habs he hfl
    (fun _ _ => present_zero) (fun hl => absurd hl (by omega))
  obtain ⟨⟨place1, hc⟩, ht1, hent, hk⟩ := hr
  obtain ⟨hc', hk'⟩ := hc.fillTable hp hd (fun j => by rw [hw]; exact present_zero)
    (fun j m' place' hj hcl hke => hb j m' place' hj hcl fun g hg =>
      (hke g hg).trans (h.keeps_kernel (tablePath_closed _ _ hp) ht hk g hg))
  have hpl := hc.tables.place_table (Set.mem_insert np spaces) (tablePath_closed _ _ hp) ht1
  have htf : t ≠ f := by
    rintro rfl
    exact h.tables.used t _ (h.tables.place_table (Set.mem_insert np spaces)
      (tablePath_closed _ _ hp) ht) hf
  have hpa : descend pteNext (Loop.each body (range 512)
      (attachTable m p f (fun _ => 0) t i e)).mem np path = some t := by
    rw [← ht1]
    refine descend_congr fun xs j ys u hs hu => ?_
    have hxs : TablePath xs := tablePath_closed xs (j :: ys) (hs ▸ tablePath_closed _ _ hp)
    have hup := hc.tables.place_table (Set.mem_insert np spaces) hxs hu
    -- The tables on the way to `t` lie above the new one.
    have huf : u ≠ f := by
      rintro rfl
      rw [hc.tables.place_table (Set.mem_insert np spaces) hp hd, Option.some.injEq,
        Prod.mk.injEq] at hup
      have := congrArg length hup.2
      rw [hs] at this
      simp only [length_append, length_cons, length_nil] at this
      omega
    rw [hk'.2 u (hc.tables.used u _ hup) huf]
  refine ⟨hc', hpa, fun j hj => ?_, hk'.1.trans hk.1, fun g hg hgt => ?_⟩
  · rw [hk'.2 t (hc.tables.used t _ hpl) htf]
    exact hent j hj
  have hgf : g ≠ f := by
    rintro rfl
    exact hg hf
  rw [hk'.2 g (fun hg' => hg (hk.1 hg')) hgf, hk.2 g hg hgt]

lemma cloneDirectory_spec (hnp : np ∉ spaces)
    {srcPdp newPdp : ℕ} (hsrc : KernelPdp m kern srcPdp) (hi3 : i₃ < 512)
    (hd : descend pteNext m.mem np [0] = some newPdp) (habs : present (m.mem newPdp i₃) = false) :
    Round spaces kern np place₀ m₀ [0] newPdp i₃ m (cloneDirectory srcPdp newPdp i₃ m) := by
  have hp1 : TablePath [0] := tablePath_closed [0] [i₃] (tablePath_two hi3)
  unfold cloneDirectory
  dsimp only
  split
  · exact h.same i₃ hd
  split
  · exact h.same i₃ hd
  rename_i hpr hh
  have hpr' : present (m.mem srcPdp i₃) = true := by simpa using hpr
  rw [not_eq_true] at hh
  have hpd := hsrc.2 i₃ hi3 hpr' hh
  rcases tableAlloc_cases h.tables.pmm with ⟨heq, -⟩ | ⟨p, f, hf, hfr, hg, heq⟩
  · rw [heq]
    exact h.same i₃ hd
  rw [heq]
  by_cases hf0 : f = 0
  · rw [if_pos hf0]
    exact h.take i₃ hf hg hfr hp1 hd _
  rw [if_neg hf0]
  have hs : (fillFrame { m with pmm := p } f fun _ => 0).mem srcPdp = m.mem srcPdp :=
    update_of_ne (h.kernel_ne hp1 hd hf hsrc.1).1 _ _
  obtain ⟨hn, -⟩ := cloneLink (m.mem srcPdp i₃ &&& flagsMask) (h.tables.pmm.mem_lt hf)
    (flagsMask_and_pteMask _)
  dsimp only
  rw [hs]
  refine h.attach_fill hnp hf hg hfr (tablePath_two hi3) (by simp) hd habs hn
    (fun hlen => absurd hlen (by simp)) ?_
  · intro j m' place' hj hc hk hd' habs'
    exact cloneEntry_spec hc hnp (hpd.congr hk) hi3 hj hd' habs'

lemma cloneLower_spec (hnp : np ∉ spaces) (habs : present (m.mem np 0) = false) :
    ∃ place', Cloning spaces kern np place₀ place' m₀ (cloneLower m np) := by
  have hp0 : TablePath [] := ⟨by simp, by simp, by simp⟩
  have hp1 : TablePath ([] ++ [0]) := ⟨by simp, by simp, by simp⟩
  unfold cloneLower
  split
  · exact ⟨place, h⟩
  rename_i hpr
  have hpr' : present (m.mem m.pml4 0) = true := by simpa using hpr
  have hpdp := h.tables.dir.2 hpr'
  rcases tableAlloc_cases h.tables.pmm with ⟨heq, -⟩ | ⟨p, f, hf, hfr, hg, heq⟩
  · rw [heq]
    exact ⟨place, h⟩
  rw [heq]
  by_cases hf0 : f = 0
  · rw [if_pos hf0]
    exact (h.take 0 hf hg hfr hp0 rfl _).cloning
  rw [if_neg hf0]
  have hs : (fillFrame { m with pmm := p } f fun _ => 0).mem m.pml4 = m.mem m.pml4 :=
    update_of_ne (h.kernel_ne hp0 rfl hf h.tables.dir.1).1 _ _
  obtain ⟨hn, -⟩ := cloneLink (m.mem m.pml4 0 &&& flagsMask) (h.tables.pmm.mem_lt hf)
    (flagsMask_and_pteMask _)
  dsimp only
  change ∃ place', Cloning spaces kern np place₀ place' m₀ (Loop.each _ _ (writeEntry _ np 0
    (_ ||| (fillFrame { m with pmm := p } f fun _ => 0).mem m.pml4 0 &&& _ ||| _)))
  rw [hs]
  refine (h.attach_fill hnp hf hg hfr hp1 (by simp) rfl habs hn
    (fun hlen => absurd hlen (by simp)) ?_).cloning
  · intro j m' place' hj hc hk hd' habs'
    exact cloneDirectory_spec hc hnp (hpdp.congr hk) hj hd' habs'

end Fill

lemma Tables.newRoot (h : Tables spaces kern place m)
    (hf : f ∈ freeSet m) (hgo : Pmm.Good p) (hfr : Pmm.freeFrames p = (freeSet m).erase f)
    (he : ∀ i, i < 256 → words i = 0) :
    Cloning spaces kern f place (update place f (some (f, []))) m
      (fillFrame { m with pmm := p } f words) := by
  obtain ⟨hpl, hk⟩ := h.fresh hf
  obtain ⟨h1, hg⟩ := h.take hf hgo hfr words
  set m1 := fillFrame { m with pmm := p } f words
  have hw : m1.mem f = words := update_self _ _ _
  have hlow : ∀ i, TablePath [i] → pteNext (m1.mem f i) = none := by
    intro i hi
    rw [hw, he i (hi.lower i rfl)]
    exact pteNext_absent present_zero
  have hne : ∀ g x, place g = some x → g ≠ f := by
    rintro g x hgx rfl
    simp [hpl] at hgx
  have h' : Tables (insert f spaces) kern (update place f (some (f, []))) m1 := by
    refine ⟨h1.pmm, h1.forest.insert_root hpl hlow, ?_, ?_, ?_, h1.dir⟩
    · intro g x hg
      by_cases hgf : g = f
      · subst hgf
        change g ∉ Pmm.freeFrames p
        rw [hfr]
        exact Finset.notMem_erase g _
      rw [update_of_ne hgf] at hg
      exact h1.used g x hg
    · intro t r path i ht hlen hp hpr
      by_cases htf : t = f
      · rw [htf, update_self, Option.some.injEq, Prod.mk.injEq] at ht
        rw [← ht.2] at hlen
        simp at hlen
      rw [update_of_ne htf] at ht
      exact h1.flat t r path i ht hlen hp hpr
    intro g hgk
    have hgf : g ≠ f := by
      rintro rfl
      exact hk hgk
    refine ⟨(h1.kernel g hgk).1, ?_⟩
    rw [update_of_ne hgf]
    exact (h1.kernel g hgk).2
  refine ⟨h', ⟨⟨hg.keep, hg.free, ?_, ?_, rfl, rfl⟩, hg.leaf, hg.descend, rfl⟩, ?_⟩
  · intro g x hgx
    rw [update_of_ne (hne g x hgx)]
    exact hgx
  · intro g x hgx
    by_cases hgf : g = f
    · exact .inr (hgf ▸ hf)
    rw [update_of_ne hgf] at hgx
    exact .inl hgx
  intro v hv
  rw [h'.leaf_eq (Set.mem_insert f spaces) hv, pathOf, descend,
    hlow _ (tablePath_closed [v / 2 ^ 27 % 512] _ (tablePath_pathOf hv))]
  exact kernelLeaf_zero

lemma cloneKernelDir_some (h : Tables spaces kern place m)
    (heq : krustPagingCloneKernelDir m = (m', some np)) :
    np ∈ freeSet m ∧ np ∉ spaces ∧ ∃ place', Cloning spaces kern np place place' m m' := by
  unfold krustPagingCloneKernelDir at heq
  rcases tableAlloc_cases h.pmm with ⟨hn, -⟩ | ⟨p, f, hf, hfr, hg, hs⟩
  · rw [hn] at heq
    simp at heq
  rw [hs] at heq
  by_cases hf0 : f = 0
  · rw [if_pos hf0] at heq
    simp at heq
  rw [if_neg hf0] at heq
  dsimp only at heq
  rw [fillFrame_fillFrame, Prod.mk.injEq, Option.some.injEq] at heq
  obtain ⟨rfl, rfl⟩ := heq
  have hnp : f ∉ spaces := by
    intro hmem
    exact h.used f _ (h.forest.root f hmem) hf
  refine ⟨hf, hnp, cloneLower_spec (h.newRoot hf hg hfr ?_) hnp ?_⟩
  · intro i hi
    rw [if_neg (by omega)]
    simp [fillFrame]
  simp only [fillFrame, update_self]
  rw [if_neg (by omega)]
  exact present_zero

lemma cloneKernelDir_none (h : Tables spaces kern place m)
    (heq : krustPagingCloneKernelDir m = (m', none)) :
    Tables spaces kern place m' ∧ Grown spaces place place m m' := by
  unfold krustPagingCloneKernelDir at heq
  rcases tableAlloc_cases h.pmm with ⟨hn, -⟩ | ⟨p, f, hf, hfr, hg, hs⟩
  · rw [hn, Prod.mk.injEq] at heq
    obtain ⟨rfl, -⟩ := heq
    exact ⟨h, Grown.refl place m⟩
  rw [hs] at heq
  by_cases hf0 : f = 0
  · rw [if_pos hf0, Prod.mk.injEq] at heq
    obtain ⟨rfl, -⟩ := heq
    exact h.take hf hg hfr _
  rw [if_neg hf0] at heq
  simp at heq

end Clone

end Elitra.Paging
