import Elitra.Fat32Copies

namespace Elitra.Fat32
open List StateRun

/-- The sizes with which a FAT entry, and the two first entries of a directory, lie in one sector. -/
structure Instance.Sectors (g : Instance) : Prop where
  four : 4 ∣ g.bytesPerSector
  entries : 64 ≤ g.bytesPerSector
  small : g.bytesPerSector < 2 ^ 16

variable {n c : ℕ}

section Stale

variable {g : Instance} {v v₀ : Vol} {i off sector : ℕ} {bytes : List Byte}

lemma byte_write_zeros (hlow : off ≤ i) (hh : i < off + n) :
    (v.write off (List.replicate n 0)).byte i = 0 := by
  unfold Vol.write
  dsimp only
  rw [length_replicate, if_pos ⟨hlow, hh⟩, getD_eq_getElem?_getD, getElem?_replicate]
  split <;> rfl

lemma stale_write_same (h : (v.write off bytes).byte i = v.byte i) :
    (v.write off bytes).stale i = v.stale i := by
  unfold Vol.write at h ⊢
  dsimp only at h ⊢
  rw [h]
  simp

lemma stale_write_outside (h : i < off ∨ off + bytes.length ≤ i) :
    (v.write off bytes).stale i = v.stale i := stale_write_same (byte_write_outside h)

lemma stale_markDirty_of_not (h : v.stale i = false) : (v.markDirty g sector).stale i = false := by
  unfold Vol.markDirty Vol.mark
  dsimp only
  rw [h]
  rfl

lemma stale_markDirty_of_mem (hi : i < 2 ^ 32) (hlow : sector * g.bytesPerSector ≤ i)
    (hh : i < sector * g.bytesPerSector + g.bytesPerSector) :
    (v.markDirty g sector).stale i = false := by
  unfold Vol.markDirty Vol.mark
  dsimp only
  rw [Nat.mod_eq_of_lt (by omega)]
  simp [hlow, hh]

lemma stale_write_markDirty (hi : i < 2 ^ 32) (hlow : sector * g.bytesPerSector ≤ off)
    (hh : off + bytes.length ≤ sector * g.bytesPerSector + g.bytesPerSector)
    (h : v.stale i = false) : ((v.write off bytes).markDirty g sector).stale i = false := by
  by_cases hin : off ≤ i ∧ i < off + bytes.length
  · exact stale_markDirty_of_mem hi (by omega) (by omega)
  apply stale_markDirty_of_not
  rw [stale_write_outside (by omega)]
  exact h

lemma fatOffset_in_sector (hg : g.Sectors) (c : ℕ) :
    fatSector g c * g.bytesPerSector ≤ fatOffset g c ∧
      fatOffset g c + 4 ≤ fatSector g c * g.bytesPerSector + g.bytesPerSector := by
  have hbig := hg.entries
  have hlt : c * 4 % 2 ^ 32 % g.bytesPerSector < g.bytesPerSector := Nat.mod_lt _ (by omega)
  -- Both the offset and the size of a sector are multiples of 4.
  have hdvd : 4 ∣ c * 4 % 2 ^ 32 % g.bytesPerSector :=
    (Nat.dvd_mod_iff hg.four).mpr ((Nat.dvd_mod_iff (by decide)).mpr (Nat.dvd_mul_left 4 c))
  have hf := hg.four
  unfold fatOffset
  omega

lemma slot_in_sector {s : Slot} (hs : s ∈ slots g c) : s.sector * g.bytesPerSector ≤ s.off ∧
      s.off + 32 ≤ s.sector * g.bytesPerSector + g.bytesPerSector := by
  simp only [slots, mem_flatMap, mem_map, mem_range] at hs
  obtain ⟨so, -, eo, heo, rfl⟩ := hs
  dsimp only
  have hle : (eo + 1) * dirEntrySize ≤ g.bytesPerSector / dirEntrySize * dirEntrySize :=
    Nat.mul_le_mul_right _ heo
  have hdiv := Nat.div_mul_le_self g.bytesPerSector dirEntrySize
  unfold dirEntrySize at hle hdiv ⊢
  omega

lemma stale_markSectors (hi : i < 2 ^ 32) (hbps : 0 < g.bytesPerSector) (base n : ℕ)
    (h : v.stale i = false ∨
      (base * g.bytesPerSector ≤ i ∧ i < base * g.bytesPerSector + n * g.bytesPerSector)) :
    (v.markSectors g base n).stale i = false := by
  induction n with
  | zero =>
    rcases h with h | h
    · exact h
    rw [Nat.zero_mul] at h
    omega
  | succ n ih =>
    rw [Vol.markSectors]
    -- Either the byte is in an earlier sector or in the last one.
    by_cases hin : v.stale i = false ∨ (base * g.bytesPerSector ≤ i ∧
        i < base * g.bytesPerSector + n * g.bytesPerSector)
    · exact stale_markDirty_of_not (ih hin)
    have hr := h.resolve_left fun hs => hin (.inl hs)
    have hla : ¬ (base * g.bytesPerSector ≤ i ∧
        i < base * g.bytesPerSector + n * g.bytesPerSector) := fun hc => hin (.inr hc)
    have hl : (base + n) * g.bytesPerSector ≤ i ∧
        i < (base + n) * g.bytesPerSector + g.bytesPerSector := by
      rw [Nat.add_mul]
      rw [Nat.add_mul n 1, Nat.one_mul] at hr
      omega
    have hsm : base + n < 2 ^ 32 := by
      have hle : (base + n) * 1 ≤ (base + n) * g.bytesPerSector := Nat.mul_le_mul_left _ hbps
      omega
    rw [Nat.mod_eq_of_lt hsm]
    exact stale_markDirty_of_mem hi hl.1 hl.2

lemma cleared_rest {entries : List Byte} (h : (v.clearCluster g c entries).uncleared = []) :
    v.uncleared = [] ∧ ∀ j, g.bytesPerSector ≤ j → j < g.bytesPerCluster →
      v.byte (clusterOffset g c + j) = 0 := by
  have hif : (if ((range g.bytesPerCluster).drop g.bytesPerSector).all fun i =>
      v.byte (clusterOffset g c + i) = 0 then v.uncleared else c :: v.uncleared) = [] := h
  split at hif
  · rename_i hall
    refine ⟨hif, ?_⟩
    intro j hlow hh
    rw [all_eq_true] at hall
    have hmem : j ∈ (range g.bytesPerCluster).drop g.bytesPerSector := by
      rw [range_eq_range', drop_range', mem_range'_1]
      omega
    simpa using hall j hmem
  · cases hif

/-- The writes leave no changed byte unreported, unless a cluster is cleared that had data behind its
first sector. -/
lemma Instance.Sectors.stable_stale (hg : g.Sectors) :
    Stable g fun v => v.uncleared = [] → ∀ i < 2 ^ 32, v.stale i = false where
  setFat v c value _ hv := by
    intro hc i hi
    have hin := fatOffset_in_sector hg c
    exact stale_write_markDirty hi hin.1 hin.2 (hv hc i hi)
  writeSlot v c s bytes hs hlen hv := by
    intro hc i hi
    have hin := slot_in_sector hs
    exact stale_write_markDirty hi hin.1 (by omega) (hv hc i hi)
  clearCluster v c entries hlen hv := by
    intro hc i hi
    obtain ⟨hold, hr⟩ := cleared_rest hc
    have hbig := hg.entries
    by_cases hin : clusterOffset g c ≤ i ∧ i < clusterOffset g c + g.bytesPerSector
    · exact stale_markDirty_of_mem hi hin.1 hin.2
    apply stale_markDirty_of_not
    rw [stale_write_outside (by omega), stale_write_same]
    · exact hv hold i hi
    by_cases hz : clusterOffset g c ≤ i ∧ i < clusterOffset g c + g.bytesPerCluster
    · have hb := hr (i - clusterOffset g c) (by omega) (by omega)
      rw [Nat.add_sub_cancel' hz.1] at hb
      exact (byte_write_zeros hz.1 hz.2).trans hb.symm
    apply byte_write_outside
    rw [length_replicate]
    omega
  writeCluster v c chunk hlen hv := by
    intro hc i hi
    have hbig := hg.entries
    unfold Vol.writeCluster at hc ⊢
    rw [(markSectors_fields _ _ _).2.2] at hc
    apply stale_markSectors hi (by omega)
    by_cases hin : clusterOffset g c ≤ i ∧ i < clusterOffset g c + g.bytesPerCluster
    · right
      unfold clusterOffset Instance.bytesPerCluster at hin
      rw [Nat.mul_comm g.sectorsPerCluster]
      exact hin
    left
    rw [stale_write_outside (by omega)]
    exact hv hc i hi

/-- Every byte that differs from `f` is unreported or in the range of a report. -/
def Reported (g : Instance) (f : ℕ → Byte) (v : Vol) : Prop :=
  ∀ i, v.byte i = f i ∨ v.stale i = true ∨
    ∃ off, (off, g.bytesPerSector) ∈ v.marks ∧ off ≤ i ∧ i < off + g.bytesPerSector

variable {f : ℕ → Byte}

lemma Reported.write (h : Reported g f v) (off : ℕ) (bytes : List Byte) :
    Reported g f (v.write off bytes) := by
  intro i
  by_cases hs : (v.write off bytes).byte i = v.byte i
  · rw [hs, stale_write_same hs]
    exact h i
  refine .inr (.inl ?_)
  unfold Vol.write at hs ⊢
  dsimp only at hs ⊢
  rw [bne_iff_ne.mpr hs, Bool.or_true]

lemma Reported.markDirty (h : Reported g f v) (sector : ℕ) :
    Reported g f (v.markDirty g sector) := by
  intro i
  rcases h i with hsa | hs | ⟨off, hmem, hr⟩
  · exact .inl hsa
  · -- The report either covers the byte or leaves it unreported.
    by_cases hin : sector * g.bytesPerSector % 2 ^ 32 ≤ i ∧
        i < sector * g.bytesPerSector % 2 ^ 32 + g.bytesPerSector
    · exact .inr (.inr ⟨_, mem_cons_self, hin⟩)
    refine .inr (.inl ?_)
    unfold Vol.markDirty Vol.mark
    dsimp only
    rw [hs, ← Bool.decide_and, decide_eq_false hin]
    rfl
  · exact .inr (.inr ⟨off, mem_cons_of_mem _ hmem, hr⟩)

lemma Reported.markSectors (h : Reported g f v) (base n : ℕ) :
    Reported g f (v.markSectors g base n) := by
  induction n with
  | zero => exact h
  | succ n ih =>
    rw [Vol.markSectors]
    exact ih.markDirty _

lemma stable_reported (g : Instance) (f : ℕ → Byte) : Stable g (Reported g f) where
  setFat v c _ _ hv := by
    have ht : Reported g f (v.touch c) := hv
    exact (ht.write _ _).markDirty _
  writeSlot v c _ _ _ _ hv := by
    have ht : Reported g f (v.touch c) := hv
    exact (ht.write _ _).markDirty _
  clearCluster v c _ _ hv := by
    have ht : ∀ l, Reported g f { v.touch c with uncleared := l } := fun _ => hv
    exact (((ht _).write _ _).write _ _).markDirty _
  writeCluster v c _ _ hv := by
    have ht : Reported g f (v.touch c) := hv
    exact (ht.write _ _).markSectors _ _

end Stale

variable {d : ℕ → Bool}

section Ata

/-- The image, the dirty bits of its sectors of 512 bytes, and the disk behind it. -/
structure System where
  vol : Vol
  dirty : ℕ → Bool
  disk : ℕ → Byte

/-- `krust_ata_mark_dirty` for a mounted range of `sectors`. -/
def krustAtaMarkDirty (sectors : ℕ) (byteOffset size : ℕ) (dirty : ℕ → Bool) : ℕ → Bool :=
  let start := byteOffset / 512
  let stop := min ((byteOffset + size + 511) % 2 ^ 32 / 512) sectors
  fun s => dirty s || (decide (start ≤ s) && decide (s < stop))

/-- `krust_ata_flush`, when every sector write stores what it is given. -/
def krustAtaFlush (sectors : ℕ) (s : System) : System where
  vol := s.vol
  dirty := fun n => s.dirty n && !decide (n < sectors)
  disk := fun i =>
    if i / 512 < sectors ∧ s.dirty (i / 512) then s.vol.byte (i / 512 * 512 % 2 ^ 32 + i % 512)
    else s.disk i

inductive Act where
  | call (fuel : ℕ) (call : Call)
  | flush

/-- A call of the driver with the ATA driver's callback, or a flush. -/
def Act.exec (g : Instance) (sectors : ℕ) (s : System) : Act → Option System
  | .call fuel c =>
    (c.exec g fuel { s.vol with marks := [] }).map fun p =>
      { s with
        vol := p.2
        dirty := p.2.marks.foldr (fun m => krustAtaMarkDirty sectors m.1 m.2) s.dirty }
  | .flush => some (krustAtaFlush sectors s)

def System.start (image : ℕ → Byte) : System := ⟨mounted image, fun _ => false, image⟩

inductive System.Reached (g : Instance) (sectors : ℕ) (image : ℕ → Byte) : System → Prop
  | start : System.Reached g sectors image (System.start image)
  | step {s s' : System} (a : Act) :
      System.Reached g sectors image s → a.exec g sectors s = some s' →
        System.Reached g sectors image s'

variable {g : Instance} {sectors i : ℕ} {image : ℕ → Byte} {s s' : System}

lemma dirty_foldr_of_dirty (h : d n = true) (marks : List (ℕ × ℕ)) :
    marks.foldr (fun m => krustAtaMarkDirty sectors m.1 m.2) d n = true := by
  induction marks with
  | nil => exact h
  | cons m marks ih =>
    rw [foldr_cons]
    unfold krustAtaMarkDirty at ih ⊢
    dsimp only at ih ⊢
    rw [ih]
    rfl

lemma dirty_foldr_of_mem {off size : ℕ} {marks : List (ℕ × ℕ)}
    (hmem : (off, size) ∈ marks) (hlow : off ≤ i) (hh : i < off + size)
    (hi : i < sectors * 512) (hs : off + size + 511 < 2 ^ 32) :
    marks.foldr (fun m => krustAtaMarkDirty sectors m.1 m.2) d (i / 512) = true := by
  induction marks with
  | nil => cases hmem
  | cons m marks ih =>
    rw [foldr_cons]
    rcases mem_cons.mp hmem with heq | hmem
    · rw [← heq]
      unfold krustAtaMarkDirty
      dsimp only
      have hin : off / 512 ≤ i / 512 ∧ i / 512 < min ((off + size + 511) % 2 ^ 32 / 512) sectors := by
        rw [Nat.mod_eq_of_lt hs]
        omega
      rw [decide_eq_true hin.1, decide_eq_true hin.2]
      simp
    unfold krustAtaMarkDirty at ih ⊢
    dsimp only at ih ⊢
    rw [ih hmem]
    rfl

/-- Nothing unreported, and every byte of the range is on the disk or in a dirty sector. -/
def Tracked (sectors : ℕ) (s : System) : Prop :=
  s.vol.uncleared = [] →
    (∀ i < 2 ^ 32, s.vol.stale i = false) ∧
      ∀ i < sectors * 512, s.disk i = s.vol.byte i ∨ s.dirty (i / 512) = true

lemma stable_uncleared (g : Instance) (v₀ : Vol) :
    Stable g fun v => v.uncleared = [] → v₀.uncleared = [] where
  setFat _ _ _ _ hv := hv
  writeSlot _ _ _ _ _ _ hv := hv
  clearCluster _ _ _ _ hv := fun hc => hv (cleared_rest hc).1
  writeCluster v c chunk _ hv := by
    unfold Vol.writeCluster
    rw [(markSectors_fields _ _ _).2.2]
    exact hv

lemma Tracked.call (hg : g.Sectors) (hse : sectors * 512 + 2 ^ 17 ≤ 2 ^ 32)
    (h : Tracked sectors s) {fuel : ℕ} {c : Call} {r : ℤ} {v : Vol}
    (he : c.exec g fuel { s.vol with marks := [] } = some (r, v)) :
    Tracked sectors { s with
      vol := v
      dirty := v.marks.foldr (fun m => krustAtaMarkDirty sectors m.1 m.2) s.dirty } := by
  intro hcl
  have hb := (stable_uncleared g s.vol).exec fuel c { s.vol with marks := [] } r v
    (fun hc => hc) he hcl
  have ht := h hb
  have hs := hg.stable_stale.exec fuel c { s.vol with marks := [] } r v
    (fun _ => ht.1) he hcl
  have hr := (stable_reported g s.vol.byte).exec fuel c { s.vol with marks := [] } r v
    (fun _ => .inl rfl) he
  refine ⟨hs, ?_⟩
  intro i hi
  have hsm := hg.small
  rcases hr i with hsa | hno | ⟨off, hmem, hlow, hh⟩
  · -- An unchanged byte is where it was.
    dsimp only
    rw [hsa]
    rcases ht.2 i hi with hdi | hd
    · exact .inl hdi
    · exact .inr (dirty_foldr_of_dirty hd _)
  · rw [hs i (by omega)] at hno
    cases hno
  · exact .inr (dirty_foldr_of_mem hmem hlow hh hi (by omega))

lemma disk_flush (hs : sectors * 512 + 2 ^ 17 ≤ 2 ^ 32) (h : Tracked sectors s)
    (hc : s.vol.uncleared = []) (hi : i < sectors * 512) :
    (krustAtaFlush sectors s).disk i = s.vol.byte i := by
  unfold krustAtaFlush
  dsimp only
  split
  · rw [Nat.mod_eq_of_lt (by omega), Nat.div_add_mod']
  rename_i hcl
  rcases (h hc).2 i hi with hdi | hd
  · exact hdi
  · exact absurd ⟨by omega, hd⟩ hcl

lemma Tracked.step (hg : g.Sectors) (hse : sectors * 512 + 2 ^ 17 ≤ 2 ^ 32)
    (h : Tracked sectors s) {a : Act} (he : a.exec g sectors s = some s') : Tracked sectors s' := by
  cases a with
  | call fuel c =>
    obtain ⟨p, hp, hs'⟩ := Option.map_eq_some_iff.mp he
    rw [← hs']
    exact h.call hg hse hp
  | flush =>
    cases he
    intro hc
    exact ⟨(h hc).1, fun i hi => .inl (disk_flush hse h hc hi)⟩

/-- After any run in which no directory cluster was cleared that had data behind its first sector:
every byte that changed was reported after the change, and a flush makes the disk equal to the
image. -/
theorem reached_flush (g : Instance) (hg : g.Sectors) (sectors : ℕ)
    (hsectors : sectors * 512 + 2 ^ 17 ≤ 2 ^ 32) (image : ℕ → Byte) (s : System)
    (h : System.Reached g sectors image s) (hclear : s.vol.uncleared = []) :
    (∀ i < sectors * 512, s.vol.stale i = false) ∧
      ∀ i < sectors * 512, (krustAtaFlush sectors s).disk i = s.vol.byte i := by
  have ht : Tracked sectors s := by
    clear hclear
    induction h with
    | start => exact fun _ => ⟨fun _ _ => rfl, fun _ _ => .inl rfl⟩
    | step a _ he ih => exact ih.step hg hsectors he
  exact ⟨fun i hi => (ht hclear).1 i (by omega), fun i hi => disk_flush hsectors ht hclear hi⟩

/-- Sectors of 512 bytes, two of them a cluster: one reserved, one FAT of one sector, then the
clusters from 2 on. The root directory is cluster 2; there is a byte in the second sector of the free
cluster 3. -/
def wide : Instance := ⟨512, 2, 1, 1, 1, 2, 2, 1, 4⟩

def wideImage : ℕ → Byte := fun i =>
  if i = 520 then 0xF8 else if i = 521 ∨ i = 522 then 0xFF else if i = 523 then 0x0F
  else if i = 2560 then 1 else 0

lemma wide_sectors : wide.Sectors := ⟨by decide, by decide, by decide⟩

def nameD : Name := ⟨[68], fun _ => 0, by decide⟩

/-- The image after an empty file was created in the root directory. -/
def wideFile : Vol :=
  (mounted wideImage).writeSlot wide 2 ⟨2, 1024⟩ (makeEntry (krustFat32NameToSfn nameD) attrArchive 0 0)

theorem reached_flush_wideFile :
    ∃ s, System.Reached wide 8 wideImage s ∧ s.vol = wideFile ∧
      ∀ i < 8 * 512, (krustAtaFlush 8 s).disk i = s.vol.byte i := by
  have hrun : (Act.call 1 (.writeFile 2 nameD [])).exec wide 8 (System.start wideImage) =
      some ⟨wideFile, krustAtaMarkDirty 8 1024 512 fun _ => false, wideImage⟩ := rfl
  have hr : System.Reached wide 8 wideImage _ := .step _ .start hrun
  exact ⟨_, hr, rfl, (reached_flush wide wide_sectors 8 (by decide) wideImage _ hr rfl).2⟩

/-- A directory is created in the root directory: cluster 3 is cleared. -/
def wideDir : Option System :=
  (Act.call 1 (.createDir 2 nameD)).exec wide 8 (System.start wideImage)

lemma wideDir_isSome : wideDir.isSome = true := by decide +kernel

/-- The second sector of the new directory is cleared in memory only. -/
theorem createDir_not_flushed :
    ∃ s, System.Reached wide 8 wideImage s ∧ s.vol.stale 2560 = true ∧
      (krustAtaFlush 8 s).disk 2560 = 1 ∧ s.vol.byte 2560 = 0 :=
  ⟨wideDir.get wideDir_isSome, .step _ .start (Option.some_get wideDir_isSome).symm,
    by decide +kernel, by decide +kernel, by decide +kernel⟩

end Ata

end Elitra.Fat32
