import Elitra.Fat32Run

namespace Elitra.Fat32
open List StateRun

/-- The layout of a volume that its FAT and the source's 32-bit numbers can describe. -/
structure Instance.Sound (g : Instance) : Prop where
  bytes : 0 < g.bytesPerSector
  data : g.firstDataSector = g.firstFatSector + g.numFats * g.sectorsPerFat
  entries : (g.totalClusters + 2) * 4 ≤ g.sectorsPerFat * g.bytesPerSector
  entryOffsets : (g.totalClusters + 2) * 4 ≤ 2 ^ 32
  sectors : g.firstDataSector + g.totalClusters * g.sectorsPerCluster < 2 ^ 32

/-- A cluster of the volume. -/
def Instance.InVolume (g : Instance) (c : ℕ) : Prop := 2 ≤ c ∧ c < g.totalClusters + 2

instance (g : Instance) (c : ℕ) : Decidable (g.InVolume c) := inferInstanceAs (Decidable (_ ∧ _))

def Instance.fatByte (g : Instance) (j i : ℕ) : ℕ :=
  (g.firstFatSector + j * g.sectorsPerFat) * g.bytesPerSector + i

def Instance.fatSize (g : Instance) : ℕ := g.sectorsPerFat * g.bytesPerSector

lemma Instance.fatByte_eq (g : Instance) (j i : ℕ) : g.fatByte j i = g.fatByte j 0 + i := rfl

lemma Instance.fatByte_succ (g : Instance) (j : ℕ) : g.fatByte (j + 1) 0 = g.fatByte j g.fatSize := by
  unfold Instance.fatByte Instance.fatSize
  rw [Nat.add_mul j 1, Nat.one_mul, ← Nat.add_assoc, Nat.add_mul _ g.sectorsPerFat, Nat.add_zero]

/-- All copies of the FAT are the same. -/
def Identical (g : Instance) (f : ℕ → Byte) : Prop :=
  ∀ j < g.numFats, ∀ i < g.fatSize, f (g.fatByte j i) = f (g.fatByte 0 i)

instance (g : Instance) (f : ℕ → Byte) : Decidable (Identical g f) :=
  inferInstanceAs (Decidable (∀ j < _, ∀ i < _, _))

/-- The volumes that sequences of calls lead to. -/
inductive Reached (g : Instance) (v₀ : Vol) : Vol → Prop
  | start : Reached g v₀ v₀
  | step {v v' : Vol} (fuel : ℕ) (call : Call) {r : ℤ} :
      Reached g v₀ v → call.exec g fuel v = some (r, v') → Reached g v₀ v'

lemma Reached.keeps {g : Instance} {v₀ v : Vol} {P : Vol → Prop} (hP : Stable g P) (h0 : P v₀)
    (h : Reached g v₀ v) : P v := by
  induction h with
  | start => exact h0
  | step fuel call _ he ih => exact hP.exec fuel call _ _ _ ih he

section Frame

variable {g : Instance} {v v₀ : Vol} {c i : ℕ}

@[simp] lemma byte_markDirty (v : Vol) (sector : ℕ) : (v.markDirty g sector).byte = v.byte := rfl

lemma byte_write_outside {off : ℕ} {bytes : List Byte} (h : i < off ∨ off + bytes.length ≤ i) :
    (v.write off bytes).byte i = v.byte i := if_neg (by omega)

lemma length_bytes32 (n : ℕ) : (bytes32 n).length = 4 := rfl

variable {d : ℕ}

lemma le32_congr {f f' : ℕ → Byte} {off : ℕ} (h : ∀ i < 4, f (off + i) = f' (off + i)) :
    le32 f off = le32 f' off := by
  unfold le32 le16
  have h0 : f off = f' off := h 0 (by omega)
  have h1 : f (off + 1) = f' (off + 1) := h 1 (by omega)
  have h2 : f (off + 2) = f' (off + 2) := h 2 (by omega)
  have h3 : f (off + 2 + 1) = f' (off + 2 + 1) := h 3 (by omega)
  rw [h0, h1, h2, h3]

lemma le32_bytes32 {f : ℕ → Byte} {off n : ℕ}
    (h : ∀ i < 4, f (off + i) = (bytes32 n).getD i 0) : le32 f off = n % 2 ^ 32 := by
  have h0 : f off = BitVec.ofNat 8 n := h 0 (by omega)
  have h1 : f (off + 1) = BitVec.ofNat 8 (n / 2 ^ 8) := h 1 (by omega)
  have h2 : f (off + 2) = BitVec.ofNat 8 (n / 2 ^ 16) := h 2 (by omega)
  have h3 : f (off + 2 + 1) = BitVec.ofNat 8 (n / 2 ^ 16 / 2 ^ 8) := h 3 (by omega)
  unfold le32 le16
  rw [h0, h1, h2, h3]
  simp only [BitVec.toNat_ofNat]
  omega

lemma byte_write (v : Vol) (off : ℕ) (bytes : List Byte) (i : ℕ) :
    (v.write off bytes).byte i =
      if off ≤ i ∧ i < off + bytes.length then bytes.getD (i - off) 0 else v.byte i := rfl

lemma le32_lt (f : ℕ → Byte) (off : ℕ) : le32 f off < 2 ^ 32 := by
  unfold le32 le16
  omega

lemma le32_setFat (value : ℕ)
    (h : d = c ∨ fatOffset g d + 4 ≤ fatOffset g c ∨ fatOffset g c + 4 ≤ fatOffset g d) :
    le32 (v.setFat g c value).byte (fatOffset g d) =
      if d = c then le32 v.byte (fatOffset g d) / 2 ^ 28 * 2 ^ 28 + value % 2 ^ 28
      else le32 v.byte (fatOffset g d) := by
  have hb : (v.setFat g c value).byte = (v.write (fatOffset g c) (bytes32
        (le32 v.byte (fatOffset g c) / 2 ^ 28 * 2 ^ 28 + value % 2 ^ 28))).byte := rfl
  rw [hb]
  split
  · rename_i heq
    subst heq
    have hlt := le32_lt v.byte (fatOffset g d)
    rw [le32_bytes32 (n := le32 v.byte (fatOffset g d) / 2 ^ 28 * 2 ^ 28 + value % 2 ^ 28),
      Nat.mod_eq_of_lt (by omega)]
    intro i hi
    rw [byte_write, length_bytes32, if_pos (by omega), Nat.add_sub_cancel_left]
  rename_i hne
  apply le32_congr
  intro i hi
  rw [byte_write, length_bytes32, if_neg (by omega)]

lemma markSectors_fields (v : Vol) (base n : ℕ) :
    (v.markSectors g base n).byte = v.byte ∧ (v.markSectors g base n).clusters = v.clusters ∧
      (v.markSectors g base n).uncleared = v.uncleared := by
  induction n with
  | zero => exact ⟨rfl, rfl, rfl⟩
  | succ n ih =>
    rw [Vol.markSectors]
    exact ih

section

variable (hg : g.Sound)
include hg

lemma Instance.Sound.clusterToSector_eq (hc : g.InVolume c) :
    clusterToSector g c = g.firstDataSector + (c - 2) * g.sectorsPerCluster ∧
      clusterToSector g c + g.sectorsPerCluster < 2 ^ 32 + 1 := by
  have hsub : clusterIndex c = c - 2 := if_pos hc.1
  have hle : (c - 2 + 1) * g.sectorsPerCluster ≤ g.totalClusters * g.sectorsPerCluster := by
    apply Nat.mul_le_mul_right
    have h2 := hc.2
    have h1 := hc.1
    omega
  rw [Nat.add_mul, Nat.one_mul] at hle
  have hs := hg.sectors
  unfold clusterToSector
  rw [hsub, Nat.mod_eq_of_lt (by omega)]
  exact ⟨rfl, by omega⟩

lemma Instance.Sound.le_clusterOffset (hc : g.InVolume c) :
    g.firstDataSector * g.bytesPerSector ≤ clusterOffset g c := by
  unfold clusterOffset
  rw [(hg.clusterToSector_eq hc).1]
  exact Nat.mul_le_mul_right _ (Nat.le_add_right _ _)

lemma Instance.Sound.slot_bounds (hc : g.InVolume c) {s : Slot} (hs : s ∈ slots g c) :
    clusterOffset g c ≤ s.off ∧ s.off + 32 ≤ clusterOffset g c + g.bytesPerCluster := by
  simp only [slots, mem_flatMap, mem_map, mem_range] at hs
  obtain ⟨so, hso, eo, heo, rfl⟩ := hs
  have hlt := hg.clusterToSector_eq hc
  have hfit : (eo + 1) * 32 ≤ g.bytesPerSector :=
    (Nat.mul_le_mul_right 32 heo).trans (Nat.div_mul_le_self ..)
  have hle : (so + 1) * g.bytesPerSector ≤ g.sectorsPerCluster * g.bytesPerSector :=
    Nat.mul_le_mul_right _ hso
  unfold clusterOffset Instance.bytesPerCluster dirEntrySize
  dsimp only
  rw [Nat.mod_eq_of_lt (by omega), Nat.add_mul]
  rw [Nat.add_mul, Nat.mul_comm g.sectorsPerCluster] at hle
  omega

lemma Instance.Sound.fatOffset_eq (hf : 1 ≤ g.numFats) (hc : g.InVolume c) :
    fatOffset g c = g.fatByte 0 (c * 4) ∧ c * 4 + 4 ≤ g.fatSize := by
  have hoff : c * 4 % 2 ^ 32 = c * 4 := by
    apply Nat.mod_eq_of_lt
    have h := hg.entryOffsets
    have h2 := hc.2
    omega
  have hlt : c * 4 + 4 ≤ g.fatSize := by
    apply le_trans _ hg.entries
    have h2 := hc.2
    omega
  have hse : c * 4 / g.bytesPerSector < g.sectorsPerFat := by
    rw [Nat.div_lt_iff_lt_mul hg.bytes]
    unfold Instance.fatSize at hlt
    omega
  have hspf : 1 * g.sectorsPerFat ≤ g.numFats * g.sectorsPerFat := Nat.mul_le_mul_right _ hf
  refine ⟨?_, hlt⟩
  unfold fatOffset fatSector Instance.fatByte
  have hd := hg.data
  have hs := hg.sectors
  rw [hoff, Nat.mod_eq_of_lt (by omega), Nat.zero_mul, Nat.add_zero, Nat.add_mul, Nat.add_assoc,
    Nat.div_add_mod']

lemma Instance.Sound.fatByte_le (hf : 1 ≤ g.numFats) :
    g.fatByte 1 0 ≤ g.firstDataSector * g.bytesPerSector := by
  rw [hg.data]
  exact Nat.mul_le_mul_right _ (Nat.add_le_add_left (Nat.mul_le_mul_right _ hf) _)

/-- The writes to clusters of the volume keep every byte that is in no entry of the first FAT and in no
cluster; the two entries of a new directory may be longer than a cluster. -/
lemma Instance.Sound.stable_bytes (v₀ : Vol) {B : ℕ → Prop}
    (hfat : ∀ c i, g.InVolume c → B i → i < fatOffset g c ∨ fatOffset g c + 4 ≤ i)
    (hd : ∀ c i, g.InVolume c → B i →
      i < clusterOffset g c ∨ clusterOffset g c + max 64 g.bytesPerCluster ≤ i) :
    Stable g fun v => (∀ c ∈ v.clusters, g.InVolume c) → ∀ i, B i → v.byte i = v₀.byte i where
  setFat v c value _ hv := by
    intro hall i hi
    obtain ⟨hc, hold⟩ := forall_mem_cons.mp hall
    unfold Vol.setFat
    rw [byte_markDirty, byte_write_outside (hfat c i hc hi)]
    exact hv hold i hi
  writeSlot v c s bytes hs hlen hv := by
    intro hall i hi
    obtain ⟨hc, hold⟩ := forall_mem_cons.mp hall
    have hin := hg.slot_bounds hc hs
    have hout := hd c i hc hi
    unfold Vol.writeSlot
    rw [byte_markDirty, byte_write_outside (by omega)]
    exact hv hold i hi
  clearCluster v c entries hlen hv := by
    intro hall i hi
    obtain ⟨hc, hold⟩ := forall_mem_cons.mp hall
    have hout := hd c i hc hi
    unfold Vol.clearCluster
    rw [byte_markDirty, byte_write_outside (by omega),
      byte_write_outside (by rw [length_replicate]; omega)]
    exact hv hold i hi
  writeCluster v c chunk hlen hv := by
    intro hall i hi
    unfold Vol.writeCluster at hall ⊢
    rw [(markSectors_fields _ _ _).2.1] at hall
    obtain ⟨hc, hold⟩ := forall_mem_cons.mp hall
    have hout := hd c i hc hi
    rw [(markSectors_fields _ _ _).1, byte_write_outside (by omega)]
    exact hv hold i hi

lemma Instance.Sound.stable_copies (v₀ : Vol) :
    Stable g fun v => (∀ c ∈ v.clusters, g.InVolume c) → ∀ i,
      g.fatByte 1 0 ≤ i ∧ i < g.firstDataSector * g.bytesPerSector → v.byte i = v₀.byte i := by
  refine hg.stable_bytes v₀ (fun c i hc hi => .inr ?_) fun c i hc hi =>
    .inl (hi.2.trans_le (hg.le_clusterOffset hc))
  -- There is another copy, so the first one lies before the data.
  have hf : 1 ≤ g.numFats := by
    by_contra hno
    have hz : g.numFats = 0 := by omega
    have hle : g.firstFatSector * g.bytesPerSector ≤ g.fatByte 1 0 :=
      Nat.mul_le_mul_right _ (Nat.le_add_right _ _)
    have hd := hg.data
    rw [hz, Nat.zero_mul, Nat.add_zero] at hd
    rw [hd] at hi
    omega
  obtain ⟨hoff, hend⟩ := hg.fatOffset_eq hf hc
  have hn : g.fatByte 1 0 = g.fatByte 0 0 + g.fatSize := g.fatByte_succ 0
  rw [hoff, g.fatByte_eq]
  omega

end

end Frame

/-- After calls that write clusters of the volume only, the copies of the FAT are still the same if and
only if there is just one or the first FAT is again what it was. -/
lemma identical_reached_iff {g : Instance} (hg : g.Sound) {image : ℕ → Byte}
    (hid : Identical g image) {v : Vol} (hv : Reached g (mounted image) v)
    (hclusters : ∀ c ∈ v.clusters, g.InVolume c) :
    Identical g v.byte ↔
      g.numFats ≤ 1 ∨ ∀ i < g.fatSize, v.byte (g.fatByte 0 i) = image (g.fatByte 0 i) := by
  have hs := hv.keeps (hg.stable_copies (mounted image)) (fun _ _ _ => rfl) hclusters
  have hc : ∀ j, 1 ≤ j → j < g.numFats → ∀ i < g.fatSize,
      v.byte (g.fatByte j i) = image (g.fatByte j i) := by
    intro j hj hlt i hi
    have hle : 1 * g.sectorsPerFat ≤ j * g.sectorsPerFat := Nat.mul_le_mul_right _ hj
    have hn : (j + 1) * g.sectorsPerFat ≤ g.numFats * g.sectorsPerFat :=
      Nat.mul_le_mul_right _ hlt
    apply hs
    constructor
    · unfold Instance.fatByte
      apply le_trans _ (Nat.le_add_right _ _)
      exact Nat.mul_le_mul_right _ (Nat.add_le_add_left hle _)
    have hb : g.fatByte (j + 1) 0 ≤ g.firstDataSector * g.bytesPerSector := by
      rw [hg.data]
      exact Nat.mul_le_mul_right _ (Nat.add_le_add_left hn _)
    rw [g.fatByte_succ, g.fatByte_eq] at hb
    rw [g.fatByte_eq]
    omega
  constructor
  · intro hnew
    by_cases hone : g.numFats ≤ 1
    · exact .inl hone
    refine .inr fun i hi => ?_
    rw [← hnew 1 (by omega) i hi, hc 1 le_rfl (by omega) i hi]
    exact hid 1 (by omega) i hi
  intro hco j hj i hi
  rcases Nat.eq_zero_or_pos j with hz | hpos
  · rw [hz]
  rcases hco with hone | hf
  · omega
  rw [hc j hpos hj i hi, hf i hi]
  exact hid j hj i hi

lemma fatEntry_setFat {g : Instance} (v : Vol) (c value : ℕ) :
    fatEntry g (v.setFat g c value).byte c = value % 2 ^ 28 := by
  rw [fatEntry, le32_setFat value (.inl rfl), if_pos rfl]
  omega

/-- One entry of the first FAT that gets a new value is enough. -/
lemma not_identical_setFat {g : Instance} (hg : g.Sound) {image : ℕ → Byte}
    (hid : Identical g image) (hf : 1 < g.numFats) {c value : ℕ} (hc : g.InVolume c)
    (hne : fatEntry g image c ≠ value % 2 ^ 28)
    (hv : Reached g (mounted image) ((mounted image).setFat g c value)) :
    ¬ Identical g ((mounted image).setFat g c value).byte := by
  have hclusters : ∀ x ∈ ((mounted image).setFat g c value).clusters, g.InVolume x := by
    intro x hx
    rwa [mem_singleton.mp hx]
  rw [identical_reached_iff hg hid hv hclusters]
  rintro (hone | hsame)
  · omega
  · obtain ⟨hoff, hend⟩ := hg.fatOffset_eq hf.le hc
    refine hne (Eq.trans ?_ (fatEntry_setFat (g := g) (mounted image) c value))
    unfold fatEntry
    rw [@le32_congr _ ((mounted image).setFat g c value).byte _ fun i hi => ?_]
    rw [hoff, g.fatByte_eq, Nat.add_assoc, ← g.fatByte_eq]
    exact (hsame _ (by omega)).symm

lemma setFatEntry_eq_some {g : Instance} (hb : g.bytesPerSector ≠ 0) (v : Vol) (c value : ℕ) :
    krustFat32SetFatEntry g c value v = some (⟨⟩, v.setFat g c value) := by
  rw [krustFat32SetFatEntry, if_neg hb]
  rfl

lemma allocLoop_free {g : Instance} (hb : g.bytesPerSector ≠ 0) (v : Vol) (c : ℕ) (cs : List ℕ)
    (h : fatEntry g v.byte c = 0) :
    allocLoop g (c :: cs) v = some (c, v.setFat g c fat32Eoc) := by
  have hget : krustFat32GetFatEntry g c v = some (0, v) := by
    rw [krustFat32GetFatEntry, if_neg hb, ← h]
    rfl
  have hset := setFatEntry_eq_some hb v c fat32Eoc
  have hfree : (0, v).1 = fat32Free := rfl
  rw [allocLoop, bind_apply, hget, Option.bind_some, if_pos hfree, bind_apply, hset]
  rfl

/-- The copies stay the same in all runs only if there is just one. Left out are volumes of at most
two clusters, both of them free, for which no call ever sets an entry. -/
theorem identical_iff (g : Instance) (hg : g.Sound) (image : ℕ → Byte) (hid : Identical g image)
    (hused : 3 ≤ g.totalClusters ∨ ∃ c, g.InVolume c ∧ fatEntry g image c ≠ 0) :
    (∀ v, Reached g (mounted image) v → Identical g v.byte) ↔ g.numFats ≤ 1 := by
  have hb : g.bytesPerSector ≠ 0 := hg.bytes.ne'
  constructor
  · intro h
    by_contra hmany
    by_cases hfree : ∃ c, g.InVolume c ∧ fatEntry g image c ≠ 0
    · obtain ⟨c, hc, hne⟩ := hfree
      have hv : Reached g (mounted image) ((mounted image).setFat g c fat32Free) :=
        .step 0 (.freeCluster c) .start (r := 1)
          (by rw [Call.exec, bind_apply, setFatEntry_eq_some hb]; rfl)
      exact not_identical_setFat hg hid (by omega) hc (by simpa [fat32Free] using hne) hv (h _ hv)
    · push Not at hfree
      have hthree := hused.resolve_right fun ⟨c, hc, hne⟩ => hne (hfree c hc)
      have hc : g.InVolume 2 := ⟨le_rfl, by omega⟩
      have hzero := hfree 2 hc
      obtain ⟨n, hn⟩ : ∃ n, g.totalClusters - 2 = n + 1 := ⟨g.totalClusters - 3, by omega⟩
      have hv : Reached g (mounted image) ((mounted image).setFat g 2 fat32Eoc) := by
        refine .step 0 .allocCluster .start (r := 2) ?_
        rw [Call.exec, krustFat32AllocCluster, hn, range'_succ, bind_apply,
          allocLoop_free hb _ 2 _ hzero]
        rfl
      exact not_identical_setFat hg hid (by omega) hc (by rw [hzero]; decide) hv (h _ hv)
  · intro hone v _ j hj i _
    obtain rfl : j = 0 := by omega
    rfl

/-- Eight sectors of 32 bytes: two for the header, two FATs of one sector each, four clusters. The
root directory is cluster 2. -/
def tinyImage : ℕ → Byte := fun i =>
  if i = 11 then 32 else if i = 13 then 1 else if i = 14 then 2 else if i = 16 then 2
  else if i = 19 then 8 else if i = 36 then 1 else if i = 44 then 2
  else if i = 72 ∨ i = 104 then 0xF8
  else if i = 73 ∨ i = 74 ∨ i = 105 ∨ i = 106 then 0xFF
  else if i = 75 ∨ i = 107 then 0x0F
  else 0

def tiny : Instance := ⟨32, 1, 2, 2, 1, 2, 4, 2, 4⟩

lemma tiny_sound : tiny.Sound := ⟨by decide, by decide, by decide, by decide, by decide⟩

/-- The volume after the allocation of a cluster. -/
def tinyAlloc : Vol := (mounted tinyImage).setFat tiny 3 fat32Eoc

lemma reached_tinyAlloc : Reached tiny (mounted tinyImage) tinyAlloc :=
  .step 0 .allocCluster .start rfl

theorem identical_iff_tiny :
    ¬ ∀ v, Reached tiny (mounted tinyImage) v → Identical tiny v.byte := by
  rw [identical_iff tiny tiny_sound tinyImage (by decide +kernel) (.inl (by decide))]
  decide

/-- After one allocation the two FATs differ. -/
theorem alloc_breaks_copies :
    krustFat32Init tinyImage 256 = some (some tiny) ∧ Identical tiny tinyImage ∧
      Reached tiny (mounted tinyImage) tinyAlloc ∧ ¬ Identical tiny tinyAlloc.byte :=
  ⟨by decide +kernel, by decide +kernel, reached_tinyAlloc, by decide +kernel⟩

end Elitra.Fat32
