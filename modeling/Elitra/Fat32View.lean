import Elitra.Fat32Copies
import Mathlib.Data.List.GetD
import Mathlib.Data.List.Nodup

namespace Elitra.Fat32
open Function List StateRun

/-- The sizes with which clusters are whole tables of entries. -/
structure Instance.Regular (g : Instance) : Prop extends g.Sound where
  fats : 1 ≤ g.numFats
  slotted : 32 ∣ g.bytesPerSector
  clusters : 0 < g.sectorsPerCluster
  dots : 64 ≤ g.bytesPerSector
  numbers : g.totalClusters + 2 ≤ fat32Eoc

/-- FAT entries and the bytes of clusters. -/
@[ext] structure Disk where
  fat : ℕ → ℕ
  blk : ℕ → ℕ → Byte

/-- The clusters of the volume; everything else counts as zero. -/
def view (g : Instance) (f : ℕ → Byte) : Disk where
  fat c := if g.InVolume c then fatEntry g f c else 0
  blk c i := if g.InVolume c ∧ i < g.bytesPerCluster then f (clusterOffset g c + i) else 0

variable {g : Instance}

variable {c : ℕ}

lemma view_fat (f : ℕ → Byte) (hc : g.InVolume c) : (view g f).fat c = fatEntry g f c := if_pos hc

lemma view_fat_outside (f : ℕ → Byte) (hc : ¬ g.InVolume c) : (view g f).fat c = 0 := if_neg hc

lemma view_blk {i : ℕ} (f : ℕ → Byte)
    (h : g.InVolume c ∧ i < g.bytesPerCluster) : (view g f).blk c i = f (clusterOffset g c + i) :=
  if_pos h

lemma view_blk_outside {i : ℕ} (f : ℕ → Byte)
    (h : ¬ (g.InVolume c ∧ i < g.bytesPerCluster)) : (view g f).blk c i = 0 := if_neg h

variable {x : ℕ}

section Writes

variable {g : Instance} {v v' : Vol} {c d i o : ℕ} {bytes : List Byte}

def Disk.setFat (d : Disk) (c value : ℕ) : Disk := { d with fat := update d.fat c value }

def Disk.put (d : Disk) (c o : ℕ) (bytes : List Byte) : Disk :=
  { d with
    blk := update d.blk c fun i =>
      if o ≤ i ∧ i < o + bytes.length then bytes.getD (i - o) 0 else d.blk c i }

lemma Instance.Regular.pos (hg : g.Regular) : 64 ≤ g.bytesPerCluster := by
  unfold Instance.bytesPerCluster
  have hmul : g.bytesPerSector * 1 ≤ g.bytesPerSector * g.sectorsPerCluster :=
    Nat.mul_le_mul_left _ hg.clusters
  have hd := hg.dots
  omega

lemma Instance.Regular.clusterOffset_eq (hg : g.Regular) (hc : g.InVolume c) :
    clusterOffset g c = g.firstDataSector * g.bytesPerSector + (c - 2) * g.bytesPerCluster := by
  unfold clusterOffset Instance.bytesPerCluster
  rw [(hg.clusterToSector_eq hc).1, Nat.add_mul, Nat.mul_assoc, Nat.mul_comm g.bytesPerSector]

lemma Instance.Regular.offset_inj (hg : g.Regular) {c' i' : ℕ} (hc : g.InVolume c)
    (hc' : g.InVolume c') (hi : i < g.bytesPerCluster) (hi' : i' < g.bytesPerCluster)
    (h : clusterOffset g c + i = clusterOffset g c' + i') : c = c' ∧ i = i' := by
  rw [hg.clusterOffset_eq hc, hg.clusterOffset_eq hc'] at h
  have hdiv : (i + g.bytesPerCluster * (c - 2)) / g.bytesPerCluster =
      (i' + g.bytesPerCluster * (c' - 2)) / g.bytesPerCluster := by
    congr 1
    rw [Nat.mul_comm _ (c - 2), Nat.mul_comm _ (c' - 2)]
    omega
  have hpos : 0 < g.bytesPerCluster := by omega
  rw [Nat.add_mul_div_left _ _ hpos, Nat.add_mul_div_left _ _ hpos, Nat.div_eq_of_lt hi,
    Nat.div_eq_of_lt hi'] at hdiv
  have h1 := hc.1
  have h2 := hc'.1
  have heq : c = c' := by omega
  subst heq
  exact ⟨rfl, by omega⟩

lemma Instance.Regular.fatOffset_eq' (hg : g.Regular) (hc : g.InVolume c) :
    fatOffset g c = g.fatByte 0 0 + c * 4 := by
  rw [(hg.fatOffset_eq hg.fats hc).1, g.fatByte_eq]

lemma Instance.Regular.fat_before (hg : g.Regular) {c' : ℕ} (hc : g.InVolume c)
    (hc' : g.InVolume c') : fatOffset g c + 4 ≤ clusterOffset g c' := by
  obtain ⟨hoff, hend⟩ := hg.fatOffset_eq hg.fats hc
  apply le_trans _ (hg.le_clusterOffset hc')
  have hf := hg.fatByte_le hg.fats
  rw [g.fatByte_succ, g.fatByte_eq] at hf
  rw [hoff, g.fatByte_eq]
  omega

lemma Disk.put_self (d : Disk) (c o : ℕ) (bytes : List Byte) (i : ℕ) :
    (d.put c o bytes).blk c i =
      if o ≤ i ∧ i < o + bytes.length then bytes.getD (i - o) 0 else d.blk c i := by
  unfold Disk.put
  dsimp only
  rw [update_self]

lemma Disk.put_of_ne (d : Disk) (o : ℕ) (bytes : List Byte) (h : x ≠ c) :
    (d.put c o bytes).blk x = d.blk x := update_of_ne h _ _

lemma view_write (hg : g.Regular) (hc : g.InVolume c)
    (hfit : o + bytes.length ≤ g.bytesPerCluster) :
    view g (v.write (clusterOffset g c + o) bytes).byte = (view g v.byte).put c o bytes := by
  ext1
  · funext x
    change _ = (view g v.byte).fat x
    by_cases hx : g.InVolume x
    · rw [view_fat _ hx, view_fat _ hx]
      unfold fatEntry
      congr 1
      apply le32_congr
      intro i hi
      have hb := hg.fat_before hx hc
      rw [byte_write_outside (by omega)]
    · rw [view_fat_outside _ hx, view_fat_outside _ hx]
  funext x i
  by_cases hx : g.InVolume x ∧ i < g.bytesPerCluster
  · rw [view_blk _ hx, byte_write]
    by_cases heq : x = c
    · subst heq
      rw [Disk.put_self]
      by_cases hin : o ≤ i ∧ i < o + bytes.length
      · rw [if_pos (by omega), if_pos hin, Nat.add_sub_add_left]
      · rw [if_neg (by omega), if_neg hin, view_blk _ hx]
    rw [Disk.put_of_ne _ _ _ heq, view_blk _ hx, if_neg]
    intro hin
    -- a byte of the range is a byte of the cluster `c`
    have hlt : clusterOffset g x + i - clusterOffset g c < g.bytesPerCluster := by omega
    exact heq (hg.offset_inj hx.1 hc hx.2 hlt (by omega)).1
  rw [view_blk_outside _ hx]
  by_cases heq : x = c
  · subst heq
    have hout : ¬ i < g.bytesPerCluster := fun hlt => hx ⟨hc, hlt⟩
    rw [Disk.put_self, if_neg (by omega), view_blk_outside _ hx]
  · rw [Disk.put_of_ne _ _ _ heq, view_blk_outside _ hx]

lemma Disk.setFat_self (d : Disk) (c value : ℕ) : (d.setFat c value).fat c = value :=
  update_self ..

lemma Disk.setFat_of_ne (d : Disk) (value : ℕ) (h : x ≠ c) :
    (d.setFat c value).fat x = d.fat x := update_of_ne h _ _

lemma view_setFat (hg : g.Regular) (hc : g.InVolume c) (value : ℕ) :
    view g (v.setFat g c value).byte = (view g v.byte).setFat c (value % 2 ^ 28) := by
  ext1
  · funext x
    by_cases hx : g.InVolume x
    · rw [view_fat _ hx]
      unfold fatEntry
      rw [le32_setFat value (by rw [hg.fatOffset_eq' hx, hg.fatOffset_eq' hc]; omega)]
      split
      · rename_i heq
        rw [heq, Disk.setFat_self]
        omega
      rename_i hne
      rw [Disk.setFat_of_ne _ _ hne, view_fat _ hx]
      rfl
    have hne : x ≠ c := fun heq => hx (heq ▸ hc)
    rw [view_fat_outside _ hx, Disk.setFat_of_ne _ _ hne, view_fat_outside _ hx]
  funext x i
  change _ = (view g v.byte).blk x i
  by_cases hx : g.InVolume x ∧ i < g.bytesPerCluster
  · rw [view_blk _ hx, view_blk _ hx]
    have hb := hg.fat_before hc hx.1
    exact byte_write_outside (.inr (by rw [length_bytes32]; omega))
  · rw [view_blk_outside _ hx, view_blk_outside _ hx]

end Writes

variable {p : Place} {l : List ℕ}

section Rows

variable {g : Instance} {f : ℕ → Byte} {d : Disk} {c o : ℕ}

/-- Where an entry of a directory is: its cluster and the offset there. -/
abbrev Place := ℕ × ℕ

def offsets (g : Instance) : List ℕ := (List.range (g.bytesPerCluster / 32)).map (· * 32)

/-- The places of a chain of clusters, in the order of the search. -/
def places (g : Instance) (l : List ℕ) : List Place :=
  l.flatMap fun c => (offsets g).map fun o => (c, o)

def Disk.row (d : Disk) (p : Place) : List Byte :=
  (List.range 32).map fun i => d.blk p.1 (p.2 + i)

def slotAt (g : Instance) (c o : ℕ) : Slot :=
  ⟨clusterToSector g c + o / g.bytesPerSector, clusterOffset g c + o⟩

def headOf (row : List Byte) : Byte := row.getD 0 0

def attrOf (row : List Byte) : Byte := row.getD 11 0

def nameOf (row : List Byte) : List Byte := row.take 11

def sizeOf (row : List Byte) : ℕ := le32 (fun i => row.getD i 0) 28

lemma range_flatMap (a b : ℕ) :
    ((List.range a).flatMap fun i => (List.range b).map fun j => i * b + j) =
      List.range (a * b) := by
  induction a with
  | zero => rw [Nat.zero_mul]; rfl
  | succ a ih =>
    rw [range_succ, flatMap_append, ih, flatMap_singleton, Nat.add_mul, Nat.one_mul, range_add]

lemma mem_offsets (h : o ∈ offsets g) : o + 32 ≤ g.bytesPerCluster ∧ 32 ∣ o := by
  obtain ⟨k, hk, rfl⟩ := mem_map.mp h
  have hlt := mem_range.mp hk
  have hdiv := Nat.div_mul_le_self g.bytesPerCluster 32
  exact ⟨by omega, Nat.dvd_mul_left 32 k⟩

lemma nodup_offsets (g : Instance) : (offsets g).Nodup := by
  apply List.Nodup.map _ nodup_range
  intro a b hab
  dsimp only at hab
  omega

lemma mem_places : p ∈ places g l ↔ p.1 ∈ l ∧ p.2 ∈ offsets g := by
  unfold places
  rw [mem_flatMap]
  constructor
  · intro h
    obtain ⟨c, hc, hp⟩ := h
    obtain ⟨o, ho, rfl⟩ := mem_map.mp hp
    exact ⟨hc, ho⟩
  intro h
  exact ⟨p.1, h.1, mem_map.mpr ⟨p.2, h.2, rfl⟩⟩

lemma mem_places_single (h : p ∈ places g [c]) : ∃ o ∈ offsets g, p = (c, o) := by
  obtain ⟨hc, ho⟩ := mem_places.mp h
  exact ⟨p.2, ho, Prod.ext (mem_singleton.mp hc) rfl⟩

lemma places_append (l l' : List ℕ) : places g (l ++ l') = places g l ++ places g l' :=
  flatMap_append ..

lemma places_cons (c : ℕ) (l : List ℕ) :
    places g (c :: l) = ((offsets g).map fun o => (c, o)) ++ places g l := rfl

lemma nodup_places (h : l.Nodup) : (places g l).Nodup := by
  apply nodup_flatMap.mpr
  refine ⟨fun c _ => (nodup_offsets g).map fun a b hab => (Prod.mk.inj hab).2, ?_⟩
  apply h.imp
  intro a b hab p hp hq
  obtain ⟨o, -, rfl⟩ := mem_map.mp hp
  obtain ⟨o', -, heq⟩ := mem_map.mp hq
  exact hab (Prod.mk.inj heq).1.symm

lemma slots_eq (hg : g.Regular) (hc : g.InVolume c) :
    slots g c = (offsets g).map (slotAt g c) := by
  obtain ⟨k, hk⟩ := hg.slotted
  have hbps := hg.bytes
  have hdiv : g.bytesPerSector / 32 = k := by rw [hk, Nat.mul_div_cancel_left k (by omega)]
  have hco : g.bytesPerCluster / 32 = g.sectorsPerCluster * k := by
    unfold Instance.bytesPerCluster
    rw [hk, Nat.mul_assoc, Nat.mul_div_cancel_left _ (by omega), Nat.mul_comm]
  unfold slots offsets dirEntrySize
  rw [hdiv, hco, ← range_flatMap, map_map, map_flatMap]
  apply flatMap_congr
  intro so hso
  rw [map_map]
  apply map_congr_left
  intro eo heo
  have hso := mem_range.mp hso
  have heo := mem_range.mp heo
  have hlt := (hg.clusterToSector_eq hc).2
  have hin : (so * k + eo) * 32 = so * g.bytesPerSector + eo * 32 := by
    rw [hk, Nat.add_mul, Nat.mul_assoc, Nat.mul_comm k]
  have hs : (so * k + eo) * 32 / g.bytesPerSector = so := by
    rw [hin, Nat.add_comm, Nat.add_mul_div_right _ _ hbps, Nat.div_eq_of_lt (by omega), Nat.zero_add]
  dsimp only [slotAt, Function.comp]
  rw [Nat.mod_eq_of_lt (by omega), hs, hin]
  unfold clusterOffset
  rw [Nat.add_mul, Nat.add_assoc]

lemma entryAt_slotAt (hc : g.InVolume c) (ho : o ∈ offsets g) :
    entryAt f (slotAt g c o).off = (view g f).row (c, o) := by
  unfold entryAt Disk.row
  apply map_congr_left
  intro i hi
  have hlt := mem_range.mp hi
  have hend := (mem_offsets ho).1
  unfold dirEntrySize at hlt
  dsimp only [slotAt]
  rw [view_blk _ ⟨hc, by omega⟩, Nat.add_assoc]

lemma length_row (d : Disk) (p : Place) : (d.row p).length = 32 := by
  simp [Disk.row]

lemma getD_row {i : ℕ} (hi : i < 32) (p : Place) : (d.row p).getD i 0 = d.blk p.1 (p.2 + i) := by
  unfold Disk.row
  rw [getD_eq_getElem?_getD, getElem?_map, getElem?_range hi]
  rfl

lemma row_put {q : Place} {entry : List Byte} (hp : p.2 ∈ offsets g) (hq : q.2 ∈ offsets g)
    (hlen : entry.length = 32) :
    (d.put p.1 p.2 entry).row q = if q = p then entry else d.row q := by
  have hpd := (mem_offsets hp).2
  have hqd := (mem_offsets hq).2
  split
  · rename_i heq
    subst heq
    unfold Disk.row
    apply ext_getElem
    · rw [length_map, length_range, hlen]
    intro i hi hi'
    rw [getElem_map, getElem_range, Disk.put_self, hlen, if_pos (by omega),
      Nat.add_sub_cancel_left, getD_eq_getElem _ _ hi']
  rename_i hne
  unfold Disk.row
  apply map_congr_left
  intro i hi
  have hlt := mem_range.mp hi
  by_cases hc : q.1 = p.1
  · have hot : q.2 ≠ p.2 := fun ho => hne (Prod.ext hc ho)
    rw [hc, Disk.put_self, hlen, if_neg (by omega)]
  · rw [Disk.put_of_ne _ _ _ hc]

lemma put_deleted (d : Disk) (p : Place) :
    d.put p.1 p.2 [deleted] = d.put p.1 p.2 (deleted :: (d.row p).tail) := by
  ext1
  · rfl
  funext x i
  by_cases hx : x = p.1
  · subst hx
    rw [Disk.put_self, Disk.put_self]
    have hlen : (deleted :: (d.row p).tail).length = 32 := by
      rw [length_cons, length_tail, length_row]
    rw [hlen, length_singleton]
    by_cases hf : i = p.2
    · rw [if_pos (by omega), if_pos (by omega), hf, Nat.sub_self]
      rfl
    by_cases hin : p.2 ≤ i ∧ i < p.2 + 32
    · rw [if_neg (by omega), if_pos hin]
      obtain ⟨k, hk⟩ : ∃ k, i - p.2 = k + 1 := ⟨i - p.2 - 1, by omega⟩
      rw [hk, getD_cons_succ]
      have ht : (d.row p).tail.getD k 0 = (d.row p).getD (k + 1) 0 := by
        simp [getD_eq_getElem?_getD]
      rw [ht, getD_row (by omega)]
      congr 1
      omega
    · rw [if_neg (by omega), if_neg hin]
  · rw [Disk.put_of_ne _ _ _ hx, Disk.put_of_ne _ _ _ hx]

end Rows

end Elitra.Fat32
