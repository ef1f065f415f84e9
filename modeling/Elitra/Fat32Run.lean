import Elitra.Fat32
import Mathlib.Data.List.Basic
import Mathlib.Order.Basic

namespace Elitra.Fat32
open List StateRun

variable {g : Instance} {P : Vol → Prop} {v v' : Vol}

/-- A property that the writes of the driver keep. -/
structure Stable (g : Instance) (P : Vol → Prop) : Prop where
  setFat : ∀ v c value, g.bytesPerSector ≠ 0 → P v → P (v.setFat g c value)
  writeSlot : ∀ v c s bytes, s ∈ slots g c → bytes.length ≤ 32 → P v → P (v.writeSlot g c s bytes)
  clearCluster : ∀ v c entries, entries.length ≤ 64 → P v → P (v.clearCluster g c entries)
  writeCluster : ∀ v c chunk, chunk.length ≤ g.bytesPerCluster → P v → P (v.writeCluster g c chunk)

lemma length_field (text : List Byte) (n : ℕ) :
    ((text.take n).map upper ++ List.replicate (n - text.length) space).length = n := by
  simp only [length_append, length_map, length_take, length_replicate]
  omega

lemma length_nameToSfn (name : Name) : (krustFat32NameToSfn name).length = 11 := by
  simp only [krustFat32NameToSfn]
  rw [length_append, length_field, length_field]

lemma length_makeEntry {sfn : List Byte} (h : sfn.length = 11) (attr : Byte) (cluster size : ℕ) :
    (makeEntry sfn attr cluster size).length = 32 := by
  simp [makeEntry, bytes16, bytes32, h]

lemma length_entryAt (f : ℕ → Byte) (off : ℕ) : (entryAt f off).length = 32 := by
  simp [entryAt, dirEntrySize]

lemma getFatEntry_eq_some {c n : ℕ} (h : krustFat32GetFatEntry g c v = some (n, v')) :
    v' = v ∧ n = fatEntry g v.byte c ∧ g.bytesPerSector ≠ 0 := by
  unfold krustFat32GetFatEntry at h
  split at h
  · cases h
  cases h
  exact ⟨rfl, rfl, ‹_›⟩

lemma scanSlots_here {f : ℕ → Byte} {sfn : Option (List Byte)} {ss : List Slot} {s : Slot}
    (h : scanSlots f sfn ss = some (.here s)) : s ∈ ss := by
  induction ss with
  | nil => cases h
  | cons t ss ih =>
    unfold scanSlots at h
    split at h
    · cases h
    split at h
    · exact mem_cons_of_mem _ (ih h)
    split at h
    · cases h
    split at h
    · cases h
      exact mem_cons_self
    · exact mem_cons_of_mem _ (ih h)

lemma locate_eq_some {name : Name} {fuel c : ℕ} {r : Option (ℕ × Slot)}
    (h : locate g name fuel c v = some (r, v')) :
    v' = v ∧ ∀ p, r = some p → p.2 ∈ slots g p.1 := by
  induction fuel generalizing c with
  | zero => cases h
  | succ fuel ih =>
    unfold locate at h
    obtain ⟨v1, v2, hget, h⟩ := bind_eq_some.mp h
    cases hget
    cases hs : scanSlots v.byte (matchName name) (slots g c) with
    | none =>
      rw [hs] at h
      cases h
    | some scan =>
      rw [hs] at h
      cases scan with
      | here s =>
        cases h
        refine ⟨rfl, ?_⟩
        intro p hp
        cases hp
        exact scanSlots_here hs
      | stop =>
        cases h
        exact ⟨rfl, fun p hp => (by cases hp)⟩
      | next =>
        obtain ⟨n, v3, hn, hr⟩ := bind_eq_some.mp h
        have hv := (getFatEntry_eq_some hn).1
        subst hv
        rw [ite_apply] at hr
        split at hr
        · cases hr
          exact ⟨rfl, fun p hp => (by cases hp)⟩
        · exact ih hr

lemma findDirEntry_eq_some {fuel dir : ℕ} {name : Name} {r : Option (List Byte)}
    (h : krustFat32FindDirEntry g fuel dir name v = some (r, v')) :
    v' = v ∧ ∀ entry, r = some entry → entry.length = 32 := by
  unfold krustFat32FindDirEntry at h
  obtain ⟨found, v1, hl, h⟩ := bind_eq_some.mp h
  have hv := (locate_eq_some hl).1
  subst hv
  cases found with
  | none =>
    cases h
    exact ⟨rfl, fun entry he => (by cases he)⟩
  | some p =>
    cases h
    refine ⟨rfl, ?_⟩
    intro entry he
    cases he
    exact length_entryAt _ _

section Calls

lemma keeps_getFatEntry (g : Instance) (P : Vol → Prop) (c : ℕ) : Keeps P (krustFat32GetFatEntry g c) := by
  intro v n v' hv hn
  rw [(getFatEntry_eq_some hn).1]
  exact hv

variable (h : Stable g P)
include h

lemma Stable.setFatEntry (c value : ℕ) : Keeps P (krustFat32SetFatEntry g c value) := by
  apply Keeps.ite
  · intro _
    exact Keeps.fail
  intro hbps
  exact Keeps.modify fun v => h.setFat v c value hbps

lemma Stable.allocCluster : Keeps P (krustFat32AllocCluster g) := by
  unfold krustFat32AllocCluster
  induction range' 2 (g.totalClusters - 2) with
  | nil => exact Keeps.pure 0
  | cons c cs ih =>
    apply Keeps.bind (keeps_getFatEntry g P c)
    intro e
    apply Keeps.ite
    · intro _
      exact Keeps.bind (h.setFatEntry c fat32Eoc) fun _ => Keeps.pure c
    intro _
    exact ih

lemma Stable.freeChain (fuel c : ℕ) : Keeps P (krustFat32FreeChain g fuel c) := by
  induction fuel generalizing c with
  | zero => exact Keeps.fail
  | succ fuel ih =>
    apply Keeps.bind (keeps_getFatEntry g P c)
    intro n
    apply Keeps.bind (h.setFatEntry c fat32Free)
    intro _
    apply Keeps.ite
    · intro _
      exact Keeps.pure _
    intro _
    exact ih n

lemma Stable.growDir (last : ℕ) {entry : List Byte} (hlen : entry.length ≤ 32) :
    Keeps P (growDir g last entry) := by
  apply Keeps.bind h.allocCluster
  intro nc
  apply Keeps.ite
  · intro _
    exact Keeps.pure _
  intro _
  apply Keeps.bind (h.setFatEntry last nc)
  intro _
  apply Keeps.bind
  · exact Keeps.modify fun v => h.clearCluster v nc entry (by omega)
  intro _
  exact Keeps.pure _

lemma Stable.addDirEntry {entry : List Byte} (hlen : entry.length ≤ 32) (fuel c : ℕ) :
    Keeps P (krustFat32AddDirEntry g entry fuel c) := by
  induction fuel generalizing c with
  | zero => exact Keeps.fail
  | succ fuel ih =>
    apply Keeps.get_bind
    intro v
    cases hf : (slots g c).find? fun s => v.byte s.off = 0 ∨ v.byte s.off = deleted with
    | some s =>
      apply Keeps.bind
      · exact Keeps.modify fun v => h.writeSlot v c s entry (mem_of_find?_eq_some hf) hlen
      intro _
      exact Keeps.pure _
    | none =>
      apply Keeps.bind (keeps_getFatEntry g P c)
      intro n
      apply Keeps.ite
      · intro _
        exact h.growDir c hlen
      intro _
      exact ih n

lemma Stable.removeEntry (fuel dir : ℕ) (name : Name) : Keeps P (removeEntry g fuel dir name) := by
  intro v r v' hv hr
  obtain ⟨found, v1, hl, hre⟩ := bind_eq_some.mp hr
  obtain ⟨heq, hs⟩ := locate_eq_some hl
  subst heq
  cases found with
  | none =>
    cases hre
    exact hv
  | some p =>
    cases hre
    exact h.writeSlot v1 p.1 p.2 [deleted] (hs p rfl) (by decide) hv

lemma Stable.freeEntry (fuel : ℕ) (entry : List Byte) : Keeps P (freeEntry g fuel entry) := by
  apply Keeps.ite
  · intro _
    exact h.freeChain fuel _
  intro _
  exact Keeps.pure _

lemma Stable.allocChain (fuel n first prev : ℕ) : Keeps P (allocChain g fuel n first prev) := by
  induction n generalizing first prev with
  | zero => exact Keeps.pure _
  | succ n ih =>
    apply Keeps.bind h.allocCluster
    intro c
    apply Keeps.ite
    · intro _
      apply Keeps.ite
      · intro _
        exact Keeps.bind (h.freeChain fuel first) fun _ => Keeps.pure _
      intro _
      exact Keeps.pure _
    intro _
    apply Keeps.ite
    · intro _
      exact Keeps.bind (h.setFatEntry prev c) fun _ => ih first c
    intro _
    exact ih c c

lemma Stable.writeData (fuel c : ℕ) (data : List Byte) : Keeps P (writeData g fuel c data) := by
  induction fuel generalizing c data with
  | zero => exact Keeps.fail
  | succ fuel ih =>
    apply Keeps.ite
    · intro _
      exact Keeps.pure _
    intro _
    apply Keeps.bind
    · exact Keeps.modify fun v => h.writeCluster v c _ (length_take_le _ _)
    intro _
    apply Keeps.ite
    · intro _
      exact Keeps.pure _
    intro _
    exact Keeps.bind (keeps_getFatEntry g P c) fun n => ih n _

lemma Stable.writeChain (fuel dir : ℕ) (name : Name) (data : List Byte) :
    Keeps P (writeChain g fuel dir name data) := by
  apply Keeps.ite
  · intro _
    exact Keeps.fail
  intro _
  apply Keeps.ite
  · intro _
    exact Keeps.pure _
  intro _
  apply Keeps.bind (h.allocChain fuel _ 0 0)
  intro first
  cases first with
  | none => exact Keeps.pure _
  | some first =>
    apply Keeps.bind (h.writeData fuel first data)
    intro _
    have hlen := length_makeEntry (length_nameToSfn name) attrArchive first data.length
    exact Keeps.bind (h.addDirEntry hlen.le fuel dir) fun _ => Keeps.pure _

lemma Stable.writeFile (fuel dir : ℕ) (name : Name) (data : List Byte) :
    Keeps P (krustFat32WriteFile g fuel dir name data) := by
  have hre : Keeps P (do
      if data = [] then
        let ok ← krustFat32AddDirEntry g
          (makeEntry (krustFat32NameToSfn name) attrArchive 0 0) fuel dir
        return if ok then 0 else -1
      else Fat32.writeChain g fuel dir name data : Prog Vol ℤ) := by
    apply Keeps.ite
    · intro _
      have hlen := length_makeEntry (length_nameToSfn name) attrArchive 0 0
      exact Keeps.bind (h.addDirEntry hlen.le fuel dir) fun _ => Keeps.pure _
    intro _
    exact h.writeChain fuel dir name data
  intro v r v' hv hr
  obtain ⟨found, v1, hf, hr⟩ := bind_eq_some.mp hr
  have heq := (findDirEntry_eq_some hf).1
  subst heq
  cases found with
  | none => exact hre v1 r v' hv hr
  | some entry => exact Keeps.bind (h.freeEntry fuel entry) (fun _ => hre) v1 r v' hv hr

lemma Stable.createDir (fuel dir : ℕ) (name : Name) :
    Keeps P (krustFat32CreateDir g fuel dir name) := by
  apply Keeps.bind h.allocCluster
  intro nc
  apply Keeps.ite
  · intro _
    exact Keeps.pure _
  intro _
  have hd : ∀ parent, (dotEntries nc parent).length ≤ 64 := by
    intro parent
    unfold dotEntries
    rw [length_append, length_makeEntry (by simp), length_makeEntry (by simp)]
  apply Keeps.bind
  · exact Keeps.modify fun v => h.clearCluster v nc _ (hd _)
  intro _
  have hlen := length_makeEntry (length_nameToSfn name) attrDirectory nc 0
  exact Keeps.bind (h.addDirEntry hlen.le fuel dir) fun _ => Keeps.pure _

lemma Stable.deleteEntry (fuel dir : ℕ) (name : Name) : Keeps P (deleteEntry g fuel dir name) := by
  intro v r v' hv hr
  obtain ⟨found, v1, hf, hr⟩ := bind_eq_some.mp hr
  have heq := (findDirEntry_eq_some hf).1
  subst heq
  cases found with
  | none =>
    cases hr
    exact hv
  | some entry =>
    exact Keeps.bind (h.freeEntry fuel entry) (fun _ => h.removeEntry fuel dir name) v1 r v' hv hr

lemma Stable.renameEntry (fuel oldDir : ℕ) (oldName : Name) (newDir : ℕ) (newName : Name) :
    Keeps P (krustFat32RenameEntry g fuel oldDir oldName newDir newName) := by
  intro v r v' hv hr
  obtain ⟨found, v1, hf, hr⟩ := bind_eq_some.mp hr
  obtain ⟨heq, hlen⟩ := findDirEntry_eq_some hf
  subst heq
  cases found with
  | none =>
    cases hr
    exact hv
  | some entry =>
    have hnew : (krustFat32NameToSfn newName ++ entry.drop 11).length ≤ 32 := by
      rw [length_append, length_nameToSfn, length_drop, hlen entry rfl]
    have hre : ∀ ok : Bool, Keeps P (if ok then Fat32.removeEntry g fuel oldDir oldName
        else return -1 : Prog Vol ℤ) := by
      intro ok
      apply Keeps.ite
      · intro _
        exact h.removeEntry fuel oldDir oldName
      intro _
      exact Keeps.pure _
    exact Keeps.bind (h.addDirEntry hnew fuel newDir) hre v1 r v' hv hr

lemma Stable.exec (fuel : ℕ) (call : Call) : Keeps P (call.exec g fuel) := by
  cases call with
  | allocCluster => exact Keeps.bind h.allocCluster fun _ => Keeps.pure _
  | freeCluster c => exact Keeps.bind (h.setFatEntry c fat32Free) fun _ => Keeps.pure _
  | freeChain start => exact Keeps.bind (h.freeChain fuel start) fun _ => Keeps.pure _
  | addDirEntry dir entry =>
    exact Keeps.bind (h.addDirEntry (by simp) fuel dir) fun _ => Keeps.pure _
  | writeFile dir name data => exact h.writeFile fuel dir name data
  | createDir dir name => exact h.createDir fuel dir name
  | deleteFile dir name => exact h.deleteEntry fuel dir name
  | deleteDir dir name => exact h.deleteEntry fuel dir name
  | renameEntry oldDir oldName newDir newName =>
    exact h.renameEntry fuel oldDir oldName newDir newName

end Calls

end Elitra.Fat32
