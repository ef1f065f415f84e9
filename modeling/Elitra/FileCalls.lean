import Elitra.Contents
import Elitra.VfsRun

namespace Elitra.Contents
open Function Option Vfs
open Pipes (Byte toI32)

/-- What the heap answers to a call: whether there is memory for a node, and for its contents. -/
structure Memory where
  node : Bool
  data : Bool
  deriving DecidableEq

/-- Whether contents are copied: the caller's `data` is not null, and there is something in it. -/
def hasData (data : Option (List Byte)) (size : ℕ) : Bool := decide (0 < size) && data.isSome

/-- The buffer of a file made from the caller's `data`; without data it stays null. -/
def copied (data : Option (List Byte)) (size : ℕ) : List Byte := (data.getD []).take size

/-- A file with new contents in the buffer, and a size of its own. -/
def Files.replace (f : Files) (node size : ℕ) (bytes : List Byte) : Files where
  vfs := { f.vfs with fs := { f.vfs.fs with size := update f.vfs.fs.size node size } }
  data := update f.data node bytes

/-- `krust_vfs_create_file`: without memory for the contents the node is freed before it is linked. -/
def krustVfsCreateFile (f : Files) (who : Option Cred) (path : CStr) (data : Option (List Byte))
    (size : ℕ) (memory : Memory) : Option (Files × ℤ) :=
  match createNode f.vfs.fs who path .file (some 2) false [] size memory.node with
  | none => none
  | some (_, none) => some (f, -1)
  | some (fs, some node) =>
    if hasData data size && !memory.data then some (f, -1)
    else
      some ({ vfs := { f.vfs with fs := fs }
              data := update f.data node (copied data size) }, 0)

/-- `krust_vfs_write_file`: the old contents are freed before memory for the new ones is asked for. -/
def krustVfsWriteFile (f : Files) (who : Option Cred) (path : CStr) (data : Option (List Byte))
    (size : ℕ) (memory : Memory) : Option (Files × ℤ) :=
  if path = [] then some (f, -1)
  else
    match krustVfsResolve f.vfs.fs path with
    | none => none
    | some none => krustVfsCreateFile f who path data size memory
    | some (some node) =>
      if f.vfs.fs.kind node = .file then
        if !checkPermission f.vfs.fs who node 2 then some (f, -1)
        else if hasData data size && !memory.data then some (f.replace node 0 [], -1)
        else some (f.replace node size (copied data size), 0)
      else krustVfsCreateFile f who path data size memory

/-- The common end of `krust_vfs_open_write`: a descriptor for the node. -/
def openFile (f : Files) (t node : ℕ) : Files × ℤ :=
  ({ f with vfs := (openNode f.vfs t node).1 }, (openNode f.vfs t node).2)

/-- `krust_vfs_open_write`: the file is truncated or made before a descriptor is looked for. -/
def krustVfsOpenWrite (f : Files) (t : ℕ) (who : Option Cred) (path : CStr) (ok : Bool) :
    Option (Files × ℤ) :=
  if path = [] then some (f, -1)
  else
    match krustVfsResolve f.vfs.fs path with
    | none => none
    | some none =>
      match createNode f.vfs.fs who path .file (some 2) false [] 0 ok with
      | none => none
      | some (_, none) => some (f, -1)
      | some (fs, some node) =>
        some (openFile ⟨{ f.vfs with fs := fs }, update f.data node []⟩ t node)
    | some (some node) =>
      if f.vfs.fs.kind node = .file then
        if !checkPermission f.vfs.fs who node 2 then some (f, -1)
        else some (openFile (f.replace node 0 []) t node)
      else some (f, -1)

def onDevice (v : State) (t : ℕ) (fd : ℤ) : Bool :=
  ((usedFd v t fd).bind fun i => (v.entry t i).node).any fun node => v.fs.kind node = .device

/-- `krust_vfs_write_fd` for every node; `n` is what a device's own function returns. -/
def writeFd (f : Files) (t : ℕ) (who : Option Cred) (fd : ℤ) (bytes : List Byte) (n : ℤ) (ok : Bool) :
    Option (Files × ℤ) :=
  if onDevice f.vfs t fd then
    let r := Vfs.krustVfsWriteFd f.vfs t who fd bytes.length n ok
    some ({ f with vfs := r.1 }, r.2)
  else (krustVfsWriteFd f t who fd bytes ok).map fun r => (r.1, r.2.value)

/-- The calls that write. -/
inductive Write where
  | file (who : Option Cred) (path : CStr) (data : Option (List Byte)) (size : ℕ) (memory : Memory)
  | openWrite (t : ℕ) (who : Option Cred) (path : CStr) (ok : Bool)
  | toFd (t : ℕ) (who : Option Cred) (fd : ℤ) (bytes : List Byte) (n : ℤ) (ok : Bool)

def Write.exec (f : Files) : Write → Option (Files × ℤ)
  | file who path data size memory => krustVfsWriteFile f who path data size memory
  | openWrite t who path ok => krustVfsOpenWrite f t who path ok
  | toFd t who fd bytes n ok => writeFd f t who fd bytes n ok

section Failure

variable {f f' : Files} {who : Option Cred} {path : CStr} {data : Option (List Byte)} {size t : ℕ}
  {memory : Memory} {ok : Bool} {r : ℤ}

/-- The tree, and size and contents of every file, are as before. -/
def Unchanged (f f' : Files) : Prop := f'.vfs.fs = f.vfs.fs ∧ f'.data = f.data

lemma Unchanged.refl (f : Files) : Unchanged f f := ⟨rfl, rfl⟩

/-- The file that the path leads to, if it may be written, is empty. -/
def EmptyFile (f : Files) (who : Option Cred) (path : CStr) : Prop :=
  ∀ node, path ≠ [] → krustVfsResolve f.vfs.fs path = some (some node) →
    f.vfs.fs.kind node = .file → checkPermission f.vfs.fs who node 2 = true →
    f.vfs.fs.size node = 0 ∧ f.data node = []

/-- A failure finds nothing to destroy: no contents to free, and no node to make. -/
def Write.Harmless (f : Files) : Write → Prop
  | file who path _ _ _ => EmptyFile f who path
  | openWrite _ who path ok => EmptyFile f who path ∧
      (path ≠ [] → krustVfsResolve f.vfs.fs path = some none →
        ∀ fs n, createNode f.vfs.fs who path .file (some 2) false [] 0 ok = some (fs, n) → n = none)
  | toFd .. => True

/-- The size of a write to a descriptor is not taken for the result -1. -/
def Write.Short : Write → Prop
  | toFd _ _ _ bytes _ _ => bytes.length < 2 ^ 32 - 1
  | _ => True

lemma unchanged_truncate (f : Files) (node : ℕ) :
    Unchanged f (f.replace node 0 []) ↔ f.vfs.fs.size node = 0 ∧ f.data node = [] := by
  constructor
  · intro h
    have hs : update f.vfs.fs.size node 0 = f.vfs.fs.size := congrArg Fs.size h.1
    have hd : update f.data node [] = f.data := h.2
    exact ⟨(update_eq_self_iff.mp hs).symm, (update_eq_self_iff.mp hd).symm⟩
  intro h
  have hs : update f.vfs.fs.size node 0 = f.vfs.fs.size :=
    update_eq_self_iff.mpr h.1.symm
  have hd : update f.data node [] = f.data := update_eq_self_iff.mpr h.2.symm
  unfold Files.replace Unchanged
  rw [hs, hd]
  exact ⟨rfl, rfl⟩

lemma createFile_failed (h : krustVfsCreateFile f who path data size memory = some (f', -1)) :
    f' = f := by
  unfold krustVfsCreateFile at h
  split at h
  · cases h
  · cases h
    rfl
  split at h
  · cases h
    rfl
  · cases h

lemma writeFile_failed (h : krustVfsWriteFile f who path data size memory = some (f', -1)) :
    Unchanged f f' ↔ EmptyFile f who path := by
  unfold krustVfsWriteFile at h
  split at h
  · rename_i hpa
    cases h
    exact iff_of_true (.refl _) fun _ hne => absurd hpa hne
  split at h
  · cases h
  · rename_i hno
    rw [createFile_failed h]
    refine iff_of_true (.refl _) fun node _ hn => ?_
    rw [hno] at hn
    cases hn
  rename_i node hn
  have hs : ∀ node', krustVfsResolve f.vfs.fs path = some (some node') → node' = node := by
    intro node' hn'
    rw [hn] at hn'
    exact (some.inj (some.inj hn')).symm
  split at h
  · rename_i hpa _ hf
    split at h
    · rename_i hd
      cases h
      refine iff_of_true (.refl _) fun node' _ hn' _ hp => ?_
      rw [hs node' hn'] at hp
      rw [hp] at hd
      cases hd
    rename_i hp
    split at h
    · cases h
      rw [unchanged_truncate]
      constructor
      · intro he node' _ hn' _ _
        rw [hs node' hn']
        exact he
      intro he
      exact he node hpa hn hf (by simpa using hp)
    · cases h
  rename_i hf
  rw [createFile_failed h]
  refine iff_of_true (.refl _) fun node' _ hn' hk => ?_
  rw [hs node' hn'] at hk
  exact absurd hk hf

lemma openFile_failed {node : ℕ} (h : openFile f t node = (f', -1)) : f' = f := by
  unfold openFile openNode at h
  split at h
  · cases h
    rfl
  have hfd := congrArg Prod.snd h
  dsimp only at hfd
  omega

lemma openWrite_failed (h : krustVfsOpenWrite f t who path ok = some (f', -1)) :
    Unchanged f f' ↔ (Write.openWrite t who path ok).Harmless f := by
  unfold krustVfsOpenWrite at h
  split at h
  · rename_i hp
    cases h
    exact iff_of_true (.refl _) ⟨fun _ hne => absurd hp hne, fun hne => absurd hp hne⟩
  rename_i hp
  split at h
  · cases h
  · rename_i hno
    have hfi : EmptyFile f who path := by
      intro node _ hn
      rw [hno] at hn
      cases hn
    split at h
    · cases h
    · rename_i hc
      cases h
      refine iff_of_true (.refl _) ⟨hfi, fun _ _ fs n hfs => ?_⟩
      rw [hc] at hfs
      cases hfs
      rfl
    rename_i fs node hc
    rw [openFile_failed (some.inj h)]
    refine iff_of_false (fun hs => ?_) fun hh => ?_
    · -- The new node has taken a number.
      rcases createNode_cases hc with ⟨-, hn⟩ | ⟨_, _, _, _, _, _, hfs, _⟩
      · cases hn
      have hfr : fs.fresh = f.vfs.fs.fresh := congrArg Fs.fresh hs.1
      rw [hfs] at hfr
      exact absurd hfr (Nat.succ_ne_self _)
    · cases hh.2 hp hno fs _ hc
  rename_i node hn
  have hf : ∀ x, krustVfsResolve f.vfs.fs path = some x → x = some node := by
    intro x hx
    rw [hn] at hx
    exact (some.inj hx).symm
  split at h
  · rename_i hfi
    split at h
    · rename_i hd
      cases h
      refine iff_of_true (.refl _) ⟨fun node' _ hn' _ hpe => ?_, fun _ hno => ?_⟩
      · rw [some.inj (hf _ hn')] at hpe
        rw [hpe] at hd
        cases hd
      · cases hf _ hno
    rename_i hpe
    rw [openFile_failed (some.inj h), unchanged_truncate]
    constructor
    · intro he
      refine ⟨fun node' _ hn' _ _ => ?_, fun _ hno => ?_⟩
      · rw [some.inj (hf _ hn')]
        exact he
      · cases hf _ hno
    intro hh
    exact hh.1 node hp hn hfi (by simpa using hpe)
  rename_i hfi
  cases h
  refine iff_of_true (.refl _) ⟨fun node' _ hn' hk => ?_, fun _ hno => ?_⟩
  · rw [some.inj (hf _ hn')] at hk
    exact absurd hk hfi
  · cases hf _ hno

lemma krustVfsWriteFd_failed {fd : ℤ} {bytes : List Byte} {r : Result}
    (h : krustVfsWriteFd f t who fd bytes ok = some (f', r)) (hr : r.value = -1)
    (hs : bytes.length < 2 ^ 32 - 1) : f' = f := by
  unfold krustVfsWriteFd at h
  split at h
  · cases h
    rfl
  dsimp only at h
  split at h
  · cases h
    rfl
  split at h
  · cases h
    rfl
  split at h
  · cases h
    rfl
  split at h
  · cases h
    rfl
  obtain ⟨f1, -, h⟩ := bind_eq_some_iff.mp h
  obtain ⟨buf, -, h⟩ := bind_eq_some_iff.mp h
  cases h
  unfold toI32 at hr
  dsimp only at hr
  omega

lemma write_device_fs {v : State} {fd : ℤ} (h : onDevice v t fd = true) (n : ℤ) :
    (Vfs.krustVfsWriteFd v t who fd size n ok).1.fs = v.fs := by
  unfold Vfs.krustVfsWriteFd
  unfold onDevice at h
  split
  · rfl
  rename_i i hi
  rw [hi, bind_some] at h
  dsimp only
  split
  · rfl
  rename_i node hn
  rw [hn] at h
  split
  · rfl
  rw [if_pos (by simpa using h)]
  rfl

lemma writeFd_failed {fd n : ℤ} {bytes : List Byte}
    (h : writeFd f t who fd bytes n ok = some (f', -1)) (hs : bytes.length < 2 ^ 32 - 1) :
    Unchanged f f' := by
  unfold writeFd at h
  split at h
  · rename_i hd
    obtain ⟨hf', -⟩ := Prod.mk.inj (some.inj h)
    rw [← hf']
    exact ⟨write_device_fs hd n, rfl⟩
  obtain ⟨⟨f1, r⟩, hw, heq⟩ := map_eq_some_iff.mp h
  obtain ⟨hf', hr⟩ := Prod.mk.inj heq
  rw [← hf', krustVfsWriteFd_failed hw hr hs]
  exact .refl _

/-- A call that returns -1 has changed nothing exactly if there was nothing to free or to make. -/
theorem failed_write_unchanged_iff (f f' : Files) (c : Write) (h : c.exec f = some (f', -1))
    (hshort : c.Short) : Unchanged f f' ↔ c.Harmless f := by
  cases c with
  | file who path data size memory => exact writeFile_failed h
  | openWrite t who path ok => exact openWrite_failed h
  | toFd t who fd bytes n ok => exact iff_of_true (writeFd_failed h hshort) trivial

/-- The file `a` with one byte in it, and a task that has a table without free descriptors. -/
def fullTable : Files where
  vfs :=
    { fs := { krustVfsInit.fs with
        kind := update (fun _ => .dir) 1 .file
        name := update (fun _ => []) 1 [97]
        parent := fun _ => some root
        children := update (fun _ => none) root (some 1)
        size := update (fun _ => 0) 1 1
        fresh := 2 }
      tables := fun _ => some fun _ => ⟨some 1, 0, 0, true, 1⟩ }
  data := update (fun _ => []) 1 [65]

theorem failed_write_unchanged_iff_denied :
    Unchanged fullTable fullTable ↔
      (Write.file (some ⟨1, 1⟩) [97] (some [66]) 1 ⟨true, false⟩).Harmless fullTable :=
  failed_write_unchanged_iff fullTable fullTable
    (.file (some ⟨1, 1⟩) [97] (some [66]) 1 ⟨true, false⟩) rfl trivial

/-- Without memory for the new contents `write_file` loses the old ones; without a free descriptor
`open_write` does, or it leaves a new file. -/
theorem failed_write_destroys :
    (∃ f', (Write.file none [97] (some [66]) 1 ⟨true, false⟩).exec fullTable = some (f', -1) ∧
      f'.data 1 = [] ∧ f'.vfs.fs.size 1 = 0) ∧
    (∃ f', (Write.openWrite 0 none [97] true).exec fullTable = some (f', -1) ∧ f'.data 1 = []) ∧
    (∃ f', (Write.openWrite 0 none [98] true).exec fullTable = some (f', -1) ∧
      f'.vfs.fs.children root = some 2) ∧
    fullTable.data 1 = [65] ∧ fullTable.vfs.fs.size 1 = 1 ∧
      fullTable.vfs.fs.children root = some 1 :=
  ⟨⟨_, rfl, rfl, rfl⟩, ⟨_, rfl, rfl⟩, ⟨_, rfl, rfl⟩, rfl, rfl, rfl⟩

end Failure

end Elitra.Contents
