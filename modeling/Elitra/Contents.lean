import Elitra.Pipes
import Elitra.Vfs
import Mathlib.Data.BitVec

namespace Elitra.Contents
open Function List Option Vfs
open Pipes (Byte toI32 toI32_eq)

/-- The file system with the buffer behind each node. -/
structure Files where
  vfs : State
  data : ℕ → List Byte

/-- What a call returns, with the bytes a read stores. -/
structure Result where
  value : ℤ
  bytes : List Byte
  deriving DecidableEq

def failed : Result := ⟨-1, []⟩

def toI64 (z : ℤ) : ℤ := (z + 2 ^ 63) % 2 ^ 64 - 2 ^ 63

/-- `memcpy` to the offset `off` of a buffer; `none` is a write outside of it. -/
def store (buf : List Byte) (off : ℕ) (bytes : List Byte) : Option (List Byte) :=
  if off + bytes.length ≤ buf.length then
    some (buf.take off ++ bytes ++ buf.drop (off + bytes.length))
  else none

/-- `krust_vfs_read` for a node that is not a device. Here and below the outer `none` is an access
outside of the node's buffer. -/
def krustVfsRead (f : Files) (t : ℕ) (who : Option Cred) (fd : ℤ) (size : ℕ) :
    Option (Files × Result) :=
  match usedFd f.vfs t fd with
  | none => some (f, failed)
  | some i =>
    let e := f.vfs.entry t i
    match e.node with
    | none => some (f, failed)
    | some node =>
      if !checkPermission f.vfs.fs who node 4 then some (f, failed)
      else if f.vfs.fs.size node ≤ e.offset then some (f, ⟨0, []⟩)
      else
        let toRead := min size (f.vfs.fs.size node - e.offset)
        if e.offset + toRead ≤ (f.data node).length then
          some ({ f with vfs := f.vfs.set t i { e with offset := e.offset + toRead } },
            ⟨toI32 toRead, ((f.data node).drop e.offset).take toRead⟩)
        else none

/-- The growth of a file in `krust_vfs_write_fd`: the old bytes, and zeros behind them. -/
def grow (f : Files) (node newSize : ℕ) : Option Files :=
  let size := f.vfs.fs.size node
  if newSize ≤ size then some f
  else if (f.data node).length < size then none
  else
    some
      { vfs := { f.vfs with
          fs := { f.vfs.fs with size := update f.vfs.fs.size node newSize } }
        data := update f.data node
          ((f.data node).take size ++ List.replicate (newSize - size) 0) }

/-- `krust_vfs_write_fd` for a node that is not a device; `ok` is whether memory for a larger file was
found. The new size is computed in 32 bits. -/
def krustVfsWriteFd (f : Files) (t : ℕ) (who : Option Cred) (fd : ℤ) (bytes : List Byte) (ok : Bool) :
    Option (Files × Result) :=
  match usedFd f.vfs t fd with
  | none => some (f, failed)
  | some i =>
    let e := f.vfs.entry t i
    match e.node with
    | none => some (f, failed)
    | some node =>
      if !checkPermission f.vfs.fs who node 2 then some (f, failed)
      else if f.vfs.fs.kind node ≠ .file then some (f, failed)
      else
        let newSize := (e.offset + bytes.length) % 2 ^ 32
        if f.vfs.fs.size node < newSize ∧ !ok then some (f, failed)
        else do
          let f ← grow f node newSize
          let buf ← store (f.data node) e.offset bytes
          return ({ vfs := f.vfs.set t i { e with offset := newSize }
                    data := update f.data node buf },
            ⟨toI32 bytes.length, []⟩)

/-- `krust_vfs_lseek`; the offset is kept in 32 bits. -/
def krustVfsLseek (f : Files) (t : ℕ) (fd : ℤ) (offset : BitVec 64) (whence : ℤ) :
    Option (Files × Result) :=
  match usedFd f.vfs t fd with
  | none => some (f, failed)
  | some i =>
    let e := f.vfs.entry t i
    let pos : Option ℤ :=
      if whence = 0 then some offset.toInt
      else if whence = 1 then some (toI64 (e.offset + offset.toInt))
      else if whence = 2 then
        e.node.map fun node => toI64 ((f.vfs.fs.size node : ℤ) + offset.toInt)
      else none
    match pos with
    | none => some (f, failed)
    | some p =>
      if p < 0 then some (f, failed)
      else
        some ({ f with vfs := f.vfs.set t i { e with offset := p.toNat % 2 ^ 32 } }, ⟨p, []⟩)

inductive Call where
  | read (t : ℕ) (who : Option Cred) (fd : ℕ) (size : ℕ)
  | write (t : ℕ) (who : Option Cred) (fd : ℕ) (bytes : List Byte) (ok : Bool)
  | lseek (t fd : ℕ) (offset : BitVec 64) (whence : ℤ)

def Call.task : Call → ℕ
  | read t _ _ _ => t
  | write t _ _ _ _ => t
  | lseek t _ _ _ => t

def Call.fd : Call → ℕ
  | read _ _ fd _ => fd
  | write _ _ fd _ _ => fd
  | lseek _ fd _ _ => fd

def Call.exec (f : Files) : Call → Option (Files × Result)
  | read t who fd size => krustVfsRead f t who fd size
  | write t who fd bytes ok => krustVfsWriteFd f t who fd bytes ok
  | lseek t fd offset whence => krustVfsLseek f t fd offset whence

def run : Files → List Call → Option (Files × List Result)
  | f, [] => some (f, [])
  | f, c :: calls => do
    let (f, r) ← c.exec f
    let (f, rs) ← run f calls
    return (f, r :: rs)

/-- A file as its users see it. -/
structure Arr where
  bytes : List Byte
  offset : ℕ → ℕ → ℕ

def Arr.seek (a : Arr) (t fd off : ℕ) : Arr :=
  { a with offset := update a.offset t (update (a.offset t) fd off) }

/-- The bytes at `off` replaced, with zeros over a gap. -/
def overwrite (l : List Byte) (off : ℕ) (bytes : List Byte) : List Byte :=
  l.take off ++ List.replicate (off - l.length) 0 ++ bytes ++ l.drop (off + bytes.length)

def Arr.position (a : Arr) (t fd : ℕ) (offset whence : ℤ) : Option ℤ :=
  if whence = 0 then some offset
  else if whence = 1 then some (a.offset t fd + offset)
  else if whence = 2 then some (a.bytes.length + offset)
  else none

/-- What a call does to the array; `allowed` is whether the caller may make it. -/
def Arr.step (allowed : Call → Bool) (a : Arr) (c : Call) : Arr × Result :=
  match c with
  | .read t _ fd size =>
    if allowed c then
      let got := (a.bytes.drop (a.offset t fd)).take size
      (a.seek t fd (a.offset t fd + got.length), ⟨got.length, got⟩)
    else (a, failed)
  | .write t _ fd bytes ok =>
    if allowed c ∧ (ok ∨ a.offset t fd + bytes.length ≤ a.bytes.length) then
      ({ a.seek t fd (a.offset t fd + bytes.length) with
          bytes := overwrite a.bytes (a.offset t fd) bytes },
        ⟨bytes.length, []⟩)
    else (a, failed)
  | .lseek t fd offset whence =>
    match a.position t fd offset.toInt whence with
    | none => (a, failed)
    | some p => if p < 0 then (a, failed) else (a.seek t fd p.toNat, ⟨p, []⟩)

def Arr.run (allowed : Call → Bool) : Arr → List Call → Arr × List Result
  | a, [] => (a, [])
  | a, c :: calls =>
    let r := a.step allowed c
    let rs := Arr.run allowed r.1 calls
    (rs.1, r.2 :: rs.2)

/-- The permission check of a call on the node `file`. -/
def Call.allowed (fs : Fs) (file : ℕ) : Call → Bool
  | read _ who _ _ => checkPermission fs who file 4
  | write _ who _ _ _ => checkPermission fs who file 2
  | lseek _ _ _ _ => true

/-- The numbers of a call stay within the source's types. -/
def Call.Small (allowed : Call → Bool) (a : Arr) (c : Call) : Prop :=
  match c with
  | .read t _ fd size => min size (a.bytes.length - a.offset t fd) < 2 ^ 31
  | .write t _ fd bytes _ =>
    allowed c → a.offset t fd + bytes.length < 2 ^ 32 ∧ bytes.length < 2 ^ 31
  | .lseek t fd offset whence =>
    ∀ p, a.position t fd offset.toInt whence = some p → p < 2 ^ 32

def AllSmall (allowed : Call → Bool) : Arr → List Call → Prop
  | _, [] => True
  | a, c :: calls => c.Small allowed a ∧ AllSmall allowed (a.step allowed c).1 calls

variable {r : Result} {who : Option Cred}

section Simulation

/-- The descriptor `fd` of the task `t` is open on the node `file`. -/
def OpenOn (v : State) (file t fd : ℕ) : Prop :=
  fd < maxFds ∧ (v.entry t fd).used = true ∧ (v.entry t fd).node = some file

/-- The array that a regular file stands for. -/
structure Represents (f : Files) (file : ℕ) (a : Arr) : Prop where
  kind : f.vfs.fs.kind file = .file
  data : f.data file = a.bytes
  size : f.vfs.fs.size file = a.bytes.length
  fits : a.bytes.length < 2 ^ 32
  offset : ∀ t fd, OpenOn f.vfs file t fd → (f.vfs.entry t fd).offset = a.offset t fd

/-- What no call changes: who may do what, and which descriptors are open. -/
structure Keeps (f f' : Files) (file : ℕ) : Prop where
  uid : f'.vfs.fs.uid = f.vfs.fs.uid
  gid : f'.vfs.fs.gid = f.vfs.fs.gid
  mode : f'.vfs.fs.mode = f.vfs.fs.mode
  opened : ∀ t fd, OpenOn f'.vfs file t fd ↔ OpenOn f.vfs file t fd

variable {f f' : Files} {v : State} {file t fd : ℕ} {a : Arr}

lemma Keeps.refl (f : Files) (file : ℕ) : Keeps f f file := ⟨rfl, rfl, rfl, fun _ _ => Iff.rfl⟩

lemma Keeps.trans {f'' : Files} (h : Keeps f f' file) (h' : Keeps f' f'' file) :
    Keeps f f'' file :=
  ⟨h'.uid.trans h.uid, h'.gid.trans h.gid, h'.mode.trans h.mode, fun t fd =>
    (h'.opened t fd).trans (h.opened t fd)⟩

lemma Keeps.allowed (h : Keeps f f' file) : Call.allowed f'.vfs.fs file = Call.allowed f.vfs.fs file := by
  funext c
  cases c <;> simp [Call.allowed, checkPermission, h.uid, h.gid, h.mode]

lemma OpenOn.usedFd (h : OpenOn v file t fd) : Vfs.usedFd v t fd = some fd := by
  unfold Vfs.usedFd
  rw [if_neg]
  · rfl
  have hmax := h.1
  have hu := h.2.1
  simp only [Int.toNat_natCast, hu]
  simp
  exact hmax

lemma entry_set_of_used (h : (v.entry t fd).used = true) (e : Entry) (t' fd' : ℕ) :
    (v.set t fd e).entry t' fd' = if t' = t ∧ fd' = fd then e else v.entry t' fd' := by
  unfold State.entry at h
  unfold State.set State.entry
  dsimp only
  cases hta : v.tables t with
  | none =>
    rw [hta] at h
    exact absurd h Bool.false_ne_true
  | some table =>
    by_cases ht : t' = t
    · subst ht
      rw [update_self, hta]
      by_cases hfd : fd' = fd
      · subst hfd
        simp
      · simp [hfd]
    · rw [update_of_ne ht, if_neg fun hc => ht hc.1]

def Files.seek (f : Files) (t fd off : ℕ) : Files :=
  { f with vfs := f.vfs.set t fd { f.vfs.entry t fd with offset := off } }

lemma Files.seek_eq (h : OpenOn f.vfs file t fd) (off : ℕ) :
    f.seek t fd off = { f with
      vfs := f.vfs.set t fd ⟨some file, off, (f.vfs.entry t fd).flags, (f.vfs.entry t fd).used,
        (f.vfs.entry t fd).refcount⟩ } := by
  unfold Files.seek
  dsimp only
  rw [h.2.2]

lemma openOn_seek (h : OpenOn f.vfs file t fd) (off t' fd' : ℕ) :
    OpenOn (f.seek t fd off).vfs file t' fd' ↔ OpenOn f.vfs file t' fd' := by
  unfold OpenOn Files.seek
  dsimp only
  rw [entry_set_of_used h.2.1]
  split
  · rename_i heq
    rw [heq.1, heq.2]
  · rfl

lemma Keeps.seek (h : OpenOn f.vfs file t fd) (off : ℕ) : Keeps f (f.seek t fd off) file :=
  ⟨rfl, rfl, rfl, openOn_seek h off⟩

lemma Represents.seek (h : Represents f file a) (ho : OpenOn f.vfs file t fd) (off : ℕ) :
    Represents (f.seek t fd off) file (a.seek t fd off) where
  kind := h.kind
  data := h.data
  size := h.size
  fits := h.fits
  offset := by
    intro t' fd' ho'
    have hold := h.offset t' fd' ((openOn_seek ho off t' fd').mp ho')
    unfold Files.seek Arr.seek
    dsimp only
    rw [entry_set_of_used ho.2.1]
    by_cases ht : t' = t
    · subst ht
      rw [update_self]
      by_cases hfd : fd' = fd
      · subst hfd
        simp
      rw [if_neg fun hc => hfd hc.2, update_of_ne hfd]
      exact hold
    rw [if_neg fun hc => ht hc.1, update_of_ne ht]
    exact hold

lemma Arr.seek_offset (a : Arr) (t fd : ℕ) : a.seek t fd (a.offset t fd) = a := by
  unfold Arr.seek
  rw [update_eq_self, update_eq_self]

lemma read_step (h : Represents f file a) (ho : OpenOn f.vfs file t fd) (who : Option Cred)
    (size : ℕ) (hs : (Call.read t who fd size).Small (Call.allowed f.vfs.fs file) a) :
    ∃ f', krustVfsRead f t who fd size =
        some (f', (a.step (Call.allowed f.vfs.fs file) (.read t who fd size)).2) ∧
      Represents f' file (a.step (Call.allowed f.vfs.fs file) (.read t who fd size)).1 ∧
      Keeps f f' file := by
  have hoff := h.offset t fd ho
  unfold krustVfsRead
  rw [ho.usedFd]
  dsimp only
  rw [ho.2.2]
  dsimp only [Arr.step]
  by_cases hp : checkPermission f.vfs.fs who file 4 = true
  · have hyes : Call.allowed f.vfs.fs file (.read t who fd size) = true := hp
    rw [hyes, hp, hoff, h.size, h.data]
    simp only [Bool.not_true, Bool.false_eq_true, if_false, if_true]
    by_cases hend : a.bytes.length ≤ a.offset t fd
    · -- At the end of the file nothing is read and the offset stays.
      rw [if_pos hend, drop_of_length_le hend, take_nil, length_nil, Nat.add_zero, Arr.seek_offset]
      exact ⟨f, rfl, h, Keeps.refl f file⟩
    have hlen : ((a.bytes.drop (a.offset t fd)).take size).length =
        min size (a.bytes.length - a.offset t fd) := by
      rw [length_take, length_drop]
    rw [if_neg hend, if_pos (by omega), hlen, toI32_eq hs]
    refine ⟨f.seek t fd _, ?_, h.seek ho _, Keeps.seek ho _⟩
    rw [Files.seek_eq ho, ← length_drop, ← take_eq_take_min]
  have hno : ¬ Call.allowed f.vfs.fs file (.read t who fd size) = true := hp
  rw [if_pos (by simpa using hp), if_neg hno]
  exact ⟨f, rfl, h, Keeps.refl f file⟩

lemma toI64_eq {z : ℤ} (hlow : -2 ^ 63 ≤ z) (hh : z < 2 ^ 63) : toI64 z = z := by
  unfold toI64
  omega

/-- The position of an `lseek` is computed without overflow when it is below `2 ^ 32`. -/
lemma lseek_step (h : Represents f file a) (ho : OpenOn f.vfs file t fd) (offset : BitVec 64)
    (whence : ℤ)
    (hs : (Call.lseek t fd offset whence).Small (Call.allowed f.vfs.fs file) a) :
    ∃ f', krustVfsLseek f t fd offset whence =
        some (f', (a.step (Call.allowed f.vfs.fs file) (.lseek t fd offset whence)).2) ∧
      Represents f' file (a.step (Call.allowed f.vfs.fs file) (.lseek t fd offset whence)).1 ∧
      Keeps f f' file := by
  have hoff := h.offset t fd ho
  have hlow : -2 ^ 63 ≤ offset.toInt := by
    have hle := BitVec.le_toInt offset
    simpa using hle
  have hpos : (if whence = 0 then some offset.toInt
      else if whence = 1 then some (toI64 ((f.vfs.entry t fd).offset + offset.toInt))
      else if whence = 2 then
        (f.vfs.entry t fd).node.map fun node => toI64 ((f.vfs.fs.size node : ℤ) + offset.toInt)
      else none) = a.position t fd offset.toInt whence := by
    have hb : ∀ p, a.position t fd offset.toInt whence = some p → p < 2 ^ 32 := hs
    unfold Arr.position at hb ⊢
    rw [ho.2.2, map_some, h.size, hoff]
    split
    · rfl
    split
    · have hp := hb (a.offset t fd + offset.toInt) (by simp [*])
      rw [toI64_eq (by omega) (by omega)]
    split
    · have hp := hb (a.bytes.length + offset.toInt) (by simp [*])
      rw [toI64_eq (by omega) (by omega)]
    · rfl
  unfold krustVfsLseek
  rw [ho.usedFd]
  dsimp only [Arr.step]
  rw [hpos]
  cases hp : a.position t fd offset.toInt whence with
  | none => exact ⟨f, rfl, h, Keeps.refl f file⟩
  | some p =>
    have hlt : p < 2 ^ 32 := hs p hp
    dsimp only
    split
    · exact ⟨f, rfl, h, Keeps.refl f file⟩
    have hmod : p.toNat % 2 ^ 32 = p.toNat := by
      apply Nat.mod_eq_of_lt
      omega
    rw [hmod]
    exact ⟨f.seek t fd p.toNat, rfl, h.seek ho _, Keeps.seek ho _⟩

def Files.put (f : Files) (file : ℕ) (bytes : List Byte) : Files where
  vfs := { f.vfs with
    fs := { f.vfs.fs with size := update f.vfs.fs.size file bytes.length } }
  data := update f.data file bytes

lemma Represents.put (h : Represents f file a) (bytes : List Byte) (hf : bytes.length < 2 ^ 32) :
    Represents (f.put file bytes) file { a with bytes := bytes } where
  kind := h.kind
  data := update_self ..
  size := update_self ..
  fits := hf
  offset := h.offset

/-- The contents are written in two steps: a buffer of the new length, then the bytes. -/
lemma put_put (f : Files) (file : ℕ) (bytes bytes' : List Byte) (h : bytes'.length = bytes.length) :
    { f.put file bytes with data := update (f.put file bytes).data file bytes' } =
      f.put file bytes' := by
  unfold Files.put
  dsimp only
  rw [update_idem, h]

lemma Keeps.put (f : Files) (file : ℕ) (bytes : List Byte) : Keeps f (f.put file bytes) file :=
  ⟨rfl, rfl, rfl, fun _ _ => Iff.rfl⟩

lemma length_overwrite (l : List Byte) (off : ℕ) (bytes : List Byte) :
    (overwrite l off bytes).length = max l.length (off + bytes.length) := by
  simp only [overwrite, length_append, length_take, length_replicate, length_drop]
  omega

lemma length_overwrite_eq_padded (l : List Byte) (off : ℕ) (bytes : List Byte) :
    (overwrite l off bytes).length =
      (l ++ List.replicate (off + bytes.length - l.length) (0 : Byte)).length := by
  rw [length_overwrite, length_append, length_replicate]
  omega

lemma store_padded (l : List Byte) (off : ℕ) (bytes : List Byte) :
    store (l ++ List.replicate (off + bytes.length - l.length) 0) off bytes =
      some (overwrite l off bytes) := by
  unfold store overwrite
  rw [if_pos (by simp only [length_append, length_replicate]; omega)]
  congr 1
  have ht : (l ++ replicate (off + bytes.length - l.length) 0).take off =
      l.take off ++ replicate (off - l.length) 0 := by
    rw [take_append, take_replicate]
    congr 2
    omega
  have hd : (l ++ replicate (off + bytes.length - l.length) (0 : Byte)).drop
      (off + bytes.length) = l.drop (off + bytes.length) := by
    rw [drop_append, drop_replicate, Nat.sub_self, replicate_zero, append_nil]
  rw [ht, hd]

lemma grow_eq (h : Represents f file a) (newSize : ℕ) :
    grow f file newSize = some (f.put file
      (a.bytes ++ List.replicate (newSize - a.bytes.length) 0)) := by
  unfold grow
  dsimp only
  rw [h.size, h.data]
  by_cases hle : newSize ≤ a.bytes.length
  · rw [if_pos hle, Nat.sub_eq_zero_of_le hle, replicate_zero, append_nil]
    congr 1
    unfold Files.put
    rw [← h.size, ← h.data, update_eq_self, update_eq_self]
  rw [if_neg hle, if_neg (lt_irrefl _), take_length]
  congr 1
  unfold Files.put
  rw [length_append, length_replicate]
  congr 4
  omega

lemma write_step (h : Represents f file a) (ho : OpenOn f.vfs file t fd) (who : Option Cred)
    (bytes : List Byte) (ok : Bool)
    (hs : (Call.write t who fd bytes ok).Small (Call.allowed f.vfs.fs file) a) :
    ∃ f', krustVfsWriteFd f t who fd bytes ok =
        some (f', (a.step (Call.allowed f.vfs.fs file) (.write t who fd bytes ok)).2) ∧
      Represents f' file (a.step (Call.allowed f.vfs.fs file) (.write t who fd bytes ok)).1 ∧
      Keeps f f' file := by
  have hoff := h.offset t fd ho
  unfold krustVfsWriteFd
  rw [ho.usedFd]
  dsimp only
  rw [ho.2.2]
  dsimp only [Arr.step]
  by_cases hp : checkPermission f.vfs.fs who file 2 = true
  · have hyes : Call.allowed f.vfs.fs file (.write t who fd bytes ok) = true := hp
    have hlt := hs hyes
    rw [hyes, hp, hoff, Nat.mod_eq_of_lt hlt.1, toI32_eq hlt.2, h.kind, h.size]
    simp only [Bool.not_true, Bool.false_eq_true, if_false, ne_eq, not_true_eq_false, true_and]
    by_cases hf : a.bytes.length < a.offset t fd + bytes.length ∧ ok = false
    · -- No memory for a larger file: nothing happens.
      have hno : ¬ (ok = true ∨ a.offset t fd + bytes.length ≤ a.bytes.length) := by
        rw [hf.2]
        simp only [Bool.false_eq_true, false_or]
        omega
      rw [if_pos (by simpa using hf), if_neg hno]
      exact ⟨f, rfl, h, Keeps.refl f file⟩
    have hyes : ok = true ∨ a.offset t fd + bytes.length ≤ a.bytes.length := by
      cases ok with
      | true => exact .inl rfl
      | false => exact .inr (not_lt.mp fun hlt => hf ⟨hlt, rfl⟩)
    have hfi : (overwrite a.bytes (a.offset t fd) bytes).length < 2 ^ 32 := by
      have hlen := h.fits
      rw [length_overwrite]
      omega
    have hput : ∀ bytes, (f.put file bytes).data file = bytes := fun _ => update_self ..
    rw [if_neg (by simpa using hf), if_pos hyes, grow_eq h, bind_eq_bind,
      bind_some, hput, store_padded]
    have hop : OpenOn (f.put file (overwrite a.bytes (a.offset t fd) bytes)).vfs file t fd := ho
    refine ⟨(f.put file (overwrite a.bytes (a.offset t fd) bytes)).seek t fd
      (a.offset t fd + bytes.length), ?_, (h.put _ hfi).seek hop _,
      (Keeps.put f file _).trans (Keeps.seek hop _)⟩
    rw [Files.seek_eq hop, bind_eq_bind, bind_some, ← put_put f file _ _
      (length_overwrite_eq_padded a.bytes (a.offset t fd) bytes)]
    rfl
  have hno : ¬ (Call.allowed f.vfs.fs file (.write t who fd bytes ok) = true ∧
      (ok = true ∨ a.offset t fd + bytes.length ≤ a.bytes.length)) := fun hc => hp hc.1
  rw [if_pos (by simpa using hp), if_neg hno]
  exact ⟨f, rfl, h, Keeps.refl f file⟩

lemma exec_step (h : Represents f file a) (c : Call) (ho : OpenOn f.vfs file c.task c.fd)
    (hs : c.Small (Call.allowed f.vfs.fs file) a) :
    ∃ f', c.exec f = some (f', (a.step (Call.allowed f.vfs.fs file) c).2) ∧
      Represents f' file (a.step (Call.allowed f.vfs.fs file) c).1 ∧ Keeps f f' file := by
  cases c with
  | read t who fd size => exact read_step h ho who size hs
  | write t who fd bytes ok => exact write_step h ho who bytes ok hs
  | lseek t fd offset whence => exact lseek_step h ho offset whence hs

/-- Calls on the descriptors of a regular file have the results of the array and leave its contents,
as long as every write ends below `2 ^ 32`, every position of an `lseek` is below `2 ^ 32` and no call
moves `2 ^ 31` bytes. -/
theorem small_run_array (f : Files) (file : ℕ) (a : Arr) (h : Represents f file a)
    (calls : List Call) (ho : ∀ c ∈ calls, OpenOn f.vfs file c.task c.fd)
    (hsmall : AllSmall (Call.allowed f.vfs.fs file) a calls) :
    ∃ f', run f calls = some (f', (a.run (Call.allowed f.vfs.fs file) calls).2) ∧
      Represents f' file (a.run (Call.allowed f.vfs.fs file) calls).1 := by
  induction calls generalizing f a with
  | nil => exact ⟨f, rfl, h⟩
  | cons c calls ih =>
    obtain ⟨f1, he, hrep, hk⟩ := exec_step h c (ho c mem_cons_self) hsmall.1
    have ho1 : ∀ c ∈ calls, OpenOn f1.vfs file c.task c.fd := fun c hc =>
      (hk.opened _ _).mpr (ho c (mem_cons_of_mem _ hc))
    have hih := ih f1 _ hrep ho1 (by rw [hk.allowed]; exact hsmall.2)
    rw [hk.allowed] at hih
    obtain ⟨f2, hrun, hrep2⟩ := hih
    refine ⟨f2, ?_, hrep2⟩
    unfold run
    rw [he, bind_eq_bind, bind_some]
    dsimp only
    rw [hrun]
    rfl

/-- A file of one byte, open at descriptors 0 and 1 of task 0. -/
def twice : Files where
  vfs :=
    { fs := { krustVfsInit.fs with
        kind := update (fun _ => .dir) 1 .file
        size := update (fun _ => 0) 1 1
        fresh := 2 }
      tables := fun t =>
        if t = 0 then some fun i => if i < 2 then ⟨some 1, 0, 0, true, 1⟩ else Entry.unused
        else none }
  data := update (fun _ => []) 1 [65]

def twiceArr : Arr := ⟨[65], fun _ _ => 0⟩

lemma represents_twice : Represents twice 1 twiceArr where
  kind := rfl
  data := rfl
  size := rfl
  fits := by decide
  offset := by
    intro t fd ho
    have hu := ho.2.1
    unfold twice State.entry at hu ⊢
    dsimp only at hu ⊢
    by_cases ht : t = 0
    · by_cases hfd : fd < 2
      · simp only [if_pos ht, map_some, getD_some, if_pos hfd]
        rfl
      simp only [if_pos ht, map_some, getD_some, if_neg hfd] at hu
      cases hu
    simp only [if_neg ht, map_none, getD_none] at hu
    cases hu

/-- A write behind the end through one descriptor is read back through the other. -/
def gapCalls : List Call :=
  [.lseek 0 0 2 1, .write 0 none 0 [66] true, .read 0 none 1 9]

theorem small_run_array_gap :
    ∃ f', run twice gapCalls = some (f', [⟨2, []⟩, ⟨1, []⟩, ⟨3, [65, 0, 66]⟩]) ∧
      f'.data 1 = [65, 0, 66] := by
  have ho : ∀ c ∈ gapCalls, OpenOn twice.vfs 1 c.task c.fd := by
    intro c hc
    simp only [gapCalls, mem_cons, not_mem_nil, or_false] at hc
    rcases hc with rfl | rfl | rfl <;> exact ⟨by decide, rfl, rfl⟩
  have hs : AllSmall (Call.allowed twice.vfs.fs 1) twiceArr gapCalls := by
    refine ⟨?_, ?_, ?_, trivial⟩
    · intro p hp
      cases hp
      decide
    · intro _
      decide
    · exact lt_of_le_of_lt (min_le_left 9 _) (by decide)
  obtain ⟨f', hrun, hrep⟩ :=
    small_run_array twice 1 twiceArr represents_twice gapCalls ho hs
  exact ⟨f', hrun, hrep.data⟩

/-- A position of `2 ^ 32` is returned as it is, and the next read starts at 0. -/
theorem lseek_wraps :
    (run twice [.lseek 0 0 (2 ^ 32) 0, .read 0 none 0 1]).map (·.2) =
        some [⟨2 ^ 32, []⟩, ⟨1, [65]⟩] ∧
      (twiceArr.run (Call.allowed twice.vfs.fs 1) [.lseek 0 0 (2 ^ 32) 0, .read 0 none 0 1]).2 =
        [⟨2 ^ 32, []⟩, ⟨0, []⟩] := by
  decide +kernel

end Simulation

end Elitra.Contents
