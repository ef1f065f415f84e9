import Elitra.Linked
import Mathlib.Algebra.Ring.Nat
import Mathlib.Algebra.Ring.Int.Defs

namespace Elitra.Vfs
open Function LinkedList

/-- A C string without its null byte. -/
abbrev CStr := List ℕ

def slash : ℕ := 47
def dot : CStr := [46]
def dotdot : CStr := [46, 46]

inductive NodeType where
  | file | dir | device | symlink
  deriving DecidableEq, Repr

/-- The nodes, one map per field. A node is named by the number of its allocation, so that a freed
one is never mistaken for a later one at the same address. -/
structure Fs where
  kind : ℕ → NodeType
  name : ℕ → CStr
  linkTarget : ℕ → CStr
  parent : ℕ → Option ℕ
  children : ℕ → Option ℕ
  next : ℕ → Option ℕ
  size : ℕ → ℕ
  uid : ℕ → ℕ
  gid : ℕ → ℕ
  mode : ℕ → ℕ
  live : ℕ → Bool
  fresh : ℕ

def root : ℕ := 0

structure Cred where
  uid : ℕ
  gid : ℕ
  deriving DecidableEq, Repr

/-- `who` is `none` when there is no current task. -/
def checkPermission (s : Fs) (who : Option Cred) (node want : ℕ) : Bool :=
  match who with
  | none => true
  | some w =>
    if w.uid = 0 then true
    else
      let bits :=
        if w.uid = s.uid node then (s.mode node >>> 6) &&& 7
        else if w.gid = s.gid node then (s.mode node >>> 3) &&& 7
        else s.mode node &&& 7
      bits &&& want == want

/-- The loop of `find_child`. Here and below the outer `none` is a call that never returns. -/
def findLoop (s : Fs) (name : CStr) : ℕ → Option ℕ → Option (Option ℕ)
  | _, none => some none
  | 0, some _ => none
  | fuel + 1, some c => if s.name c = name then some (some c) else findLoop s name fuel (s.next c)

def findChild (s : Fs) (dir : ℕ) (name : CStr) : Option (Option ℕ) :=
  if name = dot then some (some dir)
  else if name = dotdot then some (some ((s.parent dir).getD dir))
  else findLoop s name s.fresh (s.children dir)

/-- The segments of a path, each with what follows it. -/
def segments (seg : CStr) : CStr → List (CStr × CStr)
  | [] => if seg = [] then [] else [(seg, [])]
  | b :: path =>
    if b = slash then
      if seg = [] then segments [] path else (seg, b :: path) :: segments [] path
    else segments (seg ++ [b]) path

/-- `resolve_path_inner` without the step through a symbolic link, which is `hop`. -/
def walkPath (s : Fs) (hop : ℕ → CStr → Option (Option ℕ)) :
    ℕ → List (CStr × CStr) → Option (Option ℕ)
  | base, [] => some (some base)
  | base, (seg, rest) :: more =>
    if 63 < seg.length then some none
    else
      match findChild s base seg with
      | none => none
      | some none => some none
      | some (some child) =>
        if s.kind child = .symlink then
          hop (if (s.linkTarget child).head? = some slash then root else base)
            (((s.linkTarget child).take 255 ++ rest).take 510)
        else walkPath s hop child more

/-- `resolve_path`: at most five symbolic links are followed. -/
def resolvePath (s : Fs) : ℕ → ℕ → CStr → Option (Option ℕ)
  | 0, _, _ => some none
  | hops + 1, base, path => walkPath s (resolvePath s hops) base (segments [] path)

def krustVfsResolve (s : Fs) (path : CStr) : Option (Option ℕ) :=
  if path = [] then some (some root) else resolvePath s 6 root path

def extractName (path : CStr) : CStr := (path.reverse.takeWhile (· ≠ slash)).reverse

def resolveParent (s : Fs) (path : CStr) : Option (Option ℕ) :=
  let buf := path.take 255
  if slash ∈ buf then resolvePath s 6 root (buf.reverse.dropWhile (· ≠ slash)).tail.reverse
  else some (some root)

def addChild (s : Fs) (parent child : ℕ) : Fs :=
  { s with
    next := update s.next child (s.children parent)
    children := update s.children parent (some child) }

/-- The loop that takes a node out of its parent's list; `prev` is the node before. -/
def cutLoop (s : Fs) (parent node : ℕ) : ℕ → Option ℕ → Option ℕ → Option Fs
  | _, _, none => some s
  | 0, _, some _ => none
  | fuel + 1, prev, some c =>
    if c = node then
      some (match prev with
        | none => { s with children := update s.children parent (s.next node) }
        | some p => { s with next := update s.next p (s.next node) })
    else cutLoop s parent node fuel (some c) (s.next c)

def cutChild (s : Fs) (parent node : ℕ) : Option Fs :=
  cutLoop s parent node s.fresh none (s.children parent)

def freeNode (s : Fs) (node : ℕ) : Fs := { s with live := update s.live node false }

def NodeType.mode : NodeType → ℕ
  | .file => 0o100644
  | .dir => 0o040755
  | .device => 0o020666
  | .symlink => 0o120777

/-- `create_node_raw` with the fields its callers set, up to `add_child`. -/
def addNode (s : Fs) (who : Option Cred) (name : CStr) (kind : NodeType) (parent : ℕ)
    (target : CStr) (size : ℕ) : Fs :=
  let n := s.fresh
  addChild { s with
    kind := update s.kind n kind
    name := update s.name n (name.take 63)
    linkTarget := update s.linkTarget n (target.take 255)
    parent := update s.parent n (some parent)
    children := update s.children n none
    size := update s.size n size
    uid := update s.uid n (who.elim 0 (·.uid))
    gid := update s.gid n (who.elim 0 (·.gid))
    mode := update s.mode n kind.mode
    live := update s.live n true
    fresh := n + 1 } parent n

/-- What the creating functions share: `want` is the permission checked on the parent, `unique`
whether the name is looked up first, `ok` whether memory was found. The result is the new node. -/
def createNode (s : Fs) (who : Option Cred) (path : CStr) (kind : NodeType) (want : Option ℕ)
    (unique : Bool) (target : CStr) (size : ℕ) (ok : Bool) : Option (Fs × Option ℕ) :=
  if path = [] then some (s, none)
  else
    match resolveParent s path with
    | none => none
    | some none => some (s, none)
    | some (some parent) =>
      if s.kind parent ≠ .dir then some (s, none)
      else if want.any fun w => !checkPermission s who parent w then some (s, none)
      else
        let name := extractName path
        if name = [] then some (s, none)
        else
          match if unique then findChild s parent name else some none with
          | none => none
          | some (some _) => some (s, none)
          | some none =>
            if ok then some (addNode s who name kind parent target size, some s.fresh)
            else some (s, none)

/-- The status of a call: 0, or -1 for a failure. -/
def status (r : Option (Fs × Option ℕ)) : Option (Fs × ℤ) :=
  r.map fun p => (p.1, if p.2.isSome then 0 else -1)

def krustVfsCreateDir (s : Fs) (who : Option Cred) (path : CStr) (ok : Bool) : Option (Fs × ℤ) :=
  status (createNode s who path .dir (some 6) true [] 0 ok)

def krustVfsCreateFile (s : Fs) (who : Option Cred) (path : CStr) (size : ℕ) (ok : Bool) :
    Option (Fs × ℤ) :=
  status (createNode s who path .file (some 2) false [] size ok)

def krustVfsCreateDevice (s : Fs) (who : Option Cred) (path : CStr) (ok : Bool) :
    Option (Fs × ℤ) :=
  status (createNode s who path .device none true [] 0 ok)

def krustVfsSymlink (s : Fs) (who : Option Cred) (target linkpath : CStr) (ok : Bool) :
    Option (Fs × ℤ) :=
  if target = [] then some (s, -1)
  else status (createNode s who linkpath .symlink (some 2) true target 0 ok)

/-- `krust_vfs_remove_node`: the node is freed with its children, but not with theirs. -/
def krustVfsRemoveNode (s : Fs) (path : CStr) : Option (Fs × ℤ) :=
  if path = [] then some (s, -1)
  else
    match krustVfsResolve s path with
    | none => none
    | some none => some (s, -1)
    | some (some node) =>
      if node = root then some (s, -1)
      else
        match s.parent node with
        | none => some (s, -1)
        | some parent => do
          let s ← cutChild s parent node
          let children ← walkList s.next s.fresh (s.children node)
          return (freeNode (children.foldl freeNode s) node, 0)

/-- `krust_vfs_write_file`; `ok` is whether memory for the contents was found. -/
def krustVfsWriteFile (s : Fs) (who : Option Cred) (path : CStr) (size : ℕ) (ok : Bool) :
    Option (Fs × ℤ) :=
  if path = [] then some (s, -1)
  else
    match krustVfsResolve s path with
    | none => none
    | some none => krustVfsCreateFile s who path size ok
    | some (some node) =>
      if s.kind node = .file then
        if !checkPermission s who node 2 then some (s, -1)
        else if ok then some ({ s with size := update s.size node size }, 0)
        else some ({ s with size := update s.size node 0 }, -1)
      else krustVfsCreateFile s who path size ok

def krustVfsUnlink (s : Fs) (who : Option Cred) (path : CStr) : Option (Fs × ℤ) :=
  if path = [] then some (s, -1)
  else
    match resolveParent s path with
    | none => none
    | some none => some (s, -1)
    | some (some parent) =>
      if !checkPermission s who parent 6 then some (s, -1)
      else
        match findChild s parent (extractName path) with
        | none => none
        | some none => some (s, -1)
        | some (some node) =>
          if s.kind node ≠ .file ∧ s.kind node ≠ .symlink then some (s, -1)
          else (cutChild s parent node).map fun s => (freeNode s node, 0)

def krustVfsRmdir (s : Fs) (who : Option Cred) (path : CStr) : Option (Fs × ℤ) :=
  if path = [] then some (s, -1)
  else
    match krustVfsResolve s path with
    | none => none
    | some none => some (s, -1)
    | some (some node) =>
      if s.kind node ≠ .dir ∨ node = root then some (s, -1)
      else if (s.parent node).any fun p => !checkPermission s who p 2 then some (s, -1)
      else if s.children node ≠ none then some (s, -1)
      else krustVfsRemoveNode s path

/-- The end of `krust_vfs_rename`, with the node out of its old parent's list. -/
def moveNode (s : Fs) (node parent : ℕ) (name : CStr) : Fs :=
  addChild { s with
    name := update s.name node (name.take 63)
    parent := update s.parent node (some parent)
    next := update s.next node none } parent node

def krustVfsRename (s : Fs) (who : Option Cred) (oldPath newPath : CStr) : Option (Fs × ℤ) :=
  if oldPath = [] ∨ newPath = [] then some (s, -1)
  else
    match krustVfsResolve s oldPath with
    | none => none
    | some none => some (s, -1)
    | some (some node) =>
      if node = root then some (s, -1)
      else
        match s.parent node with
        | none => some (s, -1)
        | some oldParent =>
          if !checkPermission s who oldParent 6 then some (s, -1)
          else do
            let s ← cutChild s oldParent node
            match ← resolveParent s newPath with
            | none => return (addChild s oldParent node, -1)
            | some newParent =>
              if !checkPermission s who newParent 6 then return (addChild s oldParent node, -1)
              else return (moveNode s node newParent (extractName newPath), 0)

structure Entry where
  node : Option ℕ
  offset : ℕ
  flags : ℕ
  used : Bool
  refcount : ℕ
  deriving DecidableEq, Repr

def Entry.unused : Entry := ⟨none, 0, 0, false, 0⟩

def maxFds : ℕ := 128

/-- The file system and every task's descriptor table; a task may be without one. -/
structure State where
  fs : Fs
  tables : ℕ → Option (ℕ → Entry)

/-- `fd_ref()[fd]` for the task `t`. Without a table it is the dummy table, which is never used. -/
def State.entry (v : State) (t fd : ℕ) : Entry := ((v.tables t).map (· fd)).getD Entry.unused

def State.set (v : State) (t fd : ℕ) (e : Entry) : State :=
  { v with tables := update v.tables t ((v.tables t).map fun f => update f fd e) }

def allocFd (v : State) (t : ℕ) : Option ℕ :=
  (v.tables t).bind fun f => (List.range maxFds).find? fun i => !(f i).used

/-- The descriptor that a call was given, if it is in use. -/
def usedFd (v : State) (t : ℕ) (fd : ℤ) : Option ℕ :=
  if fd < 0 ∨ maxFds ≤ fd.toNat ∨ (v.entry t fd.toNat).used = false then none else some fd.toNat

/-- The common end of the calls that open a node. -/
def openNode (v : State) (t node : ℕ) : State × ℤ :=
  match allocFd v t with
  | none => (v, -1)
  | some fd => (v.set t fd ⟨some node, 0, 0, true, 1⟩, fd)

def krustVfsOpen (v : State) (t : ℕ) (who : Option Cred) (path : CStr) : Option (State × ℤ) :=
  if path = [] then some (v, -1)
  else
    match krustVfsResolve v.fs path with
    | none => none
    | some none => some (v, -1)
    | some (some node) =>
      if v.fs.kind node ≠ .file ∧ v.fs.kind node ≠ .device then some (v, -1)
      else if !checkPermission v.fs who node 4 then some (v, -1)
      else some (openNode v t node)

def krustVfsOpenWrite (v : State) (t : ℕ) (who : Option Cred) (path : CStr) (ok : Bool) :
    Option (State × ℤ) :=
  if path = [] then some (v, -1)
  else
    match krustVfsResolve v.fs path with
    | none => none
    | some none => do
      match ← createNode v.fs who path .file (some 2) false [] 0 ok with
      | (fs, none) => return ({ v with fs := fs }, -1)
      | (fs, some node) => return openNode { v with fs := fs } t node
    | some (some node) =>
      if v.fs.kind node = .file then
        if !checkPermission v.fs who node 2 then some (v, -1)
        else some (openNode
          { v with fs := { v.fs with size := update v.fs.size node 0 } } t node)
      else some (v, -1)

/-- `krust_vfs_read`; `n` is what a device's own function returns. -/
def krustVfsRead (v : State) (t : ℕ) (who : Option Cred) (fd : ℤ) (size : ℕ) (n : ℤ) : State × ℤ :=
  match usedFd v t fd with
  | none => (v, -1)
  | some i =>
    let e := v.entry t i
    match e.node with
    | none => (v, -1)
    | some node =>
      if !checkPermission v.fs who node 4 then (v, -1)
      else if v.fs.kind node = .device then
        (v.set t i { e with offset := if 0 < n then (e.offset + n.toNat) % 2 ^ 32 else e.offset }, n)
      else if v.fs.size node ≤ e.offset then (v, 0)
      else
        let k := min size (v.fs.size node - e.offset)
        (v.set t i { e with offset := e.offset + k }, k)

/-- `krust_vfs_write_fd`; `ok` is whether memory for a larger file was found. -/
def krustVfsWriteFd (v : State) (t : ℕ) (who : Option Cred) (fd : ℤ) (size : ℕ) (n : ℤ) (ok : Bool) :
    State × ℤ :=
  match usedFd v t fd with
  | none => (v, -1)
  | some i =>
    let e := v.entry t i
    match e.node with
    | none => (v, -1)
    | some node =>
      if !checkPermission v.fs who node 2 then (v, -1)
      else if v.fs.kind node = .device then
        (v.set t i { e with offset := if 0 < n then (e.offset + n.toNat) % 2 ^ 32 else e.offset }, n)
      else if v.fs.kind node ≠ .file then (v, -1)
      else
        let newSize := (e.offset + size) % 2 ^ 32
        if v.fs.size node < newSize then
          if ok then
            (({ v with fs := { v.fs with size := update v.fs.size node newSize } } :
              State).set t i { e with offset := newSize }, size)
          else (v, -1)
        else (v.set t i { e with offset := newSize }, size)

def krustVfsLseek (v : State) (t : ℕ) (fd offset whence : ℤ) : State × ℤ :=
  match usedFd v t fd with
  | none => (v, -1)
  | some i =>
    let e := v.entry t i
    let pos : Option ℤ :=
      if whence = 0 then some offset
      else if whence = 1 then some (e.offset + offset)
      else if whence = 2 then e.node.map fun node => (v.fs.size node : ℤ) + offset
      else none
    match pos with
    | none => (v, -1)
    | some p => if p < 0 then (v, -1) else (v.set t i { e with offset := p.toNat % 2 ^ 32 }, p)

/-- The refcount of a table entry is a `u32`. -/
def Entry.retain (e : Entry) : Entry := { e with refcount := (e.refcount + 1) % 2 ^ 32 }

def krustVfsDup (v : State) (t : ℕ) (oldfd : ℤ) : State × ℤ :=
  match usedFd v t oldfd with
  | none => (v, -1)
  | some i =>
    match allocFd v t with
    | none => (v, -1)
    | some fd =>
      let e := v.entry t i
      ((v.set t fd { e with used := true, refcount := 1 }).set t i e.retain, fd)

def krustVfsDup2 (v : State) (t : ℕ) (oldfd newfd : ℤ) : State × ℤ :=
  match usedFd v t oldfd with
  | none => (v, -1)
  | some i =>
    if newfd < 0 ∨ maxFds ≤ newfd.toNat then (v, -1)
    else if oldfd = newfd then (v, newfd)
    else
      let e := v.entry t i
      ((v.set t newfd.toNat { e with used := true, refcount := 1 }).set t i e.retain, newfd)

def krustVfsClose (v : State) (t : ℕ) (fd : ℤ) : State × ℤ :=
  match usedFd v t fd with
  | none => (v, -1)
  | some i =>
    let e := v.entry t i
    if 1 < e.refcount then (v.set t i { e with refcount := e.refcount - 1 }, 0)
    else (v.set t i { e with used := false, node := none, offset := 0, refcount := 0 }, 0)

def copyFdTable (f : ℕ → Entry) : ℕ → Entry := fun i =>
  if (f i).used ∧ (f i).node ≠ none then (f i).retain else f i

/-- `fork`: the child gets a copy of the table, or none without memory. -/
def forkTable (v : State) (t child : ℕ) (ok : Bool) : State :=
  { v with
    tables := update v.tables child
      (if ok then (v.tables t).map copyFdTable else none) }

def newTable (v : State) (t : ℕ) (ok : Bool) : State :=
  { v with tables := update v.tables t (if ok then some fun _ => Entry.unused else none) }

def freeTable (v : State) (t : ℕ) : State :=
  { v with tables := update v.tables t none }

/-- The calls, each by some task `t` with credentials `who`; `ok` says whether memory was found. -/
inductive Op where
  | createDir (who : Option Cred) (path : CStr) (ok : Bool)
  | createFile (who : Option Cred) (path : CStr) (size : ℕ) (ok : Bool)
  | createDevice (who : Option Cred) (path : CStr) (ok : Bool)
  | writeFile (who : Option Cred) (path : CStr) (size : ℕ) (ok : Bool)
  | symlink (who : Option Cred) (target path : CStr) (ok : Bool)
  | unlink (who : Option Cred) (path : CStr)
  | rmdir (who : Option Cred) (path : CStr)
  | rename (who : Option Cred) (oldPath newPath : CStr)
  | removeNode (path : CStr)
  | openRead (t : ℕ) (who : Option Cred) (path : CStr)
  | openWrite (t : ℕ) (who : Option Cred) (path : CStr) (ok : Bool)
  | read (t : ℕ) (who : Option Cred) (fd : ℤ) (size : ℕ) (n : ℤ)
  | write (t : ℕ) (who : Option Cred) (fd : ℤ) (size : ℕ) (n : ℤ) (ok : Bool)
  | lseek (t : ℕ) (fd offset whence : ℤ)
  | dup (t : ℕ) (oldfd : ℤ)
  | dup2 (t : ℕ) (oldfd newfd : ℤ)
  | close (t : ℕ) (fd : ℤ)
  | fork (t child : ℕ) (ok : Bool)
  | create (t : ℕ) (ok : Bool)
  | reap (t : ℕ)

def State.onFs (v : State) (r : Option (Fs × ℤ)) : Option State := r.map fun p => { v with fs := p.1 }

def Op.exec (v : State) : Op → Option State
  | .createDir who path ok => v.onFs (krustVfsCreateDir v.fs who path ok)
  | .createFile who path size ok => v.onFs (krustVfsCreateFile v.fs who path size ok)
  | .createDevice who path ok => v.onFs (krustVfsCreateDevice v.fs who path ok)
  | .writeFile who path size ok => v.onFs (krustVfsWriteFile v.fs who path size ok)
  | .symlink who target path ok => v.onFs (krustVfsSymlink v.fs who target path ok)
  | .unlink who path => v.onFs (krustVfsUnlink v.fs who path)
  | .rmdir who path => v.onFs (krustVfsRmdir v.fs who path)
  | .rename who oldPath newPath => v.onFs (krustVfsRename v.fs who oldPath newPath)
  | .removeNode path => v.onFs (krustVfsRemoveNode v.fs path)
  | .openRead t who path => (krustVfsOpen v t who path).map (·.1)
  | .openWrite t who path ok => (krustVfsOpenWrite v t who path ok).map (·.1)
  | .read t who fd size n => some (krustVfsRead v t who fd size n).1
  | .write t who fd size n ok => some (krustVfsWriteFd v t who fd size n ok).1
  | .lseek t fd offset whence => some (krustVfsLseek v t fd offset whence).1
  | .dup t oldfd => some (krustVfsDup v t oldfd).1
  | .dup2 t oldfd newfd => some (krustVfsDup2 v t oldfd newfd).1
  | .close t fd => some (krustVfsClose v t fd).1
  | .fork t child ok => some (forkTable v t child ok)
  | .create t ok => some (newTable v t ok)
  | .reap t => some (freeTable v t)

/-- After `krust_vfs_init`: only the root, and no descriptor table. -/
def krustVfsInit : State where
  fs :=
    { kind := fun _ => .dir
      name := fun _ => []
      linkTarget := fun _ => []
      parent := update (fun _ => none) root (some root)
      children := fun _ => none
      next := fun _ => none
      size := fun _ => 0
      uid := fun _ => 0
      gid := fun _ => 0
      mode := update (fun _ => 0) root NodeType.dir.mode
      live := update (fun _ => false) root true
      fresh := 1 }
  tables := fun _ => none

/-- The states reached by calls that meet a condition. -/
inductive Reached (ok : State → Op → Prop) : State → Prop
  | start : Reached ok krustVfsInit
  | step {v v' : State} (op : Op) : Reached ok v → ok v op → op.exec v = some v' → Reached ok v'

lemma Reached.invariant {ok : State → Op → Prop} {P : State → Prop} (hi : P krustVfsInit)
    (hst : ∀ {v v' : State} {op : Op}, P v → ok v op → op.exec v = some v' → P v') {v : State}
    (h : Reached ok v) : P v := by
  induction h with
  | start => exact hi
  | step op _ hok hs ih => exact hst ih hok hs

end Elitra.Vfs
