import Elitra.Contents
import Elitra.VfsFds

namespace Elitra.Permissions
open Function LinkedList Option Vfs
open Pipes (Byte)
open Contents (Files)

/-- The system calls on files, and the two functions of the file system that they leave out. -/
inductive Call where
  | openRead (path : CStr)
  | openWrite (path : CStr) (ok : Bool)
  | read (fd : ℤ) (size : ℕ) (n : ℤ)
  | write (fd : ℤ) (bytes : List Byte) (n : ℤ) (ok : Bool)
  | lseek (fd offset whence : ℤ)
  | dup (oldfd : ℤ)
  | dup2 (oldfd newfd : ℤ)
  | close (fd : ℤ)
  | writeFile (path : CStr) (bytes : List Byte) (ok : Bool)
  | mkdir (path : CStr) (ok : Bool)
  | symlink (target path : CStr) (ok : Bool)
  | unlink (path : CStr)
  | rmdir (path : CStr)
  | rename (oldPath newPath : CStr)
  | chmod (path : CStr) (mode : ℕ)
  | chown (path : CStr) (uid gid : ℕ)
  | fchmod (fd : ℤ) (mode : ℕ)
  | fchown (fd : ℤ) (uid gid : ℕ)
  | vfsChmod (path : CStr) (mode : ℕ)
  | vfsChown (path : CStr) (uid gid : ℕ)

/-- The function on the tree and the tables behind a call of the task `t`; the calls that only
change an owner or a mode have none. -/
def Call.op (t : ℕ) (w : Cred) : Call → Option Op
  | openRead path => some (.openRead t (some w) path)
  | openWrite path ok => some (.openWrite t (some w) path ok)
  | read fd size n => some (.read t (some w) fd size n)
  | write fd bytes n ok => some (.write t (some w) fd bytes.length n ok)
  | lseek fd offset whence => some (.lseek t fd offset whence)
  | dup oldfd => some (.dup t oldfd)
  | dup2 oldfd newfd => some (.dup2 t oldfd newfd)
  | close fd => some (.close t fd)
  | writeFile path bytes ok => some (.writeFile (some w) path bytes.length ok)
  | mkdir path ok => some (.createDir (some w) path ok)
  | symlink target path ok => some (.symlink (some w) target path ok)
  | unlink path => some (.unlink (some w) path)
  | rmdir path => some (.rmdir (some w) path)
  | rename oldPath newPath => some (.rename (some w) oldPath newPath)
  | chmod _ _ | chown _ _ _ | fchmod _ _ | fchown _ _ _ | vfsChmod _ _ | vfsChown _ _ _ => none

/-- The node that `write_file` and `open_write` store new contents in: the file that is found, if
the task may write it, and otherwise the next new node, whether it is then created or not. -/
def stored (f : Files) (w : Cred) (path : CStr) : Option ℕ :=
  match krustVfsResolve f.vfs.fs path with
  | some (some node) =>
    if f.vfs.fs.kind node = .file then
      if checkPermission f.vfs.fs (some w) node 2 then some node else none
    else some f.vfs.fs.fresh
  | _ => some f.vfs.fs.fresh

def replaced (f : Files) (w : Cred) (path : CStr) (bytes : List Byte) : ℕ → List Byte :=
  (stored f w path).elim f.data fun node => update f.data node bytes

/-- The contents after a call; `none` is a write outside of a file's buffer. -/
def Call.contents (f : Files) (t : ℕ) (w : Cred) : Call → Option (ℕ → List Byte)
  | openWrite path _ => some (replaced f w path [])
  | writeFile path bytes ok => some (replaced f w path (if ok then bytes else []))
  | write fd bytes _ ok =>
    (Contents.krustVfsWriteFd f t (some w) fd bytes ok).map fun p => p.1.data
  | _ => some f.data

def setMode (f : Files) (node mode : ℕ) : Files :=
  { f with vfs := { f.vfs with fs := { f.vfs.fs with
      mode := update f.vfs.fs.mode node
        ((f.vfs.fs.mode node &&& 0xF000) ||| (mode &&& 0x0FFF)) } } }

def setOwner (f : Files) (node uid gid : ℕ) : Files :=
  { f with vfs := { f.vfs with fs := { f.vfs.fs with
      uid := update f.vfs.fs.uid node (uid % 2 ^ 16)
      gid := update f.vfs.fs.gid node (gid % 2 ^ 16) } } }

/-- The node behind a descriptor. -/
def fdNode (v : State) (t : ℕ) (fd : ℤ) : Option ℕ :=
  (usedFd v t fd).bind fun i => (v.entry t i).node

/-- What the system calls that change an owner or a mode share: only root gets past the first
check. -/
def asRoot (f : Files) (w : Cred) (node : Option (Option ℕ)) (change : ℕ → Files) : Option Files :=
  if w.uid ≠ 0 then some f
  else
    match node with
    | none => none
    | some none => some f
    | some (some n) => some (change n)

/-- `krust_vfs_chmod` and `krust_vfs_chown`, which look the node up before they check the task. -/
def asAllowed (f : Files) (path : CStr) (allowed : ℕ → Bool) (change : ℕ → Files) : Option Files :=
  if path = [] then some f
  else
    match krustVfsResolve f.vfs.fs path with
    | none => none
    | some none => some f
    | some (some n) => if n = root then some f else if allowed n then some (change n) else some f

def Call.onTree (f : Files) (t : ℕ) (w : Cred) (c : Call) : Option Files := do
  let op ← c.op t w
  let data ← c.contents f t w
  let vfs ← op.exec f.vfs
  return ⟨vfs, data⟩

def Call.exec (f : Files) (t : ℕ) (w : Cred) : Call → Option Files
  | chmod path mode => asRoot f w (krustVfsResolve f.vfs.fs path) fun n => setMode f n mode
  | chown path uid gid => asRoot f w (krustVfsResolve f.vfs.fs path) fun n => setOwner f n uid gid
  | fchmod fd mode => asRoot f w (some (fdNode f.vfs t fd)) fun n => setMode f n mode
  | fchown fd uid gid => asRoot f w (some (fdNode f.vfs t fd)) fun n => setOwner f n uid gid
  | vfsChmod path mode =>
    asAllowed f path (fun n => w.uid == 0 || w.uid == f.vfs.fs.uid n) fun n => setMode f n mode
  | vfsChown path uid gid => asAllowed f path (fun _ => w.uid == 0) fun n => setOwner f n uid gid
  | c => c.onTree f t w

/-- `c` is an allocated node in the list of the allocated node `d`. -/
def Holds (s : Fs) (d c : ℕ) : Prop :=
  s.live d = true ∧ s.live c = true ∧ ∃ l, Linked s.next (s.children d) l ∧ c ∈ l

/-- A step of a task with the credentials `w` changes contents and sizes of files it may write,
members of directories it may write, and owners and modes as root or as the owner. -/
structure Permitted (f f' : Files) (w : Cred) : Prop where
  contents : ∀ n, f.vfs.fs.live n = true → f.vfs.fs.kind n = .file →
    f'.data n ≠ f.data n ∨ f'.vfs.fs.size n ≠ f.vfs.fs.size n →
      checkPermission f.vfs.fs (some w) n 2 = true
  members : ∀ d c, ¬ (Holds f'.vfs.fs d c ↔ Holds f.vfs.fs d c) →
    checkPermission f.vfs.fs (some w) d 2 = true
  owner : ∀ n, f.vfs.fs.live n = true →
    f'.vfs.fs.uid n ≠ f.vfs.fs.uid n ∨ f'.vfs.fs.gid n ≠ f.vfs.fs.gid n ∨
      f'.vfs.fs.mode n ≠ f.vfs.fs.mode n → w.uid = 0 ∨ w.uid = f.vfs.fs.uid n

/-- The system: calls of any tasks that meet a condition, and the kernel's own operations on the
tree and the descriptor tables, with whatever contents they leave. -/
inductive Reached (ok : Files → ℕ → Cred → Call → Prop) : Files → Prop
  | start : Reached ok ⟨krustVfsInit, fun _ => []⟩
  | kernel {f : Files} {v : State} (op : Op) (data : ℕ → List Byte) :
      Reached ok f → FdSafe f.vfs op → op.exec f.vfs = some v → Reached ok ⟨v, data⟩
  | call {f f' : Files} (t : ℕ) (w : Cred) (c : Call) :
      Reached ok f → ok f t w c → c.exec f t w = some f' → Reached ok f'

/-- The condition under which the nodes stay a tree and descriptors stay live. -/
def Safe (f : Files) (t : ℕ) (w : Cred) (c : Call) : Prop :=
  ∀ op, c.op t w = some op → FdSafe f.vfs op

variable {target : CStr} {kind : NodeType} {node t : ℕ}

section Effects

/-- What a call does to the nodes, with the permissions it needs for it. -/
structure Effect (who : Option Cred) (s s' : Fs) : Prop where
  owner : ∀ n, s.live n = true → s'.uid n = s.uid n ∧ s'.gid n = s.gid n ∧ s'.mode n = s.mode n
  size : ∀ n, s.live n = true → s'.size n ≠ s.size n → checkPermission s who n 2 = true
  place : ∀ n, (s'.live n = s.live n ∧ s'.parent n = s.parent n) ∨
    ((s.live n = true → ∀ p, s.parent n = some p → checkPermission s who p 2 = true) ∧
      (s'.live n = true → ∀ p, s'.parent n = some p → checkPermission s who p 2 = true))

variable {who : Option Cred} {s s' : Fs} {path : CStr} {ok : Bool} {r : ℤ}

lemma Effect.refl (who : Option Cred) (s : Fs) : Effect who s s :=
  ⟨fun _ _ => ⟨rfl, rfl, rfl⟩, fun _ _ h => absurd rfl h, fun _ => .inl ⟨rfl, rfl⟩⟩

lemma Effect.links (who : Option Cred) (s : Fs) (next children : ℕ → Option ℕ) :
    Effect who s { s with next := next, children := children } :=
  ⟨fun _ _ => ⟨rfl, rfl, rfl⟩, fun _ _ h => absurd rfl h, fun _ => .inl ⟨rfl, rfl⟩⟩

lemma checkPermission_of_six {n : ℕ} (h : checkPermission s who n 6 = true) :
    checkPermission s who n 2 = true := by
  unfold checkPermission at h ⊢
  cases who with
  | none => rfl
  | some w =>
    dsimp only at h ⊢
    split at h
    · rw [if_pos ‹_›]
    rw [if_neg ‹_›]
    generalize (if w.uid = s.uid n then (s.mode n >>> 6) &&& 7
      else if w.gid = s.gid n then (s.mode n >>> 3) &&& 7 else s.mode n &&& 7) = bits at h ⊢
    have hsix : bits &&& 6 = 6 := by simpa using h
    have htwo : bits &&& 2 = 2 := by
      calc bits &&& 2 = bits &&& (6 &&& 2) := rfl
        _ = (bits &&& 6) &&& 2 := (Nat.and_assoc _ _ _).symm
        _ = 2 := by rw [hsix]; rfl
    simpa using htwo

lemma Effect.addNode (hf : ∀ n, s.live n = true → n < s.fresh) {p : ℕ}
    (hp : checkPermission s who p 2 = true) (name : CStr) (kind : NodeType) (target : CStr)
    (size : ℕ) : Effect who s (addNode s who name kind p target size) := by
  have hne : ∀ n, s.live n = true → n ≠ s.fresh := fun n hn heq => by
    have hlt := hf n hn
    omega
  refine ⟨fun n hn => ?_, fun n hn hs => ?_, fun n => ?_⟩
  · exact ⟨update_of_ne (hne n hn) _ _, update_of_ne (hne n hn) _ _, update_of_ne (hne n hn) _ _⟩
  · exact absurd (update_of_ne (hne n hn) _ _) hs
  by_cases heq : n = s.fresh
  · refine .inr ⟨fun hn => absurd heq (hne n hn), fun _ q hq => ?_⟩
    have hpa : (Vfs.addNode s who name kind p target size).parent n = some p := by
      rw [heq]
      exact update_self ..
    rw [hpa] at hq
    rw [← some.inj hq]
    exact hp
  · exact .inl ⟨update_of_ne heq _ _, update_of_ne heq _ _⟩

variable {size : ℕ}

lemma Effect.createNode {want : ℕ} {unique : Bool}
    {n : Option ℕ} (hf : ∀ n, s.live n = true → n < s.fresh)
    (hw : ∀ p, checkPermission s who p want = true → checkPermission s who p 2 = true)
    (hs : createNode s who path kind (some want) unique target size ok = some (s', n)) :
    Effect who s s' := by
  rcases createNode_cases hs with ⟨rfl, -⟩ | ⟨parent, -, -, hc, -, -, rfl, -⟩
  · exact Effect.refl who _
  · exact Effect.addNode hf (hw parent (hc want rfl)) _ _ _ _

lemma Effect.status {want : ℕ} {unique : Bool} (hf : ∀ n, s.live n = true → n < s.fresh)
    (hw : ∀ p, checkPermission s who p want = true → checkPermission s who p 2 = true)
    (hs : status (Vfs.createNode s who path kind (some want) unique target size ok) =
      some (s', r)) : Effect who s s' := by
  obtain ⟨⟨s1, n⟩, hs1, heq⟩ := map_eq_some_iff.mp hs
  cases heq
  exact Effect.createNode hf hw hs1

lemma Effect.setSize (h : checkPermission s who node 2 = true) (size : ℕ) :
    Effect who s { s with size := update s.size node size } := by
  refine ⟨fun _ _ => ⟨rfl, rfl, rfl⟩, fun n _ hne => ?_, fun _ => .inl ⟨rfl, rfl⟩⟩
  by_cases heq : n = node
  · rw [heq]
    exact h
  · exact absurd (update_of_ne heq _ _) hne

lemma Effect.writeFile (hf : ∀ n, s.live n = true → n < s.fresh)
    (hs : krustVfsWriteFile s who path size ok = some (s', r)) : Effect who s s' := by
  rcases writeFile_cases hs with rfl | ⟨node, size', hc, rfl⟩ | ⟨-, hs⟩
  · exact Effect.refl who _
  · exact Effect.setSize hc _
  · exact Effect.status hf (fun _ h => h) hs

lemma Effect.free {p : ℕ} (hpa : s.parent node = some p)
    (hp : checkPermission s who p 2 = true) (next children : ℕ → Option ℕ) :
    Effect who s (freeNode { s with next := next, children := children } node) := by
  refine ⟨fun _ _ => ⟨rfl, rfl, rfl⟩, fun _ _ h => absurd rfl h, fun n => ?_⟩
  by_cases heq : n = node
  · refine .inr ⟨fun _ q hq => ?_, fun hl => ?_⟩
    · rw [heq, hpa] at hq
      rw [← some.inj hq]
      exact hp
    rw [heq] at hl
    exact absurd ((update_self ..).symm.trans hl) Bool.false_ne_true
  · exact .inl ⟨update_of_ne heq _ _, rfl⟩

variable {kids : ℕ → List ℕ}

lemma Effect.unlink (ht : Tree s kids) (hsa : extractName path ≠ dot)
    (hs : krustVfsUnlink s who path = some (s', r)) : Effect who s s' := by
  rcases unlink_cases hs with
    rfl | ⟨parent, node, s1, hp, hc, hf, hn, hcut, rfl⟩
  · exact Effect.refl who _
  -- under any name but `.` the node is a member of the directory that was checked
  have hmem := (ht.found_leaf (ht.resolveParent_from hp) hsa hf hn).1
  obtain ⟨⟨next, children, rfl⟩, -, -⟩ := ht.cut hmem hcut
  exact Effect.free (ht.held parent node hmem).2.1 (checkPermission_of_six hc) _ _

lemma Effect.rmdir (ht : Tree s kids)
    (hs : krustVfsRmdir s who path = some (s', r)) : Effect who s s' := by
  rcases rmdir_cases hs with rfl | ⟨node, hn, he, hc, hs⟩
  · exact Effect.refl who _
  rcases removeNode_cases hs with
    rfl | ⟨node', parent, s1, members, hn', hr, hp, hcut, hm, rfl⟩
  · exact Effect.refl who _
  -- `remove_node` finds the same node, which has no members
  rw [hn] at hn'
  obtain rfl : node = node' := some.inj (some.inj hn')
  have hf := ht.resolve_from hn
  have hmem := ht.mem_parent hf hr hp
  have hnil : kids node = [] := by
    have hl := ht.linked node (ht.live_of_from hf)
    rw [he] at hl
    exact linked_none hl
  rw [hm.unique (ht.linked_cut hmem hcut), hnil]
  obtain ⟨⟨next, links, rfl⟩, -, -⟩ := ht.cut hmem hcut
  exact Effect.free hp (hc parent hp) _ _

lemma Effect.move {p q : ℕ} (hpa : s.parent node = some p)
    (hp : checkPermission s who p 2 = true) (hq : checkPermission s who q 2 = true)
    (next children : ℕ → Option ℕ) (name : CStr) :
    Effect who s (moveNode { s with next := next, children := children } node q name) := by
  refine ⟨fun _ _ => ⟨rfl, rfl, rfl⟩, fun _ _ h => absurd rfl h, fun n => ?_⟩
  by_cases heq : n = node
  · refine .inr ⟨fun _ x hx => ?_, fun _ x hx => ?_⟩
    · rw [heq, hpa] at hx
      rw [← some.inj hx]
      exact hp
    have hnew : (moveNode { s with next := next, children := children } node q name).parent node =
        some q := update_self ..
    rw [heq, hnew] at hx
    rw [← some.inj hx]
    exact hq
  · exact .inl ⟨rfl, update_of_ne heq _ _⟩

lemma Effect.rename {oldPath newPath : CStr} (ht : Tree s kids)
    (hs : krustVfsRename s who oldPath newPath = some (s', r)) : Effect who s s' := by
  rcases rename_cases hs with
    rfl | ⟨node, oldParent, s1, hn, hr, hp, hold, hcut, hend⟩
  · exact Effect.refl who _
  have hmem := ht.mem_parent (ht.resolve_from hn) hr hp
  obtain ⟨⟨next, children, rfl⟩, -, -⟩ := ht.cut hmem hcut
  rcases hend with rfl | ⟨newParent, -, hnew, rfl⟩
  · exact Effect.links who s _ _
  have hsix : checkPermission s who newParent 6 = true := hnew
  exact Effect.move hp (checkPermission_of_six hold) (checkPermission_of_six hsix) _ _ _

lemma Effect.openWrite {v v' : State} (hf : ∀ n, v.fs.live n = true → n < v.fs.fresh)
    (hs : krustVfsOpenWrite v t who path ok = some (v', r)) : Effect who v.fs v'.fs := by
  rcases openWrite_cases hs with rfl | ⟨node, -, hch, rfl⟩ | ⟨fs, n, -, hc, hend⟩
  · exact Effect.refl who _
  · rw [openNode_fs]
    exact Effect.setSize hch _
  have he := Effect.createNode hf (fun _ h => h) hc
  rcases hend with ⟨-, rfl⟩ | ⟨node, -, rfl⟩
  · exact he
  rw [openNode_fs]
  exact he

lemma Effect.write (v : State) (t : ℕ) (who : Option Cred) (fd : ℤ) (size : ℕ) (n : ℤ)
    (ok : Bool) : Effect who v.fs (Vfs.krustVfsWriteFd v t who fd size n ok).1.fs := by
  unfold Vfs.krustVfsWriteFd
  split
  · exact Effect.refl who v.fs
  dsimp only
  split
  · exact Effect.refl who v.fs
  split
  · exact Effect.refl who v.fs
  rename_i hc
  split
  · exact Effect.refl who v.fs
  split
  · exact Effect.refl who v.fs
  split
  · split
    · apply Effect.setSize
      simpa using hc
    · exact Effect.refl who v.fs
  · exact Effect.refl who v.fs

/-- Every call on the tree and the tables has its effect within the permissions of the task. -/
lemma Effect.op {v v' : State} {w : Cred} {c : Call} {op : Op} (ht : IsTree v.fs)
    (hop : c.op t w = some op) (hsa : TreeSafe v op) (hs : op.exec v = some v') :
    Effect (some w) v.fs v'.fs := by
  obtain ⟨kids, ht⟩ := ht
  cases c with
  | openRead path =>
    cases hop
    obtain ⟨⟨v', r⟩, hc, rfl⟩ := map_eq_some_iff.mp hs
    rw [open_fs hc]
    exact Effect.refl _ _
  | openWrite path ok =>
    cases hop
    obtain ⟨⟨v', r⟩, hc, rfl⟩ := map_eq_some_iff.mp hs
    exact Effect.openWrite ht.fresh hc
  | read fd size n =>
    cases hop
    cases hs
    rw [read_fs]
    exact Effect.refl _ _
  | write fd bytes n ok =>
    cases hop
    cases hs
    exact Effect.write _ _ _ _ _ _ _
  | lseek fd offset whence =>
    cases hop
    cases hs
    rw [lseek_fs]
    exact Effect.refl _ _
  | dup oldfd =>
    cases hop
    cases hs
    rw [dup_fs]
    exact Effect.refl _ _
  | dup2 oldfd newfd =>
    cases hop
    cases hs
    rw [dup2_fs]
    exact Effect.refl _ _
  | close fd =>
    cases hop
    cases hs
    rw [close_fs]
    exact Effect.refl _ _
  | writeFile path bytes ok =>
    cases hop
    obtain ⟨⟨s', r⟩, hc, rfl⟩ := map_eq_some_iff.mp hs
    exact Effect.writeFile ht.fresh hc
  | mkdir path ok =>
    cases hop
    obtain ⟨⟨s', r⟩, hc, rfl⟩ := map_eq_some_iff.mp hs
    exact Effect.status ht.fresh (fun _ h => checkPermission_of_six h) hc
  | symlink target path ok =>
    cases hop
    obtain ⟨⟨s', r⟩, hc, rfl⟩ := map_eq_some_iff.mp hs
    unfold krustVfsSymlink at hc
    split at hc
    · cases hc
      exact Effect.refl _ _
    · exact Effect.status ht.fresh (fun _ h => h) hc
  | unlink path =>
    cases hop
    obtain ⟨⟨s', r⟩, hc, rfl⟩ := map_eq_some_iff.mp hs
    exact Effect.unlink ht hsa hc
  | rmdir path =>
    cases hop
    obtain ⟨⟨s', r⟩, hc, rfl⟩ := map_eq_some_iff.mp hs
    exact Effect.rmdir ht hc
  | rename oldPath newPath =>
    cases hop
    obtain ⟨⟨s', r⟩, hc, rfl⟩ := map_eq_some_iff.mp hs
    exact Effect.rename ht hc
  | chmod path mode => cases hop
  | chown path uid gid => cases hop
  | fchmod fd mode => cases hop
  | fchown fd uid gid => cases hop
  | vfsChmod path mode => cases hop
  | vfsChown path uid gid => cases hop

end Effects

variable {who : Option Cred} {change : ℕ → Files}

section Steps

variable {f f' : Files} {t : ℕ} {w : Cred} {c : Call} {data : ℕ → List Byte}

lemma holds_iff {s : Fs} (h : IsTree s) (d c : ℕ) :
    Holds s d c ↔ s.live c = true ∧ s.parent c = some d ∧ c ≠ root := by
  obtain ⟨kids, ht⟩ := h
  constructor
  · intro hh
    obtain ⟨hd, hc, l, hl, hmem⟩ := hh
    rw [hl.unique (ht.linked d hd)] at hmem
    exact ht.held d c hmem
  intro hc
  obtain ⟨hli, hp, hr⟩ := hc
  have hmem := ht.mem_parent (ht.reach c hli) hr hp
  have hd : s.live d = true := by
    by_contra hde
    rw [ht.dead d (by simpa using hde)] at hmem
    cases hmem
  exact ⟨hd, hli, kids d, ht.linked d hd, hmem⟩

lemma Effect.members {s s' : Fs} (h : Effect who s s') (ht : IsTree s)
    (ht' : IsTree s') (d c : ℕ) (hne : ¬ (Holds s' d c ↔ Holds s d c)) :
    checkPermission s who d 2 = true := by
  rw [holds_iff ht, holds_iff ht'] at hne
  rcases h.place c with hs | hm
  · rw [hs.1, hs.2] at hne
    exact absurd Iff.rfl hne
  by_cases hold : s.live c = true ∧ s.parent c = some d ∧ c ≠ root
  · exact hm.1 hold.1 d hold.2.1
  have hnew : s'.live c = true ∧ s'.parent c = some d ∧ c ≠ root := by
    by_contra hnot
    exact hne (iff_of_false hnot hold)
  exact hm.2 hnew.1 d hnew.2.1

variable {path : CStr} {n : ℕ}

lemma stored_eq_some (h : stored f w path = some n) :
    n = f.vfs.fs.fresh ∨ checkPermission f.vfs.fs (some w) n 2 = true := by
  unfold stored at h
  split at h
  · split at h
    · split at h
      · rename_i hc
        cases h
        exact .inr hc
      · cases h
    cases h
    exact .inl rfl
  cases h
  exact .inl rfl

lemma replaced_of_ne {bytes : List Byte} (hn : n ≠ f.vfs.fs.fresh)
    (hne : replaced f w path bytes n ≠ f.data n) :
    checkPermission f.vfs.fs (some w) n 2 = true := by
  unfold replaced at hne
  cases hs : stored f w path with
  | none =>
    rw [hs] at hne
    exact absurd rfl hne
  | some node =>
    rw [hs] at hne
    have heq : n = node := by
      by_contra ho
      exact hne (update_of_ne ho _ _)
    rw [← heq] at hs
    exact (stored_eq_some hs).resolve_left hn

lemma grow_data {newSize n : ℕ} (h : Contents.grow f node newSize = some f')
    (hn : n ≠ node) : f'.data n = f.data n := by
  unfold Contents.grow at h
  dsimp only at h
  split at h
  · cases h
    rfl
  split at h
  · cases h
  cases h
  exact update_of_ne hn _ _

lemma writeFd_of_ne {fd : ℤ} {bytes : List Byte} {ok : Bool} {r : Contents.Result}
    (h : Contents.krustVfsWriteFd f t who fd bytes ok = some (f', r)) (hne : f'.data n ≠ f.data n) :
    checkPermission f.vfs.fs who n 2 = true := by
  unfold Contents.krustVfsWriteFd at h
  split at h
  · cases h
    exact absurd rfl hne
  dsimp only at h
  split at h
  · cases h
    exact absurd rfl hne
  rename_i node hn
  split at h
  · cases h
    exact absurd rfl hne
  rename_i hc
  split at h
  · cases h
    exact absurd rfl hne
  split at h
  · cases h
    exact absurd rfl hne
  obtain ⟨f1, hg, h⟩ := bind_eq_some_iff.mp h
  obtain ⟨buf, hbuf, h⟩ := bind_eq_some_iff.mp h
  cases h
  by_cases heq : n = node
  · rw [heq]
    simpa using hc
  · exact absurd ((update_of_ne heq _ _).trans (grow_data hg heq)) hne

lemma contents_of_ne (h : c.contents f t w = some data) (hn : n ≠ f.vfs.fs.fresh)
    (hne : data n ≠ f.data n) : checkPermission f.vfs.fs (some w) n 2 = true := by
  cases c with
  | openWrite path ok =>
    cases h
    exact replaced_of_ne hn hne
  | writeFile path bytes ok =>
    cases h
    exact replaced_of_ne hn hne
  | write fd bytes k ok =>
    obtain ⟨⟨f', r⟩, hw, heq⟩ := map_eq_some_iff.mp h
    rw [← heq] at hne
    exact writeFd_of_ne hw hne
  | _ =>
    cases h
    exact absurd rfl hne

/-- A change of owners and modes that leaves the tree and the contents alone. -/
structure Retag (f f' : Files) (w : Cred) : Prop where
  data : f'.data = f.data
  fs : ∃ uid gid mode, f'.vfs.fs = { f.vfs.fs with uid := uid, gid := gid, mode := mode }
  owner : ∀ n, f'.vfs.fs.uid n ≠ f.vfs.fs.uid n ∨ f'.vfs.fs.gid n ≠ f.vfs.fs.gid n ∨
      f'.vfs.fs.mode n ≠ f.vfs.fs.mode n → w.uid = 0 ∨ w.uid = f.vfs.fs.uid n

lemma Retag.refl (f : Files) (w : Cred) : Retag f f w :=
  ⟨rfl, ⟨_, _, _, rfl⟩, fun _ h => by rcases h with h | h | h <;> exact absurd rfl h⟩

lemma Retag.setMode (h : w.uid = 0 ∨ w.uid = f.vfs.fs.uid n) (mode : ℕ) :
    Retag f (setMode f n mode) w := by
  refine ⟨rfl, ⟨_, _, _, rfl⟩, fun k hk => ?_⟩
  by_cases heq : k = n
  · rw [heq]
    exact h
  rcases hk with hk | hk | hk
  · exact absurd rfl hk
  · exact absurd rfl hk
  · exact absurd (update_of_ne heq _ _) hk

lemma Retag.setOwner (h : w.uid = 0) (n uid gid : ℕ) : Retag f (setOwner f n uid gid) w :=
  ⟨rfl, ⟨_, _, _, rfl⟩, fun _ _ => .inl h⟩

lemma Retag.asRoot {node : Option (Option ℕ)}
    (hc : w.uid = 0 → ∀ n, Retag f (change n) w) (hs : asRoot f w node change = some f') :
    Retag f f' w := by
  unfold Permissions.asRoot at hs
  split at hs
  · cases hs
    exact Retag.refl f w
  rename_i hr
  split at hs
  · cases hs
  · cases hs
    exact Retag.refl f w
  cases hs
  exact hc (not_not.mp hr) _

lemma Retag.asAllowed {allowed : ℕ → Bool} (hc : ∀ n, allowed n = true → Retag f (change n) w)
    (hs : asAllowed f path allowed change = some f') : Retag f f' w := by
  unfold Permissions.asAllowed at hs
  split at hs
  · cases hs
    exact Retag.refl f w
  split at hs
  · cases hs
  · cases hs
    exact Retag.refl f w
  split at hs
  · cases hs
    exact Retag.refl f w
  split at hs
  · rename_i ha
    cases hs
    exact hc _ ha
  cases hs
  exact Retag.refl f w

lemma Retag.tree (h : Retag f f' w) (ht : IsTree f.vfs.fs) : IsTree f'.vfs.fs := by
  obtain ⟨uid, gid, mode, hfs⟩ := h.fs
  obtain ⟨kids, ht⟩ := ht
  rw [hfs]
  exact ⟨kids, ⟨⟨ht.linked, ht.dead, ht.held, ht.dirs, ht.names, ht.proper,
    ht.top, ht.fresh⟩, ht.reach⟩⟩

lemma Retag.permitted (h : Retag f f' w) : Permitted f f' w := by
  obtain ⟨uid, gid, mode, hfs⟩ := h.fs
  refine ⟨fun n _ _ hne => ?_, fun d c hne => ?_, fun n _ hne => h.owner n hne⟩
  · rw [h.data, hfs] at hne
    rcases hne with hne | hne <;> exact absurd rfl hne
  rw [hfs] at hne
  exact absurd Iff.rfl hne

lemma onTree_eq_some (hs : c.onTree f t w = some f') :
    ∃ op, c.op t w = some op ∧ c.contents f t w = some f'.data ∧ op.exec f.vfs = some f'.vfs := by
  obtain ⟨op, hop, hs⟩ := bind_eq_some_iff.mp hs
  obtain ⟨data, hd, hs⟩ := bind_eq_some_iff.mp hs
  obtain ⟨v, hv, hs⟩ := bind_eq_some_iff.mp hs
  cases hs
  exact ⟨op, hop, hd, hv⟩

/-- A call either changes only owners and modes, or goes through the tree and the tables. -/
lemma exec_cases (hs : c.exec f t w = some f') :
    Retag f f' w ∨ ∃ op, c.op t w = some op ∧ c.contents f t w = some f'.data ∧
      op.exec f.vfs = some f'.vfs := by
  cases c with
  | chmod path mode =>
    exact .inl (Retag.asRoot (fun hr n => Retag.setMode (.inl hr) mode) hs)
  | chown path uid gid =>
    exact .inl (Retag.asRoot (fun hr n => Retag.setOwner hr n uid gid) hs)
  | fchmod fd mode =>
    exact .inl (Retag.asRoot (fun hr n => Retag.setMode (.inl hr) mode) hs)
  | fchown fd uid gid =>
    exact .inl (Retag.asRoot (fun hr n => Retag.setOwner hr n uid gid) hs)
  | vfsChmod path mode =>
    refine .inl (Retag.asAllowed (fun n hn => Retag.setMode ?_ mode) hs)
    simpa using hn
  | vfsChown path uid gid =>
    refine .inl (Retag.asAllowed (fun n hn => Retag.setOwner ?_ n uid gid) hs)
    simpa using hn
  | _ => exact .inr (onTree_eq_some hs)

lemma exec_tree (ht : IsTree f.vfs.fs) (hsa : Safe f t w c) (hs : c.exec f t w = some f') :
    IsTree f'.vfs.fs := by
  rcases exec_cases hs with hr | ⟨op, hop, -, he⟩
  · exact hr.tree ht
  · exact ht.step (hsa op hop).1 he

lemma exec_permitted (ht : IsTree f.vfs.fs) (hsa : Safe f t w c)
    (hs : c.exec f t w = some f') : Permitted f f' w := by
  rcases exec_cases hs with hr | ⟨op, hop, hd, hex⟩
  · exact hr.permitted
  have he := Effect.op ht hop (hsa op hop).1 hex
  obtain ⟨kids, hk⟩ := ht
  refine ⟨fun n hn _ hne => ?_, fun d c hne => ?_, fun n hn hne => ?_⟩
  · rcases hne with hne | hne
    · have hlt := hk.fresh n hn
      exact contents_of_ne hd (by omega) hne
    · exact he.size n hn hne
  · exact he.members ⟨kids, hk⟩ (exec_tree ⟨kids, hk⟩ hsa hs) d c hne
  obtain ⟨huid, hgid, hm⟩ := he.owner n hn
  rcases hne with hne | hne | hne
  · exact absurd huid hne
  · exact absurd hgid hne
  · exact absurd hm hne

lemma Reached.tree (h : Reached Safe f) : IsTree f.vfs.fs := by
  induction h with
  | start => exact init_tree
  | kernel op data _ hsa hs ih => exact ih.step hsa.1 hs
  | call t w c _ hsa hs ih => exact exec_tree ih hsa hs

end Steps

/-- In every run in which the nodes stay a tree and no node that is removed is open, every call
keeps to the permissions of its task. -/
theorem reached_permitted {f f' : Files} {t : ℕ} {w : Cred} {c : Call} (h : Reached Safe f)
    (hsafe : Safe f t w c) (hs : c.exec f t w = some f') : Permitted f f' w :=
  exec_permitted h.tree hsafe hs

theorem reached_permitted_shared : ∃ f f', Reached Safe f ∧
    Call.exec f 1 ⟨1000, 1000⟩ (.writeFile [47, 102] [7] true) = some f' ∧ f.data 1 = [] ∧
      f'.data 1 = [7] ∧ Permitted f f' ⟨1000, 1000⟩ := by
  have h1 : Reached Safe _ := .call 0 ⟨0, 0⟩ (.writeFile [47, 102] [] true) .start
    (fun op hop => by
      obtain rfl := some.inj hop
      exact ⟨fun _ parent hp => by
        obtain rfl : 0 = parent := some.inj (some.inj hp)
        exact ⟨by decide, fun _ => rfl⟩, trivial⟩) rfl
  have h2 : Reached Safe _ := .call 0 ⟨0, 0⟩ (.chmod [47, 102] 0o666) h1
    (fun op hop => by cases hop) rfl
  refine ⟨_, _, h2, rfl, rfl, rfl,
    reached_permitted (t := 1) (c := .writeFile [47, 102] [7] true) h2 (fun op hop => ?_) rfl⟩
  obtain rfl := some.inj hop
  exact ⟨fun hn => absurd rfl (hn 1 rfl), trivial⟩

/-- Root makes a directory `/d` that only it may write, with a file `/d/f` that all may write. A
task of another user removes the file from the directory as `/d/f/.`. -/
theorem unlink_dot_unpermitted : ∃ f f', Reached (fun _ _ _ _ => True) f ∧
    Call.exec f 1 ⟨1000, 1000⟩ (.unlink [47, 100, 47, 102, 47, 46]) = some f' ∧
      ¬ Permitted f f' ⟨1000, 1000⟩ := by
  have h1 : Reached (fun _ _ _ _ => True) _ :=
    .call 0 ⟨0, 0⟩ (.mkdir [47, 100] true) .start trivial rfl
  have h2 : Reached (fun _ _ _ _ => True) _ :=
    .call 0 ⟨0, 0⟩ (.writeFile [47, 100, 47, 102] [] true) h1 trivial rfl
  have h3 : Reached (fun _ _ _ _ => True) _ :=
    .call 0 ⟨0, 0⟩ (.chmod [47, 100, 47, 102] 0o666) h2 trivial rfl
  refine ⟨_, _, h3, rfl, fun hp => ?_⟩
  have hc := hp.members 1 2 fun hiff => ?_
  · cases hc
  -- `/d` held `/d/f`, which is now freed
  have hf := (hiff.mpr ⟨rfl, rfl, [2], ⟨rfl, rfl⟩, List.mem_cons_self ..⟩).2.1
  cases hf

end Elitra.Permissions
