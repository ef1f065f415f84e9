import Elitra.AccessLog
import Elitra.Heap
import Elitra.Traps
import Elitra.Vfs

namespace Elitra.Syscalls
open AccessLog Signals Vfs

def userAddrMax : ℕ := 0x00007FFFFFFFFFFF

def isUserRange (ptr size : ℕ) : Bool :=
  if 2 ^ 64 ≤ ptr + size then false
  else if userAddrMax < ptr + size then false
  else if ptr < 0x1000 then false
  else true

/-- The five arguments that the calls read, from `rbx`, `rcx`, `rdx`, `r10` and `r8`. -/
structure Args where
  arg1 : ℕ
  arg2 : ℕ
  arg3 : ℕ
  arg4 : ℕ
  arg5 : ℕ
  deriving DecidableEq, Repr

def toU32 (n : ℕ) : ℕ := n % 2 ^ 32
def toI32 (n : ℕ) : ℤ := (BitVec.ofNat 32 n).toInt

/-- The functions behind a device node. `moved` is how many bytes the driver moves when it is asked
for a number of sectors. -/
inductive Device where
  | null
  | zero
  | random
  | kmsg
  | mouse (packet : Bool)
  | tty (typed : ℕ)
  | block (sectorSize : ℕ) (moved : ℕ → ℕ)

/-- The task that makes the call. -/
structure Task where
  slot : ℕ
  cred : Cred
  stdinFd : ℤ
  stdoutFd : ℤ
  cwd : CStr
  env : List (CStr × Option CStr)
  sig : Sig

/-- What a call finds: the memory behind the task's addresses, the file system, and the answers of
the parts of the kernel that it asks. A pipe end has `pipeIn` bytes for a reader, or takes
`pipeOut` from a writer, before it gives up. -/
structure Kernel where
  task : Task
  mem : Mem
  vfs : State
  device : ℕ → Option Device
  pipeIn : ℤ → ℕ
  pipeOut : ℤ → ℕ
  freePipe : Bool
  allocates : Bool
  received : ℤ → Option ℕ
  connecting : ℤ → Bool
  reaped : Bool
  cloned : Bool
  exec : Traps.Exec

def bytesAt (m : Mem) (p n : ℕ) : List ℕ := (List.range n).map fun i => (m (p + i)).toNat

/-- The bytes before the first null one, of `max`. -/
def cstrAt (m : Mem) (p max : ℕ) : CStr := (bytesAt m p max).takeWhile (· ≠ 0)

def copyStringFromUser (k : Kernel) (src max : ℕ) (next : CStr → List Event) : List Event :=
  let text := cstrAt k.mem src max
  guarded isUserRange src max
    (.touch src (min max (text.length + 1)) :: next (text.take (max - 1)))

def copyToUser (dst len : ℕ) : List Event := guarded isUserRange dst len (touches [(dst, len)])

def copyCstrToUser (dst : ℕ) (src : List ℕ) : List Event :=
  guarded isUserRange dst (min src.length 64 + 1)
    (touches [(dst, ((src.take 64).takeWhile (· ≠ 0)).length + 1)])

def appendCstr (size : ℕ) (buf s : List ℕ) : List ℕ := (buf ++ s.takeWhile (· ≠ 0)).take size

/-- A pointer that may be null. -/
def guardedSome (p n : ℕ) (next : List Event) : List Event :=
  if p = 0 then next else guarded isUserRange p n next

def bytes (s : String) : List ℕ := s.toList.map Char.toNat

/-- The node of a descriptor that the task may use. -/
def fdNode (k : Kernel) (fd : ℤ) (want : ℕ) : Option (Entry × ℕ) := do
  let i ← usedFd k.vfs k.task.slot fd
  let e := k.vfs.entry k.task.slot i
  let node ← e.node
  if checkPermission k.vfs.fs (some k.task.cred) node want then some (e, node) else none

/-- `block_dev_read` and `block_dev_write` move whole sectors. -/
def blockBytes (sectorSize : ℕ) (moved : ℕ → ℕ) (size : ℕ) : ℕ :=
  if sectorSize = 0 then 0 else moved (min ((size + sectorSize - 1) % 2 ^ 32 / sectorSize) 256)

def devRead (k : Kernel) (size : ℕ) : Device → ℕ
  | .null => 0
  | .zero => size
  | .random => size
  | .kmsg => 0
  | .mouse packet => if size < 3 then 0 else if packet then 3 else 0
  | .tty typed => min size (if 0 ≤ k.task.stdinFd then k.pipeIn k.task.stdinFd else typed)
  | .block sectorSize moved => blockBytes sectorSize moved size

def devWrite (size : ℕ) : Device → ℕ
  | .null => 0
  | .zero => 0
  | .random => 0
  | .kmsg => size
  | .mouse _ => 0
  | .tty _ => size
  | .block sectorSize moved => blockBytes sectorSize moved size

def vfsRead (k : Kernel) (fd : ℤ) (size : ℕ) : ℕ :=
  match fdNode k fd 4 with
  | none => 0
  | some (e, node) =>
    if k.vfs.fs.kind node = .device then (k.device node).elim 0 (devRead k size)
    else min size (k.vfs.fs.size node - e.offset)

def vfsWrite (k : Kernel) (fd : ℤ) (size : ℕ) : ℕ :=
  match fdNode k fd 2 with
  | none => 0
  | some (e, node) =>
    if k.vfs.fs.kind node = .device then (k.device node).elim 0 (devWrite size)
    else if k.vfs.fs.kind node ≠ .file then 0
    else if k.vfs.fs.size node < (e.offset + size) % 2 ^ 32 ∧ !k.allocates then 0
    else size

def vfsWriteFile (k : Kernel) (path : CStr) (size : ℕ) : ℕ :=
  match krustVfsWriteFile k.vfs.fs (some k.task.cred) path size k.allocates with
  | some (_, 0) => size
  | _ => 0

def resolved (k : Kernel) (path : CStr) : Option ℕ := (krustVfsResolve k.vfs.fs path).join

/-- The names that the listing of a directory stores, each with its mark; the result is `total`. -/
def listLoop (s : Fs) (bufLen : ℕ) : ℕ → Option ℕ → ℕ → ℕ
  | _, none, total => total
  | 0, some _, total => total
  | fuel + 1, some c, total =>
    if bufLen < total + (s.name c).length + 2 then total
    else listLoop s bufLen fuel (s.next c) (total + (s.name c).length + 1)

def reclen (s : Fs) (c : ℕ) : ℕ := (19 + (s.name c).length + 1 + 7) / 8 * 8

/-- The loop of `getdents`: where each record is stored and how long its name is. -/
def direntLoop (s : Fs) (offset count : ℕ) : ℕ → Option ℕ → ℕ → List (ℕ × ℕ)
  | _, none, _ => []
  | 0, some _, _ => []
  | fuel + 1, some c, pos =>
    if offset ≤ pos then
      if offset + count < pos + reclen s c then []
      else (pos, (s.name c).length) :: direntLoop s offset count fuel (s.next c) (pos + reclen s c)
    else direntLoop s offset count fuel (s.next c) (pos + 1)

section Calls

variable (k : Kernel) (a : Args)

def sysWrite : List Event :=
  guarded isUserRange a.arg1 a.arg2
    (if 0 ≤ k.task.stdoutFd then
      touches [(a.arg1, min (toU32 a.arg2) (k.pipeOut k.task.stdoutFd))]
    else touches [(a.arg1, a.arg2), (a.arg1, a.arg2)])

def sysPath : List Event := copyStringFromUser k a.arg1 256 fun _ => []

/-- `rename` and `symlink`. -/
def sysTwoPaths : List Event :=
  copyStringFromUser k a.arg1 256 fun _ => copyStringFromUser k a.arg2 256 fun _ => []

/-- `chmod` and `chown`, which only root may call. -/
def sysOwnedPath : List Event := if k.task.cred.uid ≠ 0 then [] else sysPath k a

def sysRead : List Event :=
  guarded isUserRange a.arg2 a.arg3
    (touches [(a.arg2, vfsRead k (toI32 a.arg1) (toU32 a.arg3))])

def sysListdir : List Event :=
  copyStringFromUser k a.arg1 256 fun path =>
    guarded isUserRange a.arg2 a.arg3 <|
      match resolved k path with
      | none => []
      | some dir =>
        if k.vfs.fs.kind dir ≠ .dir then []
        else
          let bufLen := toU32 a.arg3
          let total := listLoop k.vfs.fs bufLen bufLen (k.vfs.fs.children dir) 0
          touches ((a.arg2, total) :: if total < bufLen then [(a.arg2 + total, 1)] else [])

def sysWriteFile : List Event :=
  copyStringFromUser k a.arg1 256 fun path =>
    guarded isUserRange a.arg2 a.arg3 (touches [(a.arg2, vfsWriteFile k path (toU32 a.arg3))])

def statFields : List (ℕ × ℕ) := [(0, 1), (4, 4), (8, 63), (72, 2), (74, 2), (76, 2)]

def sysStat : List Event :=
  copyStringFromUser k a.arg1 256 fun path =>
    guarded isUserRange a.arg2 80 <|
      match resolved k path with
      | none => []
      | some _ => touches (statFields.map fun f => (a.arg2 + f.1, f.2))

def sysPipe : List Event :=
  guarded isUserRange a.arg1 8
    (if k.freePipe then touches [(a.arg1, 4), (a.arg1 + 4, 4)] else [])

def sysPipeRead : List Event :=
  guarded isUserRange a.arg2 a.arg3
    (touches [(a.arg2, min (toU32 a.arg3) (k.pipeIn (toI32 a.arg1)))])

def sysPipeWrite : List Event :=
  guarded isUserRange a.arg2 a.arg3
    (touches [(a.arg2, min (toU32 a.arg3) (k.pipeOut (toI32 a.arg1)))])

def sysWriteFd : List Event :=
  guarded isUserRange a.arg2 a.arg3
    (touches [(a.arg2, vfsWrite k (toI32 a.arg1) (toU32 a.arg3))])

def kernelName : List ℕ := bytes "Elitra OS"
def kernelVersion : List ℕ := bytes "0.2.0"
def kernelArch : List ℕ := bytes "x86-64"

def utsVersion : List ℕ :=
  let text := [kernelName, bytes " v", kernelVersion, bytes " ", kernelArch].foldl (appendCstr 65) []
  text ++ List.replicate (65 - text.length) 0

/-- The branch of `uptime` that fills a `utsname`. -/
def sysUname : List Event :=
  if a.arg1 = 0 ∨ a.arg2 = 0 then []
  else
    copyCstrToUser a.arg1 kernelName ++ (copyCstrToUser (a.arg1 + 65) (bytes "elitra" ++ [0]) ++
      (copyCstrToUser (a.arg1 + 130) kernelVersion ++ (copyCstrToUser (a.arg1 + 195) utsVersion ++
        copyCstrToUser (a.arg1 + 260) kernelArch)))

def sysGetcwd : List Event :=
  guarded isUserRange a.arg1 a.arg2
    (if a.arg2 = 0 then []
    else
      let i := min (a.arg2 - 1) k.task.cwd.length
      touches [(a.arg1, i), (a.arg1 + i, 1)])

/-- The clock: the range is tested once more by `copy_to_user`. -/
def sysTime : List Event := guarded isUserRange a.arg1 8 (copyToUser a.arg1 8)

def sysWaitpid : List Event :=
  if k.reaped ∧ a.arg2 ≠ 0 then guarded isUserRange a.arg2 4 (copyToUser a.arg2 4) else []

def argvAt (argv i : ℕ) : ℕ := ByteMem.readLE k.mem (argv + 8 * i) 8

/-- The loop that finds the end of an argument. -/
def strlen (m : Mem) : ℕ → ℕ → ℕ
  | 0, _ => 0
  | fuel + 1, p => if m p = 0 then 0 else strlen m fuel (p + 1) + 1

def argLen (argv i : ℕ) : ℕ := strlen k.mem (2 ^ 64) (argvAt k argv i)

/-- The test of the arguments, one byte of each. -/
def argvLoop (argv : ℕ) (next : List Event) : List ℕ → List Event
  | [] => next
  | i :: rest =>
    .touch (argv + 8 * i) 8 :: guarded isUserRange (argvAt k argv i) 1 (argvLoop argv next rest)

def ustackSize : ℕ := Traps.ustackPages * 4096

/-- `krust_sched_execve`: it measures the arguments in the old address space and, if all goes well,
copies them in the new one. -/
def execveReads (argc argv : ℕ) : List Event :=
  if k.exec = .early ∨ argc = 0 ∨ argv = 0 ∨ 16 ≤ argc then []
  else
    touches ((List.range argc).flatMap fun i =>
      [(argv + 8 * i, 8), (argvAt k argv i, argLen k argv i + 1)]) ++
    touches (match k.exec with
      | .done _ _ _ =>
        if ((List.range argc).map fun i => argLen k argv i + 1).sum + 8 * (argc + 1) ≤
            ustackSize - 16 then
          (List.range argc).map fun i => (argvAt k argv i, argLen k argv i)
        else []
      | _ => [])

def sysExecve : List Event :=
  let argc := (toI32 a.arg2).toNat
  copyStringFromUser k a.arg1 256 fun _ =>
    if argc = 0 ∨ a.arg3 = 0 then execveReads k argc a.arg3
    else
      guarded isUserRange a.arg3 (8 * (argc + 1))
        (argvLoop k a.arg3 (execveReads k argc a.arg3) (List.range argc))

/-- The reasons for which `krust_sched_sigaction` refuses. -/
def SigactionRefuses (sig : ℤ) (handler : ℕ) : Prop :=
  sig < 0 ∨ nsig ≤ sig.toNat ∨ sig.toNat = sigkill ∨
    (handler ≠ 0 ∧ handler ≠ 1 ∧ (0x00007FFFFFFFFFFF < handler ∨ handler < 0x1000))

instance (sig : ℤ) (handler : ℕ) : Decidable (SigactionRefuses sig handler) := by
  unfold SigactionRefuses
  infer_instance

def sysSigaction : List Event :=
  if SigactionRefuses (toI32 a.arg1) a.arg2 ∨ a.arg3 = 0 then [] else touches [(a.arg3, 8)]

def sysSigreturn (rsp : ℕ) : List Event := touches [(rsp, 56)]

def sysPoll : List Event :=
  if a.arg2 = 0 ∨ 1024 < a.arg2 then []
  else
    guarded isUserRange a.arg1 (a.arg2 * 8) <|
      touches ((List.range a.arg2).flatMap fun i =>
        (a.arg1 + 8 * i, 4) ::
          if toI32 (ByteMem.readLE k.mem (a.arg1 + 8 * i) 4) < 0 then []
          else [(a.arg1 + (8 * i + 6), 2)])

def sysSelect : List Event :=
  let nfds := toI32 a.arg1
  let bitmapSize := (nfds.toNat + 7) / 8
  if nfds ≤ 0 ∨ 1024 < nfds then []
  else
    guardedSome a.arg2 bitmapSize <| guardedSome a.arg3 bitmapSize <|
      guardedSome a.arg4 bitmapSize <| guardedSome a.arg5 8 <|
        touches ((if a.arg2 = 0 then [] else [(a.arg2, bitmapSize)]) ++
          if a.arg3 = 0 then [] else [(a.arg3, bitmapSize)])

/-- `krust_sched_clone` stores the new task's number twice, untested. -/
def sysClone : List Event :=
  if k.cloned then
    touches ((if a.arg3 = 0 then [] else [(a.arg3, 4)]) ++ if a.arg5 = 0 then [] else [(a.arg5, 4)])
  else []

def sysAffinity : List Event :=
  if a.arg2 < 8 then [] else guarded isUserRange a.arg1 8 (copyToUser a.arg1 8)

def sysConnect : List Event := guarded isUserRange a.arg2 4 (touches [(a.arg2, 4)])

def sysSendto : List Event :=
  guarded isUserRange a.arg2 a.arg3
    (guarded isUserRange a.arg4 4 (touches [(a.arg2, min a.arg3 4096), (a.arg4, 4)]))

def sysRecvfrom : List Event :=
  guarded isUserRange a.arg2 a.arg3 <|
    match k.received (toI32 a.arg1) with
    | none => []
    | some n =>
      touches [(a.arg2, min (min a.arg3 4096) n)] ++
        if a.arg4 = 0 then []
        else guarded isUserRange a.arg4 6 (touches [(a.arg4, 4), (a.arg4 + 4, 1), (a.arg4 + 5, 1)])

/-- Both pointers are tested, also the second one when the first is refused. -/
def sysAccept : List Event :=
  let tested (p n : ℕ) : List Event := if p ≠ 0 ∧ isUserRange p n then [.accept p n] else []
  tested a.arg2 4 ++ (tested a.arg3 2 ++
    if (a.arg2 = 0 ∨ isUserRange a.arg2 4) ∧ (a.arg3 = 0 ∨ isUserRange a.arg3 2) ∧
        k.connecting (toI32 a.arg1) then
      touches ((if a.arg2 = 0 then [] else [(a.arg2, 4)]) ++ if a.arg3 = 0 then [] else [(a.arg3, 2)])
    else [])

def sysIoctl : List Event :=
  if toU32 a.arg2 = 0x5413 then
    if a.arg3 = 0 then [] else guarded isUserRange a.arg3 8 (touches [(a.arg3, 8)])
  else if toU32 a.arg2 = 0x541B then
    if usedFd k.vfs k.task.slot (toI32 a.arg1) = none ∨ a.arg3 = 0 then []
    else guarded isUserRange a.arg3 4 (touches [(a.arg3, 4)])
  else []

/-- The other `poll`, which reads all entries first and stores the answers in the end. -/
def sysPollMs : List Event :=
  if 64 < a.arg2 ∨ a.arg1 = 0 then []
  else
    guarded isUserRange a.arg1 (a.arg2 * 8) <|
      touches ((List.range a.arg2).flatMap (fun i =>
          [(a.arg1 + 8 * i, 4), (a.arg1 + (8 * i + 4), 2)]) ++
        (List.range a.arg2).map fun i => (a.arg1 + (8 * i + 4), 2))

def sysClockGettime : List Event :=
  if a.arg2 = 0 then []
  else
    guarded isUserRange a.arg2 16
      (if toI32 a.arg1 = 0 ∨ toI32 a.arg1 = 1 ∨ toI32 a.arg1 = 4 then
        touches [(a.arg2, 8), (a.arg2 + 8, 8)]
      else [])

def sysNanosleep : List Event :=
  if a.arg1 = 0 then []
  else
    guarded isUserRange a.arg1 16
      (touches [(a.arg1, 8), (a.arg1 + 8, 8)] ++
        if a.arg2 = 0 then []
        else guarded isUserRange a.arg2 16 (touches [(a.arg2, 8), (a.arg2 + 8, 8)]))

/-- The records that `getdents` stores, if the descriptor is one of a directory. -/
def dirents : List (ℕ × ℕ) :=
  match usedFd k.vfs k.task.slot (toI32 a.arg1) with
  | none => []
  | some fd =>
    let e := k.vfs.entry k.task.slot fd
    match e.node with
    | none => []
    | some node =>
      if k.vfs.fs.kind node ≠ .dir then []
      else
        direntLoop k.vfs.fs e.offset a.arg3 (e.offset + a.arg3 + 1) (k.vfs.fs.children node) 0

def sysGetdents : List Event :=
  if usedFd k.vfs k.task.slot (toI32 a.arg1) = none ∨ a.arg2 = 0 then []
  else
    guarded isUserRange a.arg2 a.arg3
      (touches ((dirents k a).map fun d => (a.arg2 + d.1, 20 + d.2)))

def sysReadlink : List Event :=
  copyStringFromUser k a.arg1 256 fun path =>
    if a.arg2 = 0 ∨ a.arg3 = 0 then []
    else
      guarded isUserRange a.arg2 a.arg3 <|
        match (resolveParent k.vfs.fs path).join.bind fun parent =>
            (findChild k.vfs.fs parent (extractName path)).join with
        | none => []
        | some node =>
          if toU32 a.arg3 = 0 ∨ k.vfs.fs.kind node ≠ .symlink then []
          else
            let i := min (toU32 a.arg3 - 1) (k.vfs.fs.linkTarget node).length
            touches [(a.arg2, i), (a.arg2 + i, 1)]

def sysSetenv : List Event :=
  copyStringFromUser k a.arg1 64 fun _ => copyStringFromUser k a.arg2 256 fun _ => []

def sysGetenv : List Event :=
  copyStringFromUser k a.arg1 64 fun name =>
    if a.arg2 = 0 ∨ a.arg3 = 0 then []
    else
      guarded isUserRange a.arg2 a.arg3 <|
        match k.task.env.find? fun kv => kv.1 = name with
        | none => []
        | some (_, none) => touches [(a.arg2, 1)]
        | some (_, some val) =>
          let i := min val.length (a.arg3 - 1)
          touches [(a.arg2, i), (a.arg2, i), (a.arg2 + i, 1)]

/-- The dispatch on the number of the call. Those that take no pointer have no entry; `rsp` is the
task's stack pointer. -/
def dispatch (rsp : ℕ) : ℕ → List Event
  | 0 => sysWrite k a
  | 4 => sysPath k a
  | 5 => sysRead k a
  | 7 => sysListdir k a
  | 8 => sysWriteFile k a
  | 9 => sysPath k a
  | 10 => sysPath k a
  | 11 => sysPath k a
  | 12 => sysTwoPaths k a
  | 13 => sysStat k a
  | 15 => sysPipe k a
  | 16 => sysPipeRead k a
  | 17 => sysPipeWrite k a
  | 19 => sysWriteFd k a
  | 21 => sysUname a
  | 24 => sysPath k a
  | 25 => sysGetcwd k a
  | 26 => sysPath k a
  | 27 => sysTime a
  | 29 => sysExecve k a
  | 30 => sysWaitpid k a
  | 33 => sysSigaction a
  | 34 => sysSigreturn rsp
  | 44 => sysPoll k a
  | 45 => sysSelect a
  | 46 => sysClone k a
  | 52 => sysAffinity a
  | 56 => sysConnect a
  | 57 => sysSendto a
  | 58 => sysRecvfrom k a
  | 63 => sysAccept k a
  | 64 => sysIoctl k a
  | 65 => sysPollMs a
  | 66 => sysClockGettime a
  | 67 => sysNanosleep a
  | 76 => sysOwnedPath k a
  | 77 => sysOwnedPath k a
  | 78 => sysGetdents k a
  | 79 => sysTwoPaths k a
  | 80 => sysReadlink k a
  | 82 => sysSetenv k a
  | 83 => sysGetenv k a
  | _ => []

/-- The frame of a handler that is entered before the call, pushed on the user's stack. -/
def delivery (r : Regs) : List Event :=
  match (deliverSignals k.task.sig r).2 with
  | .enters _ => touches [(newUsp r, 56)]
  | _ => []

/-- `syscall_handler_c` with the number in `rax`. -/
def syscallHandlerC (r : Regs) : List Event :=
  delivery k r ++
    if 83 < r.rax then [] else dispatch k a (Traps.entryFrame k.task.sig r).userRsp r.rax

end Calls

end Elitra.Syscalls
