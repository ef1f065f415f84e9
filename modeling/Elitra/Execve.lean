import Elitra.ElfBytes

namespace Elitra.Exec
open Elf Option Paging Vmm

/-- One entry of a page table in `krust_paging_free_user_pages`. -/
def freeEntry (t1 i1 : ℕ) (m : Machine) : Machine :=
  let e := m.mem t1 i1
  if !present e then m
  else if e &&& cowBit ≠ 0 then
    let r := Cow.krustCowRefdec m.cow (frame32 e)
    let m := { m with cow := r.1 }
    if r.2 = 0 then freeFrame m (pteFrame e) else m
  else freeFrame m (pteFrame e)

/-- The walk over the tables of the lower half, which both functions that free it make: `leaf` is
what is done for an entry of a page table. A table is freed after what is below it. -/
def freeLower (leaf : ℕ → ℕ → Machine → Machine) (m : Machine) (root : ℕ) : Machine :=
  let m := Loop.each (fun i4 m =>
    if !present (m.mem root i4) then m
    else
      let t3 := child m root i4
      let m := Loop.each (fun i3 m =>
        if !present (m.mem t3 i3) then m
        else
          let t2 := child m t3 i3
          let m := Loop.each (fun i2 m =>
            if !present (m.mem t2 i2) then m
            else if huge (m.mem t2 i2) then m
            else
              let t1 := child m t2 i2
              freeFrame (Loop.each (leaf t1) (List.range 512) m) t1) (List.range 512) m
          freeFrame m t2) (List.range 512) m
      freeFrame m t3) (List.range 256) m
  freeFrame m root

def krustPagingFreeUserPages (m : Machine) (root : ℕ) : Machine := freeLower freeEntry m root

def krustPagingFreePageTables (m : Machine) (root : ℕ) : Machine := freeLower (fun _ _ m => m) m root

section Path

open Vfs

/-- The bytes of "/bin/" and ".elf". -/
def binPath : CStr := [47, 98, 105, 110, 47]
def elfSuffix : CStr := [46, 101, 108, 102]

/-- The node at the path, if it is a file. The outer option is that of `krust_vfs_resolve`. -/
def fileAt (fs : Fs) (path : CStr) : Option (Option ℕ) :=
  (krustVfsResolve fs path).map fun n => n.filter fun i => fs.kind i = .file

/-- The path itself, or `/bin/<path>.elf`. -/
def execNode (fs : Fs) (path : CStr) : Option (Option ℕ) :=
  (fileAt fs path).bind fun n =>
    if n.isSome then some n
    else if path.length < 55 then fileAt fs (binPath ++ path ++ elfSuffix)
    else some none

def closeFrom (v : Vfs.State) (t : ℕ) : Vfs.State :=
  Loop.each (fun i v => if (v.entry t i).used then (krustVfsClose v t i).1 else v)
    (List.range' 3 (maxFds - 3)) v

end Path

/-- What `execve` sees of the calling task: the active page tables, the bytes of the frames, its
areas and break, the descriptors and the signal handlers. -/
structure Caller where
  machine : Machine
  byte : ℕ → ℕ → BitVec 8
  space : Space
  files : Vfs.State
  handler : ℕ → ℕ

def Caller.memory (c : Caller) (s : Loader) : Caller :=
  { c with machine := s.machine, byte := s.byte }

/-- A call of `krust_elf_load` on the active page tables. -/
def Caller.load (c : Caller) (file : Mem × ℕ) (random : ℕ) : Caller × Bool :=
  let r := krustElfLoad file.1 file.2 random (.start c.machine c.byte)
  (c.memory r.1, r.2.1 == 0)

/-- The old program's memory and descriptors. -/
def Caller.tearDown (c : Caller) (t : ℕ) : Caller :=
  { c with
    machine := krustPagingFreeUserPages c.machine c.machine.cr3
    space := Space.new
    files := closeFrom c.files t }

def stackPage (i : ℕ) : ℕ := ustackBase + i * pageSize

def dropStack (i : ℕ) (m : Machine) : Machine :=
  Loop.each (fun j m =>
    krustPagingUnmapPage (match krustPagingGetPhys m (stackPage j) with
      | some phys => freeFrame m (phys.toNat / 4096)
      | none => m) (stackPage j)) (List.range' 1 (i - 1)) m

/-- Page `i` of the new stack. What `krust_paging_map_page` returns is not looked at. -/
def growStack (i : ℕ) (c : Caller) : Caller × Bool :=
  let a := allocFrame c.machine
  if a.2 = Pmm.noFrame then ({ c with machine := dropStack i a.1 }, false)
  else
    let m := (krustPagingMapPage (fillFrame a.1 a.2 fun _ => 0) (stackPage i) (frameAddr a.2) 7#64).1
    ({ c with machine := m, byte := Function.update c.byte a.2 fun _ => 0 }, true)

/-- The exits of `krust_sched_execve` that go back to the old page tables. -/
def Caller.abandon (c : Caller) (old np : ℕ) : Caller :=
  { c with machine := krustPagingFreePageTables { c.machine with cr3 := old } np }

/-- `krust_sched_execve` after the switch to the new page tables. -/
def enterNew (c : Caller) (old np : ℕ) (file : Mem × ℕ) (random : ℕ) : Caller × ℤ :=
  let r := c.load file random
  if !r.2 then (r.1.abandon old np, -1)
  else
    let r := Loop.run growStack (List.range' 1 (ustackPages - 1)) r.1
    if !r.2 then (r.1.abandon old np, -1)
    else ({ r.1 with handler := fun i => if i < 32 ∧ r.1.handler i ≠ 1 then 0 else r.1.handler i }, 0)

/-- `krust_sched_execve`, from the first load on; the arguments are apart. -/
def execFile (c : Caller) (t : ℕ) (file : Mem × ℕ) (random random' : ℕ) : Caller × ℤ :=
  let r := c.load file random
  if !r.2 then (r.1, -1)
  else
    let c := r.1.tearDown t
    match krustPagingCloneKernelDir c.machine with
    | (m, none) => ({ c with machine := m }, -1)
    | (m, some np) =>
      enterNew { c with machine := { m with cr3 := np } } c.machine.cr3 np file random'

/-- `krust_sched_execve` of the task `t`; `contents` are the data of the files, the random words
are for the two loads. -/
def krustSchedExecve (c : Caller) (t : ℕ) (path : Vfs.CStr) (contents : ℕ → Mem × ℕ)
    (random random' : ℕ) : Option (Caller × ℤ) :=
  (execNode c.files.fs path).map fun n => n.elim (c, -1) fun n =>
    execFile c t (contents n) random random'

section Failure

variable {c c' : Caller} {t random random' : ℕ} {path : Vfs.CStr} {contents : ℕ → Mem × ℕ}
  {file : Mem × ℕ}

/-- A file that cannot harm the caller when its load fails: it is refused for its header, or the
clean-up removes what was loaded of it and nothing else. -/
structure Harmless (m : Machine) (file : Mem × ℕ) (random : ℕ) : Prop where
  size : file.2 < 2 ^ 32
  removable : Accepted file.1 file.2 → Removable m file.1 file.2 random

end Failure

end Elitra.Exec
