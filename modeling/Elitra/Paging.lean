import Elitra.Cow
import Elitra.Loop
import Elitra.Pte

namespace Elitra.Paging
open Function

def heapVaddr : ℕ := 0x40000000
def heapInitial : ℕ := 0x400000

/-- Physical memory by frame and 64-bit word, with the allocators' states. Directories are named
by their frame: `pml4` is the kernel's, `cr3` the active one. -/
structure Machine where
  mem : ℕ → ℕ → Pte
  pmm : Pmm.State
  cow : Cow.State
  pml4 : ℕ
  cr3 : ℕ

def pml4I (v : ℕ) : ℕ := v / 2 ^ 39 % 512
def pdpI (v : ℕ) : ℕ := v / 2 ^ 30 % 512
def pdI (v : ℕ) : ℕ := v / 2 ^ 21 % 512
def ptI (v : ℕ) : ℕ := v / 2 ^ 12 % 512

def writeEntry (m : Machine) (t i : ℕ) (e : Pte) : Machine :=
  { m with mem := update m.mem t (update (m.mem t) i e) }

/-- All 512 words of a frame at once: a `memset`, a `memcpy` or a loop over a new table. -/
def fillFrame (m : Machine) (f : ℕ) (words : ℕ → Pte) : Machine :=
  { m with mem := update m.mem f words }

def allocFrame (m : Machine) : Machine × ℕ :=
  let r := Pmm.krustPmmAllocFrame m.pmm
  ({ m with pmm := r.1 }, r.2)

def freeFrame (m : Machine) (f : ℕ) : Machine :=
  { m with pmm := Pmm.krustPmmFreeFrame m.pmm f }

/-- The result is the frame behind the pointer; frame 0 makes the null pointer. -/
def tableAlloc (m : Machine) : Machine × Option ℕ :=
  let r := allocFrame m
  if r.2 = Pmm.noFrame then (r.1, none)
  else (fillFrame r.1 r.2 fun _ => 0, if r.2 = 0 then none else some r.2)

/-- `(*t.add(i) & PTE_MASK) as *mut u64`. -/
def child (m : Machine) (t i : ℕ) : ℕ := pteFrame (m.mem t i)

/-- The guard before every step down while mapping: an absent table is allocated and linked. -/
def ensureTable (m : Machine) (t i : ℕ) (flags : Pte) : Machine × Bool :=
  if present (m.mem t i) then (m, true)
  else match tableAlloc m with
    | (m, none) => (m, false)
    | (m, some nt) => (writeEntry m t i (frameAddr nt ||| flags), true)

/-- The page table that holds the entry of an address, if no level is absent or huge. -/
def walk (m : Machine) (root addr : ℕ) : Option ℕ :=
  if !present (m.mem root (pml4I addr)) then none
  else
    let p3 := child m root (pml4I addr)
    if !present (m.mem p3 (pdpI addr)) then none
    else
      let p2 := child m p3 (pdpI addr)
      if !present (m.mem p2 (pdI addr)) then none
      else if huge (m.mem p2 (pdI addr)) then none
      else some (child m p2 (pdI addr))

/-- Replaces a 2 MB entry by a table of 512 entries for the same memory. -/
def splitHuge (m : Machine) (t2 i2 : ℕ) : Machine × Bool :=
  if huge (m.mem t2 i2) then
    let base := m.mem t2 i2 &&& pteMask
    let oldFlags := m.mem t2 i2 &&& ~~~ps2mb &&& ~~~pteMask &&& ~~~1#64
    match tableAlloc m with
    | (m, none) => (m, false)
    | (m, some nt) =>
      let m := fillFrame m nt fun j => (base + BitVec.ofNat 64 (j * 4096)) ||| oldFlags ||| 1#64
      (writeEntry m t2 i2 (frameAddr nt ||| 3#64), true)
  else (m, true)

def krustPagingMapPageIn (m : Machine) (root virt : ℕ) (phys flags : Pte) : Machine × Bool :=
  Loop.seq (ensureTable m root (pml4I virt) 3#64) fun m =>
    let t3 := child m root (pml4I virt)
    Loop.seq (ensureTable m t3 (pdpI virt) 3#64) fun m =>
      let t2 := child m t3 (pdpI virt)
      Loop.seq (ensureTable m t2 (pdI virt) 3#64) fun m =>
        Loop.seq (splitHuge m t2 (pdI virt)) fun m =>
          let t1 := child m t2 (pdI virt)
          (writeEntry m t1 (ptI virt) (leafEntry phys flags), true)

def krustPagingMapPage (m : Machine) (virt : ℕ) (phys flags : Pte) : Machine × Bool :=
  krustPagingMapPageIn m m.cr3 virt phys flags

def krustPagingUnmapPage (m : Machine) (virt : ℕ) : Machine :=
  if !present (m.mem m.cr3 (pml4I virt)) then m
  else
    let t3 := child m m.cr3 (pml4I virt)
    if !present (m.mem t3 (pdpI virt)) then m
    else
      let t2 := child m t3 (pdpI virt)
      if !present (m.mem t2 (pdI virt)) then m
      else if huge (m.mem t2 (pdI virt)) then writeEntry m t2 (pdI virt) 0
      else writeEntry m (child m t2 (pdI virt)) (ptI virt) 0

/-- `none` stands for `!0`. -/
def krustPagingGetPhys (m : Machine) (virt : ℕ) : Option Pte :=
  if !present (m.mem m.cr3 (pml4I virt)) then none
  else
    let t3 := child m m.cr3 (pml4I virt)
    if !present (m.mem t3 (pdpI virt)) then none
    else
      let t2 := child m t3 (pdpI virt)
      if !present (m.mem t2 (pdI virt)) then none
      else if huge (m.mem t2 (pdI virt)) then
        some ((m.mem t2 (pdI virt) &&& pteMask) ||| BitVec.ofNat 64 (virt % 2 ^ 21))
      else
        let e := m.mem (child m t2 (pdI virt)) (ptI virt)
        if !present e then none else some ((e &&& pteMask) ||| BitVec.ofNat 64 (virt % 4096))

def refinc (m : Machine) (frame : ℕ) : Machine :=
  { m with cow := Cow.krustCowRefinc m.cow frame }

/-- `(phys / 4096) as u32`. -/
def frame32 (e : Pte) : ℕ := pteFrame e % 2 ^ 32

def cowResolvePage (m : Machine) (target addr : ℕ) : Machine × Bool :=
  match walk m target addr with
  | none => (m, false)
  | some p1 =>
    let ent := m.mem p1 (ptI addr)
    if !present ent then (m, false)
    else if !cow ent then (m, false)
    else
      let r := Cow.krustCowRefdec m.cow (frame32 ent)
      let m := { m with cow := r.1 }
      if r.2 = 0 then (writeEntry m p1 (ptI addr) (soleEntry ent), true)
      else
        let a := allocFrame m
        if a.2 = Pmm.noFrame then (a.1, false)
        else
          let m := fillFrame a.1 a.2 (a.1.mem (pteFrame ent))
          (writeEntry m p1 (ptI addr) (copyEntry a.2), true)

/-- The fault path: the same body on the active directory. -/
def cowResolve (m : Machine) (addr : ℕ) : Machine × Bool := cowResolvePage m m.cr3 addr

/-- One entry of a page directory of the kernel, copied with 2 MB pages split. -/
def cloneEntry (srcPd newPd i2 : ℕ) (m : Machine) : Machine :=
  let e := m.mem srcPd i2
  if !present e then m
  else if huge e then
    let base := e &&& pteMask
    let flags := (e &&& flagsMask) &&& ~~~ps2mb
    match tableAlloc m with
    | (m, none) => m
    | (m, some newPt) =>
      let m := fillFrame m newPt fun i1 =>
        (base + BitVec.ofNat 64 (i1 * 0x1000)) ||| flags ||| 1#64
      writeEntry m newPd i2 (frameAddr newPt ||| flags ||| 1#64)
  else
    let srcPt := child m srcPd i2
    match tableAlloc m with
    | (m, none) => m
    | (m, some newPt) =>
      let m := writeEntry m newPd i2 (frameAddr newPt ||| (m.mem srcPd i2 &&& flagsMask) ||| 1#64)
      fillFrame m newPt (m.mem srcPt)

def cloneDirectory (srcPdp newPdp i3 : ℕ) (m : Machine) : Machine :=
  let e := m.mem srcPdp i3
  if !present e then m
  else if huge e then m
  else
    let srcPd := child m srcPdp i3
    match tableAlloc m with
    | (m, none) => m
    | (m, some newPd) =>
      let m := writeEntry m newPdp i3
        (frameAddr newPd ||| (m.mem srcPdp i3 &&& flagsMask) ||| 1#64)
      Loop.each (cloneEntry srcPd newPd) (List.range 512) m

/-- The deep copy of the lower half into the directory `np`. -/
def cloneLower (m : Machine) (np : ℕ) : Machine :=
  if !present (m.mem m.pml4 0) then m
  else
    let srcPdp := child m m.pml4 0
    match tableAlloc m with
    | (m, none) => m
    | (m, some newPdp) =>
      let m := writeEntry m np 0 (frameAddr newPdp ||| (m.mem m.pml4 0 &&& flagsMask) ||| 1#64)
      Loop.each (cloneDirectory srcPdp newPdp) (List.range 512) m

def krustPagingCloneKernelDir (m : Machine) : Machine × Option ℕ :=
  match tableAlloc m with
  | (m, none) => (m, none)
  | (m, some np) =>
    -- The upper half shares the kernel's tables.
    let m := fillFrame m np fun i => if 256 ≤ i then m.mem m.pml4 i else m.mem np i
    (cloneLower m np, some np)

def copyLeaf (s1 d1 i1 : ℕ) (m : Machine) : Machine × Bool :=
  let e := m.mem s1 i1
  if !present e then (m, true)
  else if writable (e &&& flagsMask) && user (e &&& flagsMask) then
    let m := refinc m (frame32 e)
    let m := writeEntry m s1 i1 (cowEntry e)
    (writeEntry m d1 i1 (cowEntry e), true)
  else (writeEntry m d1 i1 e, true)

/-- A 2 MB page of the source becomes 512 shared pages on both sides. -/
def copyHuge (s2 d2 i2 : ℕ) (m : Machine) : Machine × Bool :=
  let e := m.mem s2 i2
  let base := e &&& pteMask
  let fl := (e &&& flagsMask) &&& ~~~ps2mb
  let paddr := fun i1 : ℕ => base + BitVec.ofNat 64 (i1 * 4096)
  let cowOf := fun i1 : ℕ => paddr i1 ||| (fl &&& ~~~2#64) ||| cowBit ||| 1#64
  match tableAlloc m with
  | (m, sPt) => match tableAlloc m with
    | (m, dPt) => match sPt, dPt with
      | some sPt, some dPt =>
        let m := Loop.each (fun i1 m => refinc m ((paddr i1).toNat / 4096 % 2 ^ 32))
          (List.range 512) m
        let m := fillFrame m sPt cowOf
        let m := fillFrame m dPt cowOf
        let m := writeEntry m s2 i2 (frameAddr sPt ||| (fl &&& ~~~ps2mb) ||| 1#64)
        (writeEntry m d2 i2 (frameAddr dPt ||| (fl &&& ~~~ps2mb) ||| 1#64), true)
      | _, _ => (m, false)

/-- The part the three upper loops share: skip an absent entry of the source table `s`, make the
table behind the entry of `d` if need be, and run the next inner loop. -/
def copyLevel (inner : ℕ → ℕ → ℕ → Machine → Machine × Bool) (s d i : ℕ) (m : Machine) :
    Machine × Bool :=
  if !present (m.mem s i) then (m, true)
  else
    let s' := child m s i
    Loop.seq (ensureTable m d i 7#64) fun m =>
      Loop.run (inner s' (child m d i)) (List.range 512) m

def copyTable (s2 d2 i2 : ℕ) (m : Machine) : Machine × Bool :=
  if present (m.mem s2 i2) && huge (m.mem s2 i2) then copyHuge s2 d2 i2 m
  else copyLevel copyLeaf s2 d2 i2 m

def copyDirectory (s3 d3 i3 : ℕ) (m : Machine) : Machine × Bool := copyLevel copyTable s3 d3 i3 m

def copyPdp (src dst i4 : ℕ) (m : Machine) : Machine × Bool := copyLevel copyDirectory src dst i4 m

/-- The flag tells whether the function ran to its end or left early for want of a frame. -/
def krustPagingCopyUserPages (m : Machine) (src dst : ℕ) : Machine × Bool :=
  Loop.run (copyPdp src dst) (List.range 256) m

/-- A machine with the frames passed to `krust_pmm_free_frame` so far, in order. -/
structure Freeing where
  machine : Machine
  freed : List ℕ

def Freeing.free (s : Freeing) (f : ℕ) : Freeing := ⟨freeFrame s.machine f, s.freed ++ [f]⟩

def freeLeaf (t1 i1 : ℕ) (s : Freeing) : Freeing :=
  let e := s.machine.mem t1 i1
  if !present e then s
  else if cow e then
    let r := Cow.krustCowRefdec s.machine.cow (frame32 e)
    let s := { s with machine := { s.machine with cow := r.1 } }
    if r.2 = 0 then s.free (pteFrame e) else s
  else s.free (pteFrame e)

/-- The part the three upper loops share: run the next inner loop on the table behind the entry,
then free that table. -/
def freeLevel (inner : ℕ → ℕ → Freeing → Freeing) (t i : ℕ) (s : Freeing) : Freeing :=
  if !present (s.machine.mem t i) then s
  else
    let s := Loop.each (inner (child s.machine t i)) (List.range 512) s
    if present (s.machine.mem t i) then s.free (child s.machine t i) else s

def freeTable (t2 i2 : ℕ) (s : Freeing) : Freeing :=
  if present (s.machine.mem t2 i2) && huge (s.machine.mem t2 i2) then s
  else freeLevel freeLeaf t2 i2 s

def freeDirectory (t3 i3 : ℕ) (s : Freeing) : Freeing := freeLevel freeTable t3 i3 s

def freePdp (t4 i4 : ℕ) (s : Freeing) : Freeing := freeLevel freeDirectory t4 i4 s

def krustPagingFreeUserPages (m : Machine) (root : ℕ) : Freeing :=
  (Loop.each (freePdp root) (List.range 256) ⟨m, []⟩).free root

end Elitra.Paging
