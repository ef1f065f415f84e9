import Elitra.MemoryCalls
import Elitra.Syscalls

namespace Elitra.Elf
open Function ByteMem Paging Vmm

/-- The fields of the file header that the loader reads. -/
structure Header where
  type : ℕ
  machine : ℕ
  entry : ℕ
  phoff : ℕ
  phentsize : ℕ
  phnum : ℕ
  deriving DecidableEq, Repr

/-- The fields of a program header that the loader reads. -/
structure ProgramHeader where
  type : ℕ
  offset : ℕ
  vaddr : ℕ
  filesz : ℕ
  memsz : ℕ
  deriving DecidableEq, Repr

/-- Where the two classes of files differ: the layout of both headers, the size of the first, and
how many bytes of the second the loader looks at. -/
structure Format where
  header : Mem → Header
  headerSize : ℕ
  programHeader : Mem → ℕ → ProgramHeader
  programHeaderRead : ℕ

def elf32 : Format where
  header d := ⟨readLE d 16 2, readLE d 18 2, readLE d 24 4, readLE d 28 4, readLE d 42 2, readLE d 44 2⟩
  headerSize := 52
  programHeader d o :=
    ⟨readLE d o 4, readLE d (o + 4) 4, readLE d (o + 8) 4, readLE d (o + 16) 4, readLE d (o + 20) 4⟩
  programHeaderRead := 24

def elf64 : Format where
  header d := ⟨readLE d 16 2, readLE d 18 2, readLE d 24 8, readLE d 32 8, readLE d 54 2, readLE d 56 2⟩
  headerSize := 64
  programHeader d o :=
    ⟨readLE d o 4, readLE d (o + 8) 8, readLE d (o + 16) 8, readLE d (o + 32) 8, readLE d (o + 40) 8⟩
  programHeaderRead := 48

def etExec : ℕ := 2
def etDyn : ℕ := 3
def em386 : ℕ := 3
def emX8664 : ℕ := 62
def ptLoad : ℕ := 1

/-- What the loader touches: bytes of the file, frames it takes, pages it maps, and memory it
writes through virtual addresses. -/
inductive Access where
  | read (offset len : ℕ)
  | frame (f : ℕ)
  | map (page : ℕ)
  | write (addr len : ℕ)
  deriving DecidableEq, Repr

/-- The loader's state. `machine` has the page tables, `byte` the contents of the frames that hold
no tables, `log` the accesses so far; `mapStart` and `mapEnd` are the loader's own variables. -/
structure Loader where
  machine : Machine
  byte : ℕ → ℕ → BitVec 8
  log : List Access
  mapStart : ℕ
  mapEnd : ℕ

def Loader.note (s : Loader) (a : Access) : Loader := { s with log := s.log ++ [a] }

/-- A store through the active page tables. Where nothing is mapped it is a fault, and changes
nothing here. -/
def Loader.storeByte (s : Loader) (v : ℕ) (b : BitVec 8) : Loader :=
  match krustPagingGetPhys s.machine v with
  | none => s
  | some phys =>
    { s with
      byte := update s.byte (phys.toNat / 4096)
        (update (s.byte (phys.toNat / 4096)) (phys.toNat % 4096) b) }

def Loader.loadByte (s : Loader) (v : ℕ) : Option (BitVec 8) :=
  (krustPagingGetPhys s.machine v).map fun phys => s.byte (phys.toNat / 4096) (phys.toNat % 4096)

/-- `memcpy` of the bytes `src 0`, `src 1`, .. and, with zeros, `memset`. -/
def Loader.memcpy (s : Loader) (dst : ℕ) (src : ℕ → BitVec 8) (n : ℕ) : Loader :=
  Loop.each (fun k s => s.storeByte (add64 dst k) (src k)) (List.range n) (s.note (.write dst n))

def Loader.claim (s : Loader) (m : Machine) (f : ℕ) : Loader :=
  { s with
    machine := fillFrame m f fun _ => 0
    byte := update s.byte f fun _ => 0
    log := s.log ++ [Access.frame f] }

def mapOne (vaddr : ℕ) (s : Loader) : Loader × Bool :=
  let a := allocFrame s.machine
  if a.2 = Pmm.noFrame then ({ s with machine := a.1 }, false)
  else
    let s := s.claim a.1 a.2
    let r := krustPagingMapPage s.machine vaddr (frameAddr a.2) 7#64
    if r.2 then (Loader.note { s with machine := r.1 } (.map vaddr), true)
    else ({ s with machine := freeFrame r.1 a.2 }, false)

def segmentStart (base : ℕ) (ph : ProgramHeader) : ℕ := alignDown (add64 ph.vaddr base)

def segmentEnd (base : ℕ) (ph : ProgramHeader) : ℕ :=
  alignUp (add64 (add64 ph.vaddr base) ph.memsz)

/-- The two writes at the end of a round of the outer loop. -/
def fillSegment (d : Mem) (size base : ℕ) (ph : ProgramHeader) (s : Loader) : Loader :=
  let s := if add64 ph.offset ph.filesz ≤ size then
      (s.note (.read ph.offset ph.filesz)).memcpy (add64 ph.vaddr base)
        (fun k => d (ph.offset + k)) ph.filesz
    else s
  if ph.filesz < ph.memsz then
    s.memcpy (add64 (add64 ph.vaddr base) ph.filesz) (fun _ => 0) (ph.memsz - ph.filesz)
  else s

def loadSegment (d : Mem) (size base : ℕ) (ph : ProgramHeader) (s : Loader) : Loader × Bool :=
  let start := segmentStart base ph
  let stop := segmentEnd base ph
  let s := { s with
    mapStart := if start < s.mapStart then start else s.mapStart
    mapEnd := if s.mapEnd < stop then stop else s.mapEnd }
  Loop.seq (Loop.run (fun k => mapOne (pageAt start k)) (List.range (rounds start stop)) s) fun s =>
    (fillSegment d size base ph s, true)

/-- The place of program header `i`, as an offset from the start of the file. -/
def headerOffset (h : Header) (i : ℕ) : ℕ := add64 h.phoff (i * h.phentsize)

/-- Program header `i` of the file. -/
def Format.segment (fmt : Format) (d : Mem) (i : ℕ) : ProgramHeader :=
  fmt.programHeader d (headerOffset (fmt.header d) i)

/-- One round of the outer loop; `false` stands for the exits that clean up and return -1. -/
def loadHeader (fmt : Format) (d : Mem) (size base i : ℕ) (s : Loader) : Loader × Bool :=
  let h := fmt.header d
  if size < add64 h.phoff ((i + 1) * h.phentsize) then (s, false)
  else
    let o := headerOffset h i
    let ph := fmt.segment d i
    let s := s.note (.read o 4)
    if ph.type ≠ ptLoad then (s, true)
    else loadSegment d size base ph (s.note (.read o fmt.programHeaderRead))

def elfCleanupPages (s : Loader) : Loader :=
  { s with machine := (unmapPages s.mapStart s.mapEnd s.machine).machine }

/-- `load_elf32` and `load_elf64`, with the value returned and the entry stored. -/
def loadElf (fmt : Format) (d : Mem) (size base : ℕ) (s : Loader) : Loader × ℤ × Option ℕ :=
  let h := fmt.header d
  match Loop.run (loadHeader fmt d size base) (List.range h.phnum) s with
  | (s, true) => (s, 0, some (add64 h.entry base))
  | (s, false) => (elfCleanupPages s, -1, none)

def aslrBase : ℕ := 0x200000

def generateAslrBase (random : ℕ) : ℕ := aslrBase + random % 2 ^ 8 * 2 ^ 12

def Loader.start (m : Machine) (byte : ℕ → ℕ → BitVec 8) : Loader := ⟨m, byte, [], 2 ^ 64 - 1, 0⟩

/-- `krust_elf_load` on the `size` bytes at `d`. -/
def krustElfLoad (d : Mem) (size random : ℕ) (s : Loader) : Loader × ℤ × Option ℕ :=
  if size < 16 then (s, -1, none)
  else
    let s := s.note (.read 0 6)
    if d 0 ≠ 0x7F ∨ d 1 ≠ 0x45 ∨ d 2 ≠ 0x4C ∨ d 3 ≠ 0x46 then (s, -1, none)
    else if d 5 ≠ 1 then (s, -1, none)
    else if d 4 = 1 then
      if size < elf32.headerSize then (s, -1, none)
      else
        let s := s.note (.read 0 elf32.headerSize)
        let h := elf32.header d
        if h.type ≠ etExec then (s, -1, none)
        else if h.machine ≠ em386 then (s, -1, none)
        else loadElf elf32 d size 0 s
    else if d 4 = 2 then
      if size < elf64.headerSize then (s, -1, none)
      else
        let s := s.note (.read 0 elf64.headerSize)
        let h := elf64.header d
        if h.type ≠ etExec ∧ h.type ≠ etDyn then (s, -1, none)
        else if h.machine ≠ emX8664 then (s, -1, none)
        else loadElf elf64 d size (if h.type = etDyn then generateAslrBase random else 0) s
    else (s, -1, none)

end Elitra.Elf
