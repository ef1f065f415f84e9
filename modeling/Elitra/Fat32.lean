import Elitra.StateRun
import Mathlib.Algebra.Ring.Nat

namespace Elitra.Fat32
open StateRun

abbrev Byte := BitVec 8

def attrDirectory : Byte := 0x10
def attrArchive : Byte := 0x20
def attrLfn : Byte := 0x0F
def fat32Eoc : ℕ := 0x0FFFFFF8
def fat32Free : ℕ := 0
def deleted : Byte := 0xE5
def space : Byte := 32
def dirEntrySize : ℕ := 32

/-- `Instance` without the image and the callback. -/
structure Instance where
  bytesPerSector : ℕ
  sectorsPerCluster : ℕ
  reservedSectors : ℕ
  numFats : ℕ
  sectorsPerFat : ℕ
  rootCluster : ℕ
  firstDataSector : ℕ
  firstFatSector : ℕ
  totalClusters : ℕ
  deriving DecidableEq

/-- The image and the calls of `write_callback`, newest first. The other fields are history: the bytes
that changed after the last callback for them, the clusters that were written (by their FAT entry or
their sectors), and those of them that were cleared with data behind their first sector. -/
structure Vol where
  byte : ℕ → Byte
  marks : List (ℕ × ℕ)
  stale : ℕ → Bool
  clusters : List ℕ
  uncleared : List ℕ

def mounted (image : ℕ → Byte) : Vol := ⟨image, [], fun _ => false, [], []⟩

def le16 (f : ℕ → Byte) (off : ℕ) : ℕ := (f off).toNat + (f (off + 1)).toNat * 2 ^ 8

def le32 (f : ℕ → Byte) (off : ℕ) : ℕ := le16 f off + le16 f (off + 2) * 2 ^ 16

def bytes16 (n : ℕ) : List Byte := [BitVec.ofNat 8 n, BitVec.ofNat 8 (n / 2 ^ 8)]

def bytes32 (n : ℕ) : List Byte := bytes16 n ++ bytes16 (n / 2 ^ 16)

def entryAt (f : ℕ → Byte) (off : ℕ) : List Byte :=
  (List.range dirEntrySize).map fun i => f (off + i)

/-- `krust_fat32_init`; the outer `none` is a division by zero, the inner one a rejected image. -/
def krustFat32Init (image : ℕ → Byte) (imageSize : ℕ) : Option (Option Instance) :=
  let bps := le16 image 11
  let spc := (image 13).toNat
  let reserved := le16 image 14
  let numFats := (image 16).toNat
  let spf := le32 image 36
  let rootCluster := le32 image 44
  let s16 := le16 image 19
  let s32 := le32 image 32
  let totalSectors := if s16 ≠ 0 then s16 else s32
  let firstFat := reserved
  let firstData := (firstFat + numFats * spf) % 2 ^ 32
  let minSectors := (firstData + 1) % 2 ^ 32
  if imageSize < minSectors * bps then some none
  else if firstData < totalSectors ∧ spc = 0 then none
  else
    let totalClusters := if firstData < totalSectors then (totalSectors - firstData) / spc else 0
    some (some ⟨bps, spc, reserved, numFats, spf, rootCluster, firstData, firstFat, totalClusters⟩)

section Access

variable (g : Instance)

def Vol.write (v : Vol) (off : ℕ) (bytes : List Byte) : Vol :=
  let new := fun i => if off ≤ i ∧ i < off + bytes.length then bytes.getD (i - off) 0 else v.byte i
  { v with
    byte := new
    stale := fun i => v.stale i || new i != v.byte i }

def Vol.mark (v : Vol) (off len : ℕ) : Vol :=
  { v with
    marks := (off, len) :: v.marks
    stale := fun i => v.stale i && !(decide (off ≤ i) && decide (i < off + len)) }

def Vol.touch (v : Vol) (c : ℕ) : Vol := { v with clusters := c :: v.clusters }

def Instance.bytesPerCluster : ℕ := g.bytesPerSector * g.sectorsPerCluster

/-- `cluster - 2` in 32 bits. -/
def clusterIndex (c : ℕ) : ℕ := if 2 ≤ c then c - 2 else 2 ^ 32 - 2 + c

def clusterToSector (c : ℕ) : ℕ :=
  (g.firstDataSector + clusterIndex c * g.sectorsPerCluster) % 2 ^ 32

def clusterOffset (c : ℕ) : ℕ := clusterToSector g c * g.bytesPerSector

def Vol.markDirty (v : Vol) (sector : ℕ) : Vol :=
  v.mark (sector * g.bytesPerSector % 2 ^ 32) g.bytesPerSector

def fatSector (c : ℕ) : ℕ := (g.firstFatSector + c * 4 % 2 ^ 32 / g.bytesPerSector) % 2 ^ 32

def fatOffset (c : ℕ) : ℕ := fatSector g c * g.bytesPerSector + c * 4 % 2 ^ 32 % g.bytesPerSector

def fatEntry (f : ℕ → Byte) (c : ℕ) : ℕ := le32 f (fatOffset g c) % 2 ^ 28

end Access

section Fat

variable (g : Instance)

/-- Without bytes in a sector the driver divides by zero. -/
def krustFat32GetFatEntry (c : ℕ) : Prog Vol ℕ := do
  if g.bytesPerSector = 0 then failure
  else
    let v ← get
    return fatEntry g v.byte c

/-- `krust_fat32_set_fat_entry`: the upper four bits stay, and only the first FAT is written. -/
def Vol.setFat (v : Vol) (c value : ℕ) : Vol :=
  let old := le32 v.byte (fatOffset g c) / 2 ^ 28 * 2 ^ 28
  ((v.touch c).write (fatOffset g c) (bytes32 (old + value % 2 ^ 28))).markDirty g (fatSector g c)

def krustFat32SetFatEntry (c value : ℕ) : Prog Vol PUnit := do
  if g.bytesPerSector = 0 then failure
  else modify fun v => v.setFat g c value

def allocLoop : List ℕ → Prog Vol ℕ
  | [] => return 0
  | c :: cs => do
    let e ← krustFat32GetFatEntry g c
    if e = fat32Free then
      krustFat32SetFatEntry g c fat32Eoc
      return c
    else allocLoop cs

/-- The first free cluster, or 0; the last two of the volume are not tried. -/
def krustFat32AllocCluster : Prog Vol ℕ := allocLoop g (List.range' 2 (g.totalClusters - 2))

/-- The end of a chain. -/
def isEnd (n : ℕ) : Bool := decide (fat32Eoc ≤ n) || decide (n < 2)

/-- Here and below `fuel` bounds the clusters of a chain that are visited. -/
def krustFat32FreeChain : (fuel c : ℕ) → Prog Vol PUnit
  | 0, _ => failure
  | fuel + 1, c => do
    let n ← krustFat32GetFatEntry g c
    krustFat32SetFatEntry g c fat32Free
    if isEnd n then return () else krustFat32FreeChain fuel n

end Fat

/-- A C string, with the memory behind its null byte. -/
structure Name where
  text : List Byte
  after : ℕ → Byte
  nonzero : ∀ b ∈ text, b ≠ 0

def Name.at (name : Name) (i : ℕ) : Byte :=
  if i < name.text.length then name.text.getD i 0
  else if i = name.text.length then 0
  else name.after (i - name.text.length - 1)

def dot : Byte := 46

def upper (c : Byte) : Byte := if 97 ≤ c ∧ c ≤ 122 then c - 32 else c

/-- The first loop of `name_matches`, from `si` on; it ends at the null byte or behind a dot. A write
behind the array is a panic. -/
def baseLoop (name : Name) : (fuel si : ℕ) → List Byte → Option (List Byte × ℕ)
  | 0, _, _ => none
  | fuel + 1, si, sfn =>
    if name.at si = 0 then some (sfn, si)
    else if name.at si = dot then some (sfn, si + 1)
    else if si < 11 then baseLoop name fuel (si + 1) (sfn.set si (upper (name.at si)))
    else none

/-- The second loop. It goes on at the same index of the name, which is 8 after the padding. -/
def extLoop (name : Name) : (fuel si ei : ℕ) → List Byte → Option (List Byte × ℕ)
  | 0, _, _, _ => none
  | fuel + 1, si, ei, sfn =>
    if name.at si = 0 then some (sfn, ei)
    else if ei < 3 then extLoop name fuel (si + 1) (ei + 1) (sfn.set (8 + ei) (upper (name.at si)))
    else none

/-- `sfn[from..upTo]` set to blanks. -/
def padded (sfn : List Byte) (start stop : ℕ) : List Byte :=
  (List.range sfn.length).map fun i => if start ≤ i ∧ i < stop then space else sfn.getD i 0

/-- The eleven bytes that `name_matches` compares an entry with. -/
def matchName (name : Name) : Option (List Byte) := do
  let (sfn, si) ← baseLoop name 12 0 (List.replicate 11 0)
  let (sfn, ei) ← extLoop name 4 (max si 8) 0 (padded sfn si 8)
  return padded sfn (8 + ei) 11

/-- The base and the extension, split at the first dot; later dots are part of the extension. -/
def krustFat32NameToSfn (name : Name) : List Byte :=
  let base := name.text.takeWhile (· ≠ dot)
  let ext := (name.text.dropWhile (· ≠ dot)).tail
  let field (text : List Byte) (n : ℕ) : List Byte :=
    (text.take n).map upper ++ List.replicate (n - text.length) space
  field base 8 ++ field ext 3

section Directories

variable (g : Instance)

/-- A place for an entry: its sector and its offset. -/
structure Slot where
  sector : ℕ
  off : ℕ
  deriving DecidableEq

/-- The places of a directory's cluster, in the order of the search. -/
def slots (c : ℕ) : List Slot :=
  (List.range g.sectorsPerCluster).flatMap fun so =>
    (List.range (g.bytesPerSector / dirEntrySize)).map fun eo =>
      let sector := (clusterToSector g c + so) % 2 ^ 32
      ⟨sector, sector * g.bytesPerSector + eo * dirEntrySize⟩

inductive Scan where
  | here (s : Slot)
  | stop
  | next

def scanSlots (f : ℕ → Byte) (sfn : Option (List Byte)) : List Slot → Option Scan
  | [] => some .next
  | s :: rest =>
    if f s.off = 0 then some .stop
    else if f s.off = deleted ∨ f (s.off + 11) = attrLfn then scanSlots f sfn rest
    else
      match sfn with
      | none => none
      | some sfn => if (entryAt f s.off).take 11 = sfn then some (.here s) else scanSlots f sfn rest

/-- The loop that `krust_fat32_find_dir_entry` and `remove_entry` share: the cluster and the place of
the entry with the name. -/
def locate (name : Name) : (fuel c : ℕ) → Prog Vol (Option (ℕ × Slot))
  | 0, _ => failure
  | fuel + 1, c => do
    let v ← get
    match scanSlots v.byte (matchName name) (slots g c) with
    | none => failure
    | some (.here s) => return some (c, s)
    | some .stop => return none
    | some .next =>
      let n ← krustFat32GetFatEntry g c
      if isEnd n then return none else locate name fuel n

def krustFat32FindDirEntry (fuel dir : ℕ) (name : Name) : Prog Vol (Option (List Byte)) := do
  match ← locate g name fuel dir with
  | none => return none
  | some (_, s) =>
    let v ← get
    return some (entryAt v.byte s.off)

def Vol.writeSlot (v : Vol) (c : ℕ) (s : Slot) (bytes : List Byte) : Vol :=
  ((v.touch c).write s.off bytes).markDirty g s.sector

/-- A cluster filled with zeros and then with entries at its start; one sector is marked. -/
def Vol.clearCluster (v : Vol) (c : ℕ) (entries : List Byte) : Vol :=
  let off := clusterOffset g c
  let rest := (List.range g.bytesPerCluster).drop g.bytesPerSector
  let v := { v.touch c with
    uncleared := if rest.all fun i => v.byte (off + i) = 0 then v.uncleared else c :: v.uncleared }
  let v := v.write off (List.replicate g.bytesPerCluster 0)
  (v.write off entries).markDirty g (clusterToSector g c)

/-- The end of `krust_fat32_add_dir_entry`: a new last cluster for the directory. -/
def growDir (last : ℕ) (entry : List Byte) : Prog Vol Bool := do
  let nc ← krustFat32AllocCluster g
  if nc = 0 then return false
  else
    krustFat32SetFatEntry g last nc
    modify fun v => v.clearCluster g nc entry
    return true

def krustFat32AddDirEntry (entry : List Byte) : (fuel c : ℕ) → Prog Vol Bool
  | 0, _ => failure
  | fuel + 1, c => do
    let v ← get
    match (slots g c).find? fun s => v.byte s.off = 0 ∨ v.byte s.off = deleted with
    | some s =>
      modify fun v => v.writeSlot g c s entry
      return true
    | none =>
      let n ← krustFat32GetFatEntry g c
      if isEnd n then growDir g c entry else krustFat32AddDirEntry entry fuel n

def removeEntry (fuel dir : ℕ) (name : Name) : Prog Vol ℤ := do
  match ← locate g name fuel dir with
  | none => return -1
  | some (c, s) =>
    modify fun v => v.writeSlot g c s [deleted]
    return 0

end Directories

section Files

variable (g : Instance)

def makeEntry (sfn : List Byte) (attr : Byte) (cluster size : ℕ) : List Byte :=
  sfn ++ [attr] ++ List.replicate 8 0 ++ bytes16 (cluster / 2 ^ 16) ++ List.replicate 4 0 ++
    bytes16 cluster ++ bytes32 size

def dirGetCluster (entry : List Byte) : ℕ :=
  le16 (fun i => entry.getD i 0) 20 * 2 ^ 16 + le16 (fun i => entry.getD i 0) 26

/-- The chain of an entry is freed, if it has one. -/
def freeEntry (fuel : ℕ) (entry : List Byte) : Prog Vol PUnit :=
  let c := dirGetCluster entry
  if 2 ≤ c ∧ c < fat32Eoc then krustFat32FreeChain g fuel c else return ()

/-- The loop that allocates `n` more clusters behind `prev`; `first` is 0 before the first one. The
result is the first cluster, or nothing after everything was freed again. -/
def allocChain (fuel : ℕ) : (n first prev : ℕ) → Prog Vol (Option ℕ)
  | 0, first, _ => return some first
  | n + 1, first, prev => do
    let c ← krustFat32AllocCluster g
    if c = 0 then
      if first ≠ 0 then
        krustFat32FreeChain g fuel first
        return none
      else return none
    else
      if prev ≠ 0 then
        krustFat32SetFatEntry g prev c
        allocChain fuel n first c
      else allocChain fuel n c c

/-- The sectors `base..base + n` marked one after another. -/
def Vol.markSectors (v : Vol) (base : ℕ) : ℕ → Vol
  | 0 => v
  | n + 1 => (v.markSectors base n).markDirty g ((base + n) % 2 ^ 32)

/-- Data at the start of a cluster, all of whose sectors are marked. -/
def Vol.writeCluster (v : Vol) (c : ℕ) (chunk : List Byte) : Vol :=
  ((v.touch c).write (clusterOffset g c) chunk).markSectors g (clusterToSector g c)
    g.sectorsPerCluster

def writeData : (fuel c : ℕ) → List Byte → Prog Vol PUnit
  | 0, _, _ => failure
  | fuel + 1, c, data => do
    if data = [] ∨ c < 2 ∨ fat32Eoc ≤ c then return ()
    else
      modify fun v => v.writeCluster g c (data.take g.bytesPerCluster)
      if data.length ≤ g.bytesPerCluster then return ()
      else
        let n ← krustFat32GetFatEntry g c
        writeData fuel n (data.drop g.bytesPerCluster)

/-- The end of `krust_fat32_write_file` for a file that is not empty. What `add_dir_entry` says is not
looked at. -/
def writeChain (fuel dir : ℕ) (name : Name) (data : List Byte) : Prog Vol ℤ := do
  if g.bytesPerCluster = 0 then failure
  else
    let num := (data.length + (g.bytesPerCluster - 1)) % 2 ^ 32 / g.bytesPerCluster
    if num = 0 then return -1
    else
      match ← allocChain g fuel num 0 0 with
      | none => return -1
      | some first =>
        writeData g fuel first data
        let _ ← krustFat32AddDirEntry g
          (makeEntry (krustFat32NameToSfn name) attrArchive first data.length) fuel dir
        return 0

def krustFat32WriteFile (fuel dir : ℕ) (name : Name) (data : List Byte) : Prog Vol ℤ := do
  match ← krustFat32FindDirEntry g fuel dir name with
  | none => pure ()
  | some entry => freeEntry g fuel entry
  if data = [] then
    let ok ← krustFat32AddDirEntry g (makeEntry (krustFat32NameToSfn name) attrArchive 0 0) fuel dir
    return if ok then 0 else -1
  else writeChain g fuel dir name data

def dotEntries (nc parent : ℕ) : List Byte :=
  makeEntry (dot :: List.replicate 10 space) attrDirectory nc 0 ++
    makeEntry (dot :: dot :: List.replicate 9 space) attrDirectory parent 0

def krustFat32CreateDir (fuel dir : ℕ) (name : Name) : Prog Vol ℤ := do
  let nc ← krustFat32AllocCluster g
  if nc = 0 then return -1
  else
    modify fun v => v.clearCluster g nc (dotEntries nc (if dir = g.rootCluster then 0 else dir))
    let _ ← krustFat32AddDirEntry g
      (makeEntry (krustFat32NameToSfn name) attrDirectory nc 0) fuel dir
    return 0

/-- What the two deleting functions do: the chain is freed, whatever the entry is. -/
def deleteEntry (fuel dir : ℕ) (name : Name) : Prog Vol ℤ := do
  match ← krustFat32FindDirEntry g fuel dir name with
  | none => return -1
  | some entry =>
    freeEntry g fuel entry
    removeEntry g fuel dir name

def krustFat32DeleteFile (fuel dir : ℕ) (name : Name) : Prog Vol ℤ := deleteEntry g fuel dir name

def krustFat32DeleteDir (fuel dir : ℕ) (name : Name) : Prog Vol ℤ := deleteEntry g fuel dir name

def krustFat32RenameEntry (fuel oldDir : ℕ) (oldName : Name) (newDir : ℕ) (newName : Name) :
    Prog Vol ℤ := do
  match ← krustFat32FindDirEntry g fuel oldDir oldName with
  | none => return -1
  | some entry =>
    let ok ← krustFat32AddDirEntry g (krustFat32NameToSfn newName ++ entry.drop 11) fuel newDir
    if ok then removeEntry g fuel oldDir oldName else return -1

inductive Call where
  | allocCluster
  | freeCluster (c : ℕ)
  | freeChain (start : ℕ)
  | addDirEntry (dir : ℕ) (entry : Vector Byte 32)
  | writeFile (dir : ℕ) (name : Name) (data : List Byte)
  | createDir (dir : ℕ) (name : Name)
  | deleteFile (dir : ℕ) (name : Name)
  | deleteDir (dir : ℕ) (name : Name)
  | renameEntry (oldDir : ℕ) (oldName : Name) (newDir : ℕ) (newName : Name)

def Call.exec (fuel : ℕ) : Call → Prog Vol ℤ
  | allocCluster => do return (← krustFat32AllocCluster g : ℕ)
  | freeCluster c => do
    krustFat32SetFatEntry g c fat32Free
    return 1
  | freeChain start => do
    krustFat32FreeChain g fuel start
    return 1
  | addDirEntry dir entry => do
    return if ← krustFat32AddDirEntry g entry.toList fuel dir then 1 else 0
  | writeFile dir name data => krustFat32WriteFile g fuel dir name data
  | createDir dir name => krustFat32CreateDir g fuel dir name
  | deleteFile dir name => krustFat32DeleteFile g fuel dir name
  | deleteDir dir name => krustFat32DeleteDir g fuel dir name
  | renameEntry oldDir oldName newDir newName =>
    krustFat32RenameEntry g fuel oldDir oldName newDir newName

end Files

end Elitra.Fat32
