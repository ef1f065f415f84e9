import Mathlib.Algebra.Ring.Nat
import Mathlib.Tactic.Common

namespace Elitra.Ext2

abbrev Byte := BitVec 8

/-- What a call can do wrong. -/
inductive Fault where
  | divideByZero | image | blockBuffer | inodeBuffer | groupDescriptor | callerBuffer
  deriving DecidableEq, Repr

abbrev Run := Except Fault

def wrappingAdd (a b : ℕ) : ℕ := (a + b) % 2 ^ 32
def wrappingSub (a b : ℕ) : ℕ := (a + (2 ^ 32 - b)) % 2 ^ 32
def wrappingMul (a b : ℕ) : ℕ := a * b % 2 ^ 32

def div (a b : ℕ) : Run ℕ := if b = 0 then throw .divideByZero else pure (a / b)
def mod (a b : ℕ) : Run ℕ := if b = 0 then throw .divideByZero else pure (a % b)

/-- `size` bytes of memory. -/
structure Area where
  byte : ℕ → Byte
  size : ℕ

def zeroed (size : ℕ) : Area := ⟨fun _ => 0, size⟩

/-- The `n` bytes at `off`; a read outside the area is the fault `f`. -/
def Area.read (f : Fault) (a : Area) (off n : ℕ) : Run (ℕ → Byte) :=
  if off + n ≤ a.size then pure fun i => a.byte (off + i) else throw f

/-- The first `n` bytes of `src` stored at `off`; a write outside the area is the fault `f`. -/
def Area.write (f : Fault) (a : Area) (off : ℕ) (src : ℕ → Byte) (n : ℕ) : Run Area :=
  if off + n ≤ a.size then
    pure { a with byte := fun i => if off ≤ i ∧ i < off + n then src (i - off) else a.byte i }
  else throw f

def Area.read8 (f : Fault) (a : Area) (off : ℕ) : Run ℕ := do
  let b ← a.read f off 1
  pure (b 0).toNat

def Area.readLe16 (f : Fault) (a : Area) (off : ℕ) : Run ℕ := do
  let b ← a.read f off 2
  pure ((b 0).toNat + (b 1).toNat * 2 ^ 8)

def Area.readLe32 (f : Fault) (a : Area) (off : ℕ) : Run ℕ := do
  let b ← a.read f off 4
  pure ((b 0).toNat + (b 1).toNat * 2 ^ 8 + (b 2).toNat * 2 ^ 16 + (b 3).toNat * 2 ^ 24)

def ext2Magic : ℕ := 0xEF53
def ext2SIfmt : ℕ := 0xF000
def ext2SIfdir : ℕ := 0x4000
def ext2SIfreg : ℕ := 0x8000

/-- The bytes of a descriptor that are copied, and the bytes of `Ext2BlockGroupDescriptor`. -/
def bgdtSize : ℕ := 32
def descriptorSize : ℕ := 20
def inodeBufSize : ℕ := 256

structure Instance where
  image : Area
  blockSize : ℕ
  inodesPerGroup : ℕ
  blocksPerGroup : ℕ
  inodeSize : ℕ
  inodeTableBlocks : ℕ
  firstDataBlock : ℕ
  bgdtBlock : ℕ

/-- The offset of a block, or nothing for one that the image does not hold in full. -/
def readBlock (fs : Instance) (blockNum : ℕ) : Option ℕ :=
  if blockNum * fs.blockSize + fs.blockSize > fs.image.size then none
  else some (blockNum * fs.blockSize)

def findBg (fs : Instance) (inodeNum : ℕ) (bg : Area) : Run (Option Area) := do
  let bgId ← div (wrappingSub inodeNum 1) fs.inodesPerGroup
  let bgPerBlock := fs.blockSize / bgdtSize
  let blockOff ← div bgId bgPerBlock
  let entryOff ← mod bgId bgPerBlock
  match readBlock fs (wrappingAdd fs.bgdtBlock blockOff) with
  | none => pure none
  | some data =>
    let src ← fs.image.read .image (data + entryOff * bgdtSize) bgdtSize
    let bg ← bg.write .groupDescriptor 0 src bgdtSize
    pure (some bg)

/-- The buffer with the inode, or nothing for −1. -/
def krustExt2ReadInode (fs : Instance) (inodeNum : ℕ) (inodeBuf : Area) : Run (Option Area) := do
  match ← findBg fs inodeNum (zeroed descriptorSize) with
  | none => pure none
  | some bg =>
    let inodeIndex ← mod (wrappingSub inodeNum 1) fs.inodesPerGroup
    let inodesPerBlock ← div fs.blockSize fs.inodeSize
    let blockOff ← div inodeIndex inodesPerBlock
    let entryOff ← mod inodeIndex inodesPerBlock
    let inodeTable ← bg.readLe32 .groupDescriptor 8
    match readBlock fs (wrappingAdd inodeTable blockOff) with
    | none => pure none
    | some data =>
      let src ← fs.image.read .image (data + entryOff * fs.inodeSize) fs.inodeSize
      let inodeBuf ← inodeBuf.write .inodeBuffer 0 src fs.inodeSize
      pure (some inodeBuf)

def readPointer (fs : Instance) (block i : ℕ) : Run ℕ :=
  if block = 0 then pure 0
  else
    match readBlock fs block with
    | none => pure 0
    | some data => fs.image.readLe32 .image (data + i * 4)

/-- The number of a file's block, found through the direct, the indirect and the double indirect
pointers; 0 where there is none. -/
def blockNumber (fs : Instance) (inodeBuf : Area) (blockIndex : ℕ) : Run ℕ := do
  if blockIndex < 12 then inodeBuf.readLe32 .inodeBuffer (40 + blockIndex * 4)
  else
    let bi := blockIndex - 12
    let ptrsPerBlock := fs.blockSize / 4
    if bi < ptrsPerBlock then
      let indirect ← inodeBuf.readLe32 .inodeBuffer (40 + 12 * 4)
      readPointer fs indirect bi
    else
      let bi := bi - ptrsPerBlock
      if bi < wrappingMul ptrsPerBlock ptrsPerBlock then
        let dindirect ← inodeBuf.readLe32 .inodeBuffer (40 + 13 * 4)
        let idx1 ← div bi ptrsPerBlock
        let idx2 ← mod bi ptrsPerBlock
        let indirect ← readPointer fs dindirect idx1
        readPointer fs indirect idx2
      else pure 0

def krustExt2ReadBlockData (fs : Instance) (inodeNum blockIndex : ℕ) (out : Area) :
    Run (Option Area) := do
  match ← krustExt2ReadInode fs inodeNum (zeroed inodeBufSize) with
  | none => pure none
  | some inodeBuf =>
    let b ← blockNumber fs inodeBuf blockIndex
    if b = 0 then pure none
    else
      match readBlock fs b with
      | none => pure none
      | some data =>
        let src ← fs.image.read .image data fs.blockSize
        let out ← out.write .blockBuffer 0 src fs.blockSize
        pure (some out)

/-- The loop of `krust_ext2_read_file` over `n` blocks from `bi` on: the bytes that were copied, and
the caller's buffer. -/
def readBlocks (fs : Instance) (inodeNum copySize : ℕ) (blockBuf : Area) :
    (n bi offset : ℕ) → (buf : Area) → Run (ℕ × Area)
  | 0, _, offset, buf => pure (offset, buf)
  | n + 1, bi, offset, buf => do
    match ← krustExt2ReadBlockData fs inodeNum bi blockBuf with
    | none => pure (offset, buf)
    | some blockBuf =>
      let chunk := min (copySize - offset) fs.blockSize
      let src ← blockBuf.read .blockBuffer 0 chunk
      let buf ← buf.write .callerBuffer offset src chunk
      if offset + chunk = copySize then pure (offset + chunk, buf)
      else readBlocks fs inodeNum copySize blockBuf n (bi + 1) (offset + chunk) buf

/-- The blocks of `size` bytes, in the source's 32-bit arithmetic. -/
def numBlocks (fs : Instance) (size : ℕ) : Run ℕ :=
  div (wrappingSub (wrappingAdd size fs.blockSize) 1) fs.blockSize

/-- `block` is what `krust_malloc` answers for the block buffer. The result is the bytes read and the
caller's buffer, or nothing for −1. -/
def krustExt2ReadFile (fs : Instance) (inodeNum : ℕ) (buf : Area) (block : Option (ℕ → Byte)) :
    Run (Option (ℕ × Area)) := do
  match ← krustExt2ReadInode fs inodeNum (zeroed inodeBufSize) with
  | none => pure none
  | some inodeBuf =>
    let mode ← inodeBuf.readLe16 .inodeBuffer 0
    if mode &&& ext2SIfmt ≠ ext2SIfreg then pure none
    else
      let fileSize ← inodeBuf.readLe32 .inodeBuffer 4
      let copySize := min fileSize buf.size
      if copySize = 0 then pure (some (0, buf))
      else
        let n ← numBlocks fs copySize
        match block with
        | none => pure none
        | some bytes =>
          let (offset, buf) ←
            readBlocks fs inodeNum copySize ⟨bytes, fs.blockSize⟩ n 0 0 buf
          if offset < copySize then pure none else pure (some (copySize, buf))

/-- The comparison of a name with the bytes at `off`, up to the first difference. -/
def matchName (buf : Area) : (off : ℕ) → List Byte → Run Bool
  | _, [] => pure true
  | off, b :: name => do
    let x ← buf.read8 .blockBuffer off
    if x ≠ b.toNat then pure false else matchName buf (off + 1) name

/-- The entries of a block from `offset` on: the inode of the one with the name, or 0. -/
def scanBlock (blockSize : ℕ) (buf : Area) (name : List Byte) (offset : ℕ) : Run ℕ :=
  if offset < blockSize then do
    let deIno ← buf.readLe32 .blockBuffer offset
    let deRecLen ← buf.readLe16 .blockBuffer (offset + 4)
    let deNameLen ← buf.read8 .blockBuffer (offset + 6)
    if deRecLen < 8 then pure 0
    else
      let found ←
        if deIno ≠ 0 ∧ deNameLen = name.length then matchName buf (offset + 8) name
        else pure false
      if found then pure deIno else scanBlock blockSize buf name (offset + deRecLen)
  else pure 0
termination_by blockSize - offset

/-- The same for `n` blocks of a directory from `bi` on; one that cannot be read is left out. -/
def scanDir (fs : Instance) (dirInodeNum : ℕ) (name : List Byte) :
    (n bi : ℕ) → (blockBuf : Area) → Run ℕ
  | 0, _, _ => pure 0
  | n + 1, bi, blockBuf => do
    match ← krustExt2ReadBlockData fs dirInodeNum bi blockBuf with
    | none => scanDir fs dirInodeNum name n (bi + 1) blockBuf
    | some blockBuf =>
      let result ← scanBlock fs.blockSize blockBuf name 0
      if result ≠ 0 then pure result else scanDir fs dirInodeNum name n (bi + 1) blockBuf

def krustExt2FindInDir (fs : Instance) (dirInodeNum : ℕ) (name : List Byte)
    (block : Option (ℕ → Byte)) : Run ℕ := do
  match ← krustExt2ReadInode fs dirInodeNum (zeroed inodeBufSize) with
  | none => pure 0
  | some inodeBuf =>
    let mode ← inodeBuf.readLe16 .inodeBuffer 0
    if mode &&& ext2SIfmt ≠ ext2SIfdir then pure 0
    else
      let dirSize ← inodeBuf.readLe32 .inodeBuffer 4
      let n ← numBlocks fs dirSize
      match block with
      | none => pure 0
      | some bytes => scanDir fs dirInodeNum name n 0 ⟨bytes, fs.blockSize⟩

def slash : Byte := 47

/-- The path after its first component and the slashes behind it. -/
def nextComponent (path : List Byte) : List Byte :=
  (path.dropWhile (· ≠ slash)).dropWhile (· = slash)

lemma length_nextComponent_lt {path : List Byte} (h : nextComponent path ≠ []) :
    (nextComponent path).length < path.length := by
  unfold nextComponent at h ⊢
  cases path with
  | nil => exact absurd rfl h
  | cons b rest =>
    have hr : ∀ p : Byte → Bool, (rest.dropWhile p).length ≤ rest.length := fun p =>
      (List.dropWhile_suffix p).length_le
    by_cases hb : b = slash
    · rw [List.dropWhile_cons_of_neg (by simp [hb]), List.dropWhile_cons_of_pos (by simp [hb])]
      exact Nat.lt_succ_of_le (hr _)
    rw [List.dropWhile_cons_of_pos (by simp [hb])]
    exact Nat.lt_succ_of_le (le_trans (List.dropWhile_suffix _).length_le (hr _))

/-- The loop of `krust_ext2_resolve_path` from the inode `current` on. A component is cut to 255
bytes; the last one is not looked up. -/
def resolveLoop (fs : Instance) (blockBuf : Area) (current : ℕ) (path : List Byte) :
    Run (Option (ℕ × List Byte)) :=
  let component := (path.takeWhile (· ≠ slash)).take 255
  if nextComponent path = [] then pure (some (current, component))
  else do
    match ← krustExt2ReadInode fs current (zeroed inodeBufSize) with
    | none => pure none
    | some inodeBuf =>
      let dirSize ← inodeBuf.readLe32 .inodeBuffer 4
      let n ← numBlocks fs dirSize
      let child ← scanDir fs current component n 0 blockBuf
      if child = 0 then pure none
      else
        match ← krustExt2ReadInode fs child (zeroed inodeBufSize) with
        | none => pure none
        | some inodeBuf =>
          let mode ← inodeBuf.readLe16 .inodeBuffer 0
          if mode &&& ext2SIfmt ≠ ext2SIfdir then pure none
          else resolveLoop fs blockBuf child (nextComponent path)
termination_by path.length
decreasing_by exact length_nextComponent_lt ‹_›

/-- The inode of the parent and the last component, or nothing for −1. -/
def krustExt2ResolvePath (fs : Instance) (path : List Byte) (block : Option (ℕ → Byte)) :
    Run (Option (ℕ × List Byte)) := do
  let path := path.dropWhile (· = slash)
  if path = [] then pure none
  else
    match ← krustExt2ReadInode fs 2 (zeroed inodeBufSize) with
    | none => pure none
    | some inodeBuf =>
      let mode ← inodeBuf.readLe16 .inodeBuffer 0
      if mode &&& ext2SIfmt ≠ ext2SIfdir then pure none
      else
        match block with
        | none => pure none
        | some bytes => resolveLoop fs ⟨bytes, fs.blockSize⟩ 2 path

/-- The arguments of a callback; the name is passed as its place in the block buffer. -/
abbrev Listed := ℕ × ℕ × ℕ

def listBlock (blockSize : ℕ) (buf : Area) (offset : ℕ) : Run (List Listed) :=
  if offset < blockSize then do
    let deIno ← buf.readLe32 .blockBuffer offset
    let deRecLen ← buf.readLe16 .blockBuffer (offset + 4)
    let deNameLen ← buf.read8 .blockBuffer (offset + 6)
    let deFileType ← buf.read8 .blockBuffer (offset + 7)
    if deRecLen < 8 then pure []
    else
      let rest ← listBlock blockSize buf (offset + deRecLen)
      if deIno ≠ 0 ∧ 0 < deNameLen then pure ((deIno, offset + 8, deFileType) :: rest)
      else pure rest
  else pure []
termination_by blockSize - offset

def listBlocks (fs : Instance) (dirInodeNum : ℕ) :
    (n bi : ℕ) → (blockBuf : Area) → Run (List Listed)
  | 0, _, _ => pure []
  | n + 1, bi, blockBuf => do
    match ← krustExt2ReadBlockData fs dirInodeNum bi blockBuf with
    | none => listBlocks fs dirInodeNum n (bi + 1) blockBuf
    | some blockBuf =>
      let listed ← listBlock fs.blockSize blockBuf 0
      let rest ← listBlocks fs dirInodeNum n (bi + 1) blockBuf
      pure (listed ++ rest)

def krustExt2ListDir (fs : Instance) (dirInodeNum : ℕ) (block : Option (ℕ → Byte)) :
    Run (Option (List Listed)) := do
  match ← krustExt2ReadInode fs dirInodeNum (zeroed inodeBufSize) with
  | none => pure none
  | some inodeBuf =>
    let mode ← inodeBuf.readLe16 .inodeBuffer 0
    if mode &&& ext2SIfmt ≠ ext2SIfdir then pure none
    else
      let dirSize ← inodeBuf.readLe32 .inodeBuffer 4
      let n ← numBlocks fs dirSize
      match block with
      | none => pure none
      | some bytes => some <$> listBlocks fs dirInodeNum n 0 ⟨bytes, fs.blockSize⟩

section Init

def readInodeSize (image : Area) (revLevel : ℕ) : Run ℕ :=
  if 1 ≤ revLevel then image.readLe16 .image (1024 + 128) else pure 128

/-- `krust_ext2_init`: the instance, or nothing for −1. The shift takes its amount modulo 32, and
the two group sizes are read two bytes apart. -/
def krustExt2Init (image : Area) : Run (Option Instance) := do
  if image.size < 2048 then pure none
  else
    let magic ← image.readLe16 .image (1024 + 56)
    if magic ≠ ext2Magic then pure none
    else
      let logBlockSize ← image.readLe32 .image (1024 + 24)
      let blockSize := 1024 <<< (logBlockSize % 32) % 2 ^ 32
      let blocksPerGroup ← image.readLe32 .image (1024 + 40)
      let inodesPerGroup ← image.readLe32 .image (1024 + 42)
      let firstDataBlock ← image.readLe32 .image (1024 + 20)
      let revLevel ← image.readLe32 .image (1024 + 76)
      let inodeSize ← readInodeSize image revLevel
      let inodeTableBlocks ←
        div (wrappingSub (wrappingAdd (wrappingMul inodesPerGroup inodeSize) blockSize) 1) blockSize
      let bgdtBlock := if blockSize = 1024 then 2 else 1
      pure (some ⟨image, blockSize, inodesPerGroup, blocksPerGroup, inodeSize, inodeTableBlocks,
        firstDataBlock, bgdtBlock⟩)

inductive Call where
  | readInode (inodeNum : ℕ)
  | readFile (inodeNum : ℕ) (buf : Area) (block : Option (ℕ → Byte))
  | findInDir (dirInodeNum : ℕ) (name : List Byte) (block : Option (ℕ → Byte))
  | resolvePath (path : List Byte) (block : Option (ℕ → Byte))
  | listDir (dirInodeNum : ℕ) (block : Option (ℕ → Byte))

def Call.Finishes (fs : Instance) : Call → Prop
  | readInode inodeNum => ∃ r, krustExt2ReadInode fs inodeNum (zeroed inodeBufSize) = .ok r
  | readFile inodeNum buf block => ∃ r, krustExt2ReadFile fs inodeNum buf block = .ok r
  | findInDir dirInodeNum name block => ∃ r, krustExt2FindInDir fs dirInodeNum name block = .ok r
  | resolvePath path block => ∃ r, krustExt2ResolvePath fs path block = .ok r
  | listDir dirInodeNum block => ∃ r, krustExt2ListDir fs dirInodeNum block = .ok r

lemma blockSize_shift (k : ℕ) (h : 1024 <<< (k % 32) % 2 ^ 32 ≠ 0) :
    1024 ≤ 1024 <<< (k % 32) % 2 ^ 32 := by
  have hall : ∀ i < 32, 1024 <<< i % 2 ^ 32 ≠ 0 → 1024 ≤ 1024 <<< i % 2 ^ 32 := by decide
  exact hall (k % 32) (Nat.mod_lt _ (by decide)) h

lemma bind_eq_ok {α β : Type} {x : Run α} {f : α → Run β} {b : β} (h : x >>= f = .ok b) :
    ∃ a, x = .ok a ∧ f a = .ok b := by
  cases x with
  | error e => exact absurd h (by simp [bind, Except.bind])
  | ok a => exact ⟨a, rfl, h⟩

lemma div_eq_ok {a b r : ℕ} (h : div a b = .ok r) : b ≠ 0 ∧ r = a / b := by
  unfold div at h
  split at h
  · cases h
  · exact ⟨‹_›, (Except.ok.inj h).symm⟩

lemma krustExt2Init_spec {image : Area} {fs : Instance}
    (h : krustExt2Init image = .ok (some fs)) : fs.image = image ∧ 1024 ≤ fs.blockSize ∧
      (fs.bgdtBlock = 1 ∨ fs.bgdtBlock = 2) := by
  unfold krustExt2Init at h
  split at h
  · cases h
  obtain ⟨magic, -, h⟩ := bind_eq_ok h
  split at h
  · cases h
  obtain ⟨logBlockSize, -, h⟩ := bind_eq_ok h
  obtain ⟨blocksPerGroup, -, h⟩ := bind_eq_ok h
  obtain ⟨inodesPerGroup, -, h⟩ := bind_eq_ok h
  obtain ⟨firstDataBlock, -, h⟩ := bind_eq_ok h
  obtain ⟨revLevel, -, h⟩ := bind_eq_ok h
  obtain ⟨inodeSize, -, h⟩ := bind_eq_ok h
  obtain ⟨inodeTableBlocks, hdiv, h⟩ := bind_eq_ok h
  cases h
  -- The division by the block size is what keeps a block size of 0 out.
  refine ⟨rfl, blockSize_shift _ (div_eq_ok hdiv).1, ?_⟩
  dsimp only
  split
  · exact .inr rfl
  · exact .inl rfl

variable {fs : Instance}

lemma findBg_fault (hg : fs.inodesPerGroup ≠ 0) (hbl : 1024 ≤ fs.blockSize)
    (hb : fs.bgdtBlock < 2 ^ 32)
    (hs : (fs.bgdtBlock + 1) * fs.blockSize ≤ fs.image.size) :
    findBg fs 1 (zeroed descriptorSize) = .error .groupDescriptor := by
  have hper : fs.blockSize / bgdtSize ≠ 0 := by
    unfold bgdtSize
    omega
  have hr : readBlock fs (wrappingAdd fs.bgdtBlock 0) = some (fs.bgdtBlock * fs.blockSize) := by
    unfold readBlock wrappingAdd
    rw [Nat.add_zero, Nat.mod_eq_of_lt hb, if_neg]
    rw [Nat.add_mul, Nat.one_mul] at hs
    omega
  have hin : fs.bgdtBlock * fs.blockSize + 0 * bgdtSize + bgdtSize ≤ fs.image.size := by
    rw [Nat.add_mul, Nat.one_mul] at hs
    unfold bgdtSize
    omega
  have hz : wrappingSub 1 1 = 0 := rfl
  simp only [findBg, hz, div, mod, hg, hper, if_false, Nat.zero_div, Nat.zero_mod, pure_bind,
    hr, Area.read, hin, if_true]
  rfl

lemma findBg_divideByZero (hg : fs.inodesPerGroup = 0) (inodeNum : ℕ) (bg : Area) :
    findBg fs inodeNum bg = .error .divideByZero := by
  simp only [findBg, div, hg, if_true]
  rfl

lemma findBg_none (hg : fs.inodesPerGroup ≠ 0) (hb : 1024 ≤ fs.blockSize) (hbg : fs.bgdtBlock ≤ 2)
    (hs : fs.image.size < (fs.bgdtBlock + 1) * fs.blockSize) (inodeNum : ℕ) (bg : Area) :
    findBg fs inodeNum bg = .ok none := by
  have hper : fs.blockSize / bgdtSize ≠ 0 := by
    unfold bgdtSize
    omega
  have hr : readBlock fs (wrappingAdd fs.bgdtBlock
      (wrappingSub inodeNum 1 / fs.inodesPerGroup / (fs.blockSize / bgdtSize))) = none := by
    -- The descriptor's block is not below the first one: its number does not wrap.
    have hlt : wrappingSub inodeNum 1 < 2 ^ 32 := Nat.mod_lt _ (by decide)
    have hoff : wrappingSub inodeNum 1 / fs.inodesPerGroup / (fs.blockSize / bgdtSize) < 2 ^ 27 := by
      rw [Nat.div_lt_iff_lt_mul (Nat.pos_of_ne_zero hper)]
      have hdiv := Nat.div_le_self (wrappingSub inodeNum 1) fs.inodesPerGroup
      have hmul : 2 ^ 27 * 32 ≤ 2 ^ 27 * (fs.blockSize / bgdtSize) := by
        apply Nat.mul_le_mul_left
        unfold bgdtSize
        omega
      omega
    generalize wrappingSub inodeNum 1 / fs.inodesPerGroup / (fs.blockSize / bgdtSize) = off at hoff
    unfold readBlock wrappingAdd
    rw [Nat.mod_eq_of_lt (by omega), if_pos]
    have hle : (fs.bgdtBlock + 1) * fs.blockSize ≤ (fs.bgdtBlock + off + 1) * fs.blockSize := by
      apply Nat.mul_le_mul_right
      omega
    rw [Nat.add_mul (_ + off), Nat.one_mul] at hle
    omega
  simp only [findBg, div, mod, hg, hper, if_false, pure_bind, hr]
  rfl

lemma krustExt2ReadInode_of_findBg {fault : Fault} {inodeNum : ℕ} {inodeBuf : Area}
    (h : findBg fs inodeNum (zeroed descriptorSize) = .error fault) :
    krustExt2ReadInode fs inodeNum inodeBuf = .error fault := by
  unfold krustExt2ReadInode
  rw [h]
  rfl

lemma finishes_of_findBg_none (h : ∀ inodeNum bg, findBg fs inodeNum bg = .ok none) (call : Call) :
    call.Finishes fs := by
  have hi : ∀ inodeNum buf, krustExt2ReadInode fs inodeNum buf = .ok none := by
    intro inodeNum buf
    unfold krustExt2ReadInode
    rw [h]
    rfl
  cases call with
  | readInode inodeNum => exact ⟨none, hi _ _⟩
  | readFile inodeNum buf block =>
    refine ⟨none, ?_⟩
    unfold krustExt2ReadFile
    rw [hi]
    rfl
  | findInDir dirInodeNum name block =>
    refine ⟨0, ?_⟩
    unfold krustExt2FindInDir
    rw [hi]
    rfl
  | resolvePath path block =>
    refine ⟨none, ?_⟩
    unfold krustExt2ResolvePath
    rw [hi]
    dsimp only
    split <;> rfl
  | listDir dirInodeNum block =>
    refine ⟨none, ?_⟩
    unfold krustExt2ListDir
    rw [hi]
    rfl

/-- The calls after a mount all end without a fault only on an image that has inodes in its groups
and ends before the first group descriptor: a descriptor that is there is copied with 32 bytes into a
structure of 20. -/
theorem krustExt2Init_finishes_iff (image : Area) (fs : Instance)
    (h : krustExt2Init image = .ok (some fs)) :
    (∀ call : Call, call.Finishes fs) ↔
      fs.inodesPerGroup ≠ 0 ∧ fs.image.size < (fs.bgdtBlock + 1) * fs.blockSize := by
  have hs := krustExt2Init_spec h
  have hb : fs.bgdtBlock ≤ 2 := by
    have h12 := hs.2.2
    omega
  constructor
  · intro hall
    obtain ⟨r, hr⟩ := hall (.readInode 1)
    have hg : fs.inodesPerGroup ≠ 0 := by
      intro hz
      rw [krustExt2ReadInode_of_findBg (findBg_divideByZero hz 1 _)] at hr
      cases hr
    refine ⟨hg, ?_⟩
    by_contra hsi
    rw [krustExt2ReadInode_of_findBg
      (findBg_fault hg hs.2.1 (by omega) (not_lt.mp hsi))] at hr
    cases hr
  intro hc
  exact finishes_of_findBg_none (findBg_none hc.1 hs.2.1 hb hc.2)

/-- An image of `size` bytes, all 0 but for the magic number and one byte of the group sizes: blocks
of 1024 bytes and 256 inodes a group. -/
def smallImage (size : ℕ) : Area where
  byte i := if i = 1080 then 0x53 else if i = 1081 then 0xEF else if i = 1067 then 1 else 0
  size := size

def smallInstance (size : ℕ) : Instance where
  image := smallImage size
  blockSize := 1024
  inodesPerGroup := 256
  blocksPerGroup := 2 ^ 24
  inodeSize := 128
  inodeTableBlocks := 32
  firstDataBlock := 0
  bgdtBlock := 2

lemma krustExt2Init_smallImage {size : ℕ} (h : 2048 ≤ size) :
    krustExt2Init (smallImage size) = .ok (some (smallInstance size)) := by
  have hl : ¬ (smallImage size).size < 2048 := not_lt.mpr h
  have hr : ∀ off n, off + n ≤ 2048 → (smallImage size).read .image off n =
      .ok fun i => (smallImage size).byte (off + i) := fun _ _ hle => if_pos (le_trans hle h)
  have hle32 : ∀ off, off + 4 ≤ 2048 → ∀ v, ((smallImage 0).byte off).toNat +
      ((smallImage 0).byte (off + 1)).toNat * 2 ^ 8 + ((smallImage 0).byte (off + 2)).toNat * 2 ^ 16 +
        ((smallImage 0).byte (off + 3)).toNat * 2 ^ 24 = v →
      (smallImage size).readLe32 .image off = .ok v := by
    intro off hoff v hv
    unfold Area.readLe32
    rw [hr off 4 hoff, ← hv]
    rfl
  have hm : (smallImage size).readLe16 .image (1024 + 56) = .ok ext2Magic := by
    have hv : ((smallImage 0).byte 1080).toNat + ((smallImage 0).byte 1081).toNat * 2 ^ 8 =
        ext2Magic := by decide
    unfold Area.readLe16
    rw [hr _ 2 (by decide), ← hv]
    rfl
  unfold krustExt2Init
  rw [if_neg hl, hm, hle32 (1024 + 24) (by decide) 0 (by decide),
    hle32 (1024 + 40) (by decide) (2 ^ 24) (by decide),
    hle32 (1024 + 42) (by decide) 256 (by decide), hle32 (1024 + 20) (by decide) 0 (by decide),
    hle32 (1024 + 76) (by decide) 0 (by decide)]
  rfl

theorem krustExt2Init_finishes_iff_short :
    krustExt2Init (smallImage 2048) = .ok (some (smallInstance 2048)) ∧
      ∀ call : Call, call.Finishes (smallInstance 2048) :=
  ⟨krustExt2Init_smallImage le_rfl, (krustExt2Init_finishes_iff (smallImage 2048)
    (smallInstance 2048) (krustExt2Init_smallImage le_rfl)).mpr ⟨by decide, by decide⟩⟩

/-- One more kilobyte, and the first inode that is read overruns the descriptor. -/
theorem readInode_overruns_descriptor :
    krustExt2Init (smallImage 3072) = .ok (some (smallInstance 3072)) ∧
      krustExt2ReadInode (smallInstance 3072) 1 (zeroed inodeBufSize) = .error .groupDescriptor :=
  ⟨krustExt2Init_smallImage (by decide), krustExt2ReadInode_of_findBg
    (findBg_fault (by decide) (by decide) (by decide) (by decide))⟩

end Init

end Elitra.Ext2
