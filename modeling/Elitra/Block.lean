import Elitra.Nvme
import Mathlib.Algebra.Ring.Int.Defs
import Mathlib.Data.List.TakeWhile

namespace Elitra.Block
open List

inductive Direction where
  | read
  | write
  deriving DecidableEq

/-- What the drivers see of their hardware during one request: whether the ATA drive is ready and
which sectors it hands over in time, the NVMe status, the task file with which an AHCI command ends,
if it does, whether there are descriptors and frames for a VirtIO request and whether the device is
done with it before the driver gives up, and the USB status, if a valid one comes. -/
structure Hw where
  ready : Bool
  polls : ℕ → Bool
  status : Option ℕ
  taskFile : ℕ → Option ℕ
  resources : Bool
  finished : Bool
  csw : Option Bool

/-- How many of the first `n` steps go well before one does not. -/
def leading (ok : ℕ → Bool) (n : ℕ) : ℕ := ((List.range n).takeWhile ok).length

/-- Sector `f k` is moved to or from place `k` of the buffer, for the first `n` places. -/
def moves (f : ℕ → ℕ) (n : ℕ) : List (ℕ × ℕ) := (List.range n).map fun k => (f k, k)

def wanted (lba count : ℕ) : List (ℕ × ℕ) := moves (fun k => lba + k) count

structure AtaRegs where
  device : ℕ
  sectorCount : ℕ
  lbaLow : ℕ
  lbaMid : ℕ
  lbaHigh : ℕ

def ataRegs (slave lba count_ : ℕ) : AtaRegs where
  device := 0xE0 + slave * 2 ^ 4 + lba / 2 ^ 24 % 2 ^ 4
  sectorCount := count_
  lbaLow := lba % 2 ^ 8
  lbaMid := lba / 2 ^ 8 % 2 ^ 8
  lbaHigh := lba / 2 ^ 16 % 2 ^ 8

def AtaRegs.start (r : AtaRegs) : ℕ :=
  r.device % 2 ^ 4 * 2 ^ 24 + r.lbaHigh * 2 ^ 16 + r.lbaMid * 2 ^ 8 + r.lbaLow

def AtaRegs.sectors (r : AtaRegs) : ℕ := if r.sectorCount = 0 then 256 else r.sectorCount

/-- `krust_ata_read` and `krust_ata_write` on a drive that exists. -/
def krustAta (hw : Hw) (slave lba count_ : ℕ) : Bool × List (ℕ × ℕ) :=
  let count := if count_ = 0 then 256 else count_
  if !hw.ready then (false, [])
  else
    let done := leading hw.polls count
    (done = count, moves (fun k => (ataRegs slave lba count_).start + k) done)

/-- The wrappers cut the sector number to 32 and the count to 8 bits. -/
def ataWrapper (hw : Hw) (slave lba count : ℕ) : ℤ × List (ℕ × ℕ) :=
  let (ok, moved) := krustAta hw slave (lba % 2 ^ 32) (count % 2 ^ 8)
  (if ok then 0 else -1, moved)

/-- The first block and the number of blocks, as the controller reads them. -/
def nvmeStart (cmd : Nvme.NvmeSubmissionEntry) : ℕ := cmd.cdw10 + cmd.cdw11 * 2 ^ 32
def nvmeBlocks (cmd : Nvme.NvmeSubmissionEntry) : ℕ := cmd.cdw12 % 2 ^ 16 + 1

/-- The blocks that lie in the page of `prp1`. The rest goes to the page of `prp2`, which is 0. -/
def nvmeInPage (blockSize : ℕ) (cmd : Nvme.NvmeSubmissionEntry) : ℕ :=
  (4096 - cmd.prp1 % 4096) / blockSize

def nvmeCommand (dir : Direction) (bufPhys lba count : ℕ) : Nvme.NvmeSubmissionEntry :=
  Nvme.ioCommand (if dir = .read then Nvme.ioRead else Nvme.ioWrite) 1 lba count bufPhys

/-- `nvme_read` and `nvme_write`. -/
def nvmeWrapper (hw : Hw) (dir : Direction) (blockSize bufPhys lba count : ℕ) :
    ℤ × List (ℕ × ℕ) :=
  let cmd := nvmeCommand dir bufPhys lba count
  if hw.status = some 0 then
    (0, moves (fun k => nvmeStart cmd + k) (min (nvmeBlocks cmd) (nvmeInPage blockSize cmd)))
  else (-1, [])

def cmdReadDmaExt : ℕ := 0x25
def cmdWriteDmaExt : ℕ := 0x35

/-- `build_cmd_fis`, up to the last byte that it sets. -/
def buildCmdFis (cmd lba count dev : ℕ) : List ℕ :=
  [0x27, 0x80, cmd, dev, lba % 2 ^ 8, lba / 2 ^ 8 % 2 ^ 8, lba / 2 ^ 16 % 2 ^ 8,
    lba / 2 ^ 24 % 2 ^ 8, lba / 2 ^ 32 % 2 ^ 8, lba / 2 ^ 40 % 2 ^ 8, 0x40, 0, count % 2 ^ 8,
    count / 2 ^ 8 % 2 ^ 8]

/-- The sector number in a register FIS: byte 7 is the device register, and the upper half of the
number is in the bytes 8 to 10. -/
def fisLba (fis : List ℕ) : ℕ :=
  fis.getD 4 0 + fis.getD 5 0 * 2 ^ 8 + fis.getD 6 0 * 2 ^ 16 + fis.getD 8 0 * 2 ^ 24 +
    fis.getD 9 0 * 2 ^ 32 + fis.getD 10 0 * 2 ^ 40

def fisCount (fis : List ℕ) : ℕ := fis.getD 12 0 + fis.getD 13 0 * 2 ^ 8

/-- The command for the sector at place `s` of the request. -/
def ahciFis (dir : Direction) (lba s : ℕ) : List ℕ :=
  buildCmdFis (if dir = .read then cmdReadDmaExt else cmdWriteDmaExt) ((lba + s) % 2 ^ 64) 1 0

/-- The result of `send_cmd` for the command at place `s`: it is done, and its status byte is 0. -/
def sendCmdOk (hw : Hw) (s : ℕ) : Bool := (hw.taskFile s).any fun tfd => tfd % 2 ^ 8 = 0

/-- `krust_ahci_read` and `krust_ahci_write` on a drive that is present. The controller looks for the
PRDT at byte 0x80 of the command table and the driver puts it at byte 0x40, so that no sector is
moved from or to the buffer. -/
def krustAhci (hw : Hw) (count : ℕ) : ℤ × List (ℕ × ℕ) :=
  if 256 < count then (-1, [])
  else (if leading (sendCmdOk hw) count = count then 0 else -1, [])

/-- The length of the data descriptor. -/
def virtioLen (count : ℕ) : ℕ := count * 512 % 2 ^ 32

/-- `krust_virtio_blk_read` and `krust_virtio_blk_write` with a device. The data passes through one
frame; the driver does not look at whether the device was done. -/
def krustVirtioBlk (hw : Hw) (lba count : ℕ) : ℤ × List (ℕ × ℕ) :=
  if !hw.resources then (-1, [])
  else
    (0, if hw.finished then moves (fun k => lba + k) (min (virtioLen count / 512) (4096 / 512))
      else [])

/-- The command block of `usb_stor_read` and `usb_stor_write`. -/
def usbCb (cmd lba count : ℕ) : List ℕ :=
  [cmd, 0, lba / 2 ^ 24 % 2 ^ 8, lba / 2 ^ 16 % 2 ^ 8, lba / 2 ^ 8 % 2 ^ 8, lba % 2 ^ 8, 0,
    count / 2 ^ 8 % 2 ^ 8, count % 2 ^ 8, 0]

def scsiCmdRead10 : ℕ := 0x28
def scsiCmdWrite10 : ℕ := 0x2A

def cbLba (cb : List ℕ) : ℕ :=
  cb.getD 2 0 * 2 ^ 24 + cb.getD 3 0 * 2 ^ 16 + cb.getD 4 0 * 2 ^ 8 + cb.getD 5 0

def cbCount (cb : List ℕ) : ℕ := cb.getD 7 0 * 2 ^ 8 + cb.getD 8 0

def usbCommand (dir : Direction) (lba count : ℕ) : List ℕ :=
  usbCb (if dir = .read then scsiCmdRead10 else scsiCmdWrite10) lba count

/-- `count as i32`. -/
def asI32 (count : ℕ) : ℤ := if count < 2 ^ 31 then count else (count : ℤ) - 2 ^ 32

/-- `usb_stor_read` and `usb_stor_write` on an active device, which return the count. The data phase
is as long as `data_len` says. -/
def usbStor (hw : Hw) (dir : Direction) (blockSize lba count : ℕ) : ℤ × List (ℕ × ℕ) :=
  let cb := usbCommand dir lba count
  let dataLen := count * blockSize % 2 ^ 32
  if hw.csw = some true then
    (asI32 count, moves (fun k => cbLba cb + k) (min (cbCount cb) (dataLen / blockSize)))
  else (-1, [])

/-- The registered devices. -/
inductive BlockDevice where
  | ata (slave : ℕ)
  | nvme (blockSize : ℕ)
  | ahci
  | virtio
  | usb (blockSize : ℕ)

/-- A request, with a buffer at the physical address `bufPhys`. -/
structure Request where
  dir : Direction
  lba : ℕ
  count : ℕ
  bufPhys : ℕ

/-- The result and the sectors that were moved whole. -/
def BlockDevice.transfer (hw : Hw) (r : Request) : BlockDevice → ℤ × List (ℕ × ℕ)
  | .ata slave => ataWrapper hw slave r.lba r.count
  | .nvme blockSize => nvmeWrapper hw r.dir blockSize r.bufPhys r.lba r.count
  | .ahci => krustAhci hw r.count
  | .virtio => krustVirtioBlk hw r.lba r.count
  | .usb blockSize => usbStor hw r.dir blockSize r.lba r.count

/-- The runs of sectors that the commands name, when the driver takes the request at all. -/
def BlockDevice.commands (r : Request) : BlockDevice → List (ℕ × ℕ)
  | .ata slave =>
    let regs := ataRegs slave (r.lba % 2 ^ 32) (r.count % 2 ^ 8)
    [(regs.start, regs.sectors)]
  | .nvme _ =>
    let cmd := nvmeCommand r.dir r.bufPhys r.lba r.count
    [(nvmeStart cmd, nvmeBlocks cmd)]
  | .ahci => (List.range r.count).map fun s =>
      (fisLba (ahciFis r.dir r.lba s), fisCount (ahciFis r.dir r.lba s))
  | .virtio => [(r.lba, virtioLen r.count / 512)]
  | .usb _ => [(cbLba (usbCommand r.dir r.lba r.count), cbCount (usbCommand r.dir r.lba r.count))]

/-- Whether the driver turns the request down before it gives a command. -/
def BlockDevice.rejects (r : Request) : BlockDevice → Bool
  | .ahci => 256 < r.count
  | _ => false

def sectors (runs : List (ℕ × ℕ)) : List ℕ :=
  runs.flatMap fun run => (List.range run.2).map fun k => run.1 + k

/-- The commands of a driver that takes the request name the sectors asked for. -/
def BlockDevice.Untruncated (r : Request) (dev : BlockDevice) : Prop :=
  dev.rejects r = false → sectors (dev.commands r) = sectors [(r.lba, r.count)]

/-- The requests with which a device keeps the contract. -/
def BlockDevice.Fits (r : Request) : BlockDevice → Prop
  | .ata _ => 0 < r.count ∧ r.count ≤ 256 ∧ r.lba < 2 ^ 28
  | .nvme blockSize => 0 < r.count ∧ r.bufPhys % 4096 + r.count * blockSize ≤ 4096
  | .ahci => r.count = 0 ∨ 256 < r.count
  | .virtio => 0 < r.count ∧ r.count ≤ 8
  | .usb _ => False

/-- The ranges of the arguments. -/
structure Request.InRange (r : Request) : Prop where
  lba : r.lba < 2 ^ 64
  count : r.count < 2 ^ 32

def BlockDevice.Valid : BlockDevice → Prop
  | .ata slave => slave ≤ 1
  | .nvme blockSize | .usb blockSize => 0 < blockSize ∧ blockSize ≤ 2 ^ 16
  | _ => True

section Moves

variable {lba count : ℕ}

end Moves

section Drivers

variable {r : Request}

/-- What a device has to do for its requests to be honest. -/
def BlockDevice.Keeps (r : Request) (dev : BlockDevice) : Prop :=
  dev.Untruncated r ∧ ∀ hw : Hw, hw.finished = true →
    ((dev.transfer hw r).1 = 0 ↔ (dev.transfer hw r).2 = wanted r.lba r.count)

variable {blockSize : ℕ}

end Drivers

end Elitra.Block
