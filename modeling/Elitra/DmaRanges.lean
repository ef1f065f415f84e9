import Elitra.Block
import Elitra.ByteMem
import Elitra.PageMap

namespace Elitra.Block
open List

section Ahci

/-- The register FIS of a transfer. The device register is byte 7. -/
def registerFis (cmd lba count : ℕ) : List ℕ :=
  [0x27, 0x80, cmd, 0, lba % 2 ^ 8, lba / 2 ^ 8 % 2 ^ 8, lba / 2 ^ 16 % 2 ^ 8, 0x40,
    lba / 2 ^ 24 % 2 ^ 8, lba / 2 ^ 32 % 2 ^ 8, lba / 2 ^ 40 % 2 ^ 8, 0, count % 2 ^ 8,
    count / 2 ^ 8 % 2 ^ 8]

/-- The entry of the PRDT: the address of the bounce page in two words, a reserved word and the
length. -/
def prdtEntry (bounce total : ℕ) : List (BitVec 8) :=
  [bounce, 0, 0, (total - 1) ||| 2 ^ 31].flatMap fun x =>
    (range 4).map fun k => BitVec.ofNat 8 (x / 2 ^ (8 * k))

/-- The pages of a port: that of the command tables and the bounce page. -/
structure Port where
  table : ℕ
  bounce : ℕ
  apart : bounce + 4096 ≤ table ∨ table + 4096 ≤ bounce

def portInit (p : Port) (m : Mem) : Mem := fun x =>
  if p.table ≤ x ∧ x < p.table + 4096 then 0 else m x

/-- The entry is put at the start of the page that it describes. -/
def putPrdt (p : Port) (total : ℕ) (m : Mem) : Mem := fun x =>
  if p.bounce ≤ x ∧ x < p.bounce + 16 then (prdtEntry p.bounce total).getD (x - p.bounce) 0 else m x

/-- `send_cmd` up to the issue of the command. The first 128 bytes of the table are cleared, its 64
bytes of the FIS are written, and the entry is copied behind them. -/
def sendCmd (p : Port) (fis : List ℕ) (m : Mem) : Mem :=
  let cleared : Mem := fun x => if p.table ≤ x ∧ x < p.table + 128 then 0 else m x
  let filled : Mem := fun x =>
    if p.table ≤ x ∧ x < p.table + 64 then BitVec.ofNat 8 (fis.getD (x - p.table) 0)
    else cleared x
  ByteMem.copyBytes filled p.bounce (p.table + 0x40) 16

def readSectors (p : Port) (lba count : ℕ) (m : Mem) : Mem :=
  sendCmd p (buildCmdFis cmdReadDmaExt lba count 0) (putPrdt p (count * 512) m)

def writeSectors (p : Port) (lba count buf : ℕ) (m : Mem) : Mem :=
  sendCmd p (buildCmdFis cmdWriteDmaExt lba count 0)
    (putPrdt p (count * 512) (ByteMem.copyBytes m buf p.bounce (count * 512)))

/-- The memory from `port_init` on: commands are sent, and the rest of the kernel writes to other
pages. -/
inductive Used (p : Port) : Mem → Prop
  | init (m : Mem) : Used p (portInit p m)
  | read {m : Mem} (h : Used p m) (lba : ℕ) {count : ℕ} (hc : count ≤ 8) :
      Used p (readSectors p lba count m)
  | write {m : Mem} (h : Used p m) (lba buf : ℕ) {count : ℕ} (hc : count ≤ 8) :
      Used p (writeSectors p lba count buf m)
  | other {m m' : Mem} (h : Used p m)
      (hsame : ∀ x, p.table ≤ x → x < p.table + 4096 → m' x = m x) : Used p m'

/-- The addresses that the PRDT of the command describes. The controller reads its one entry at byte
0x80 of the table; the length is the last word, in 22 bits and less one. -/
def described (p : Port) (m : Mem) : List ℕ :=
  (range (ByteMem.readLE m (p.table + 0x8C) 4 % 2 ^ 22 + 1)).map
    (ByteMem.readLE m (p.table + 0x80) 8 + ·)

/-- The command that the controller finds in the table is the one for these sectors. -/
def CommandAt (p : Port) (cmd lba count : ℕ) (m : Mem) : Prop :=
  ∀ k < 14, m (p.table + k) = BitVec.ofNat 8 ((registerFis cmd lba count).getD k 0)

structure WriteIssued (p : Port) (lba count buf : ℕ) (m : Mem) : Prop where
  command : CommandAt p cmdWriteDmaExt lba count (writeSectors p lba count buf m)
  data : (described p (writeSectors p lba count buf m)).map (writeSectors p lba count buf m) =
    (range (count * 512)).map fun k => m (buf + k)

structure ReadIssued (p : Port) (lba count : ℕ) (m : Mem) : Prop where
  command : CommandAt p cmdReadDmaExt lba count (readSectors p lba count m)
  data : described p (readSectors p lba count m) = (range (count * 512)).map (p.bounce + ·)

variable {p : Port} {m : Mem} {count x : ℕ}

lemma sendCmd_behind (fis : List ℕ) (h : p.table + 128 ≤ x) : sendCmd p fis m x = m x := by
  unfold sendCmd
  dsimp only
  rw [ByteMem.copyBytes_of_outside (by omega), if_neg (by omega), if_neg (by omega)]

lemma putPrdt_table (total : ℕ) (hlow : p.table ≤ x) (hhigh : x < p.table + 4096) :
    putPrdt p total m x = m x := by
  have ha := p.apart
  rw [putPrdt, if_neg (by omega)]

lemma readSectors_behind (lba count : ℕ) (hlow : p.table + 128 ≤ x)
    (hhigh : x < p.table + 4096) : readSectors p lba count m x = m x := by
  rw [readSectors, sendCmd_behind _ hlow, putPrdt_table _ (by omega) hhigh]

lemma writeSectors_behind (lba buf : ℕ) (hc : count ≤ 8) (hlow : p.table + 128 ≤ x)
    (hhigh : x < p.table + 4096) : writeSectors p lba count buf m x = m x := by
  have ha := p.apart
  rw [writeSectors, sendCmd_behind _ hlow, putPrdt_table _ (by omega) hhigh,
    ByteMem.copyBytes_of_outside (by omega)]

lemma Used.behind (h : Used p m) (hlow : p.table + 128 ≤ x) (hhigh : x < p.table + 4096) :
    m x = 0 := by
  induction h with
  | init m => rw [portInit, if_pos ⟨by omega, hhigh⟩]
  | read h lba hc ih => rw [readSectors_behind _ _ hlow hhigh, ih]
  | write h lba buf hc ih => rw [writeSectors_behind _ _ hc hlow hhigh, ih]
  | other h hsame ih => rw [hsame x (by omega) hhigh, ih]

/-- Behind the first 128 bytes the table is clear, so that the entry the controller reads describes
one byte. -/
lemma Used.length_described (h : Used p m) : (described p m).length = 1 := by
  have hz : ByteMem.readLE m (p.table + 0x8C) 4 = 0 := by
    have hc : ByteMem.readLE m (p.table + 0x8C) 4 =
        ByteMem.readLE (fun _ => 0) (p.table + 0x8C) 4 :=
      ByteMem.readLE_congr fun y hlow hhigh => h.behind (by omega) (by omega)
    rw [hc]
    rfl
  rw [described, length_map, length_range, hz, Nat.zero_mod]

/-- Neither a write nor a read ever describes the caller's sectors: the entry is put at byte 0x40 of
the table, where the controller does not look for it. -/
theorem ahci_never_issued (h : Used p m) (lba buf : ℕ) (hc : count ≤ 8) :
    ¬ WriteIssued p lba count buf m ∧ ¬ ReadIssued p lba count m := by
  constructor
  · rintro ⟨-, hd⟩
    have hl := congrArg length hd
    rw [length_map, (h.write lba buf hc).length_described, length_map, length_range] at hl
    omega
  · rintro ⟨-, hd⟩
    have hl := congrArg length hd
    rw [(h.read lba hc).length_described, length_map, length_range] at hl
    omega

/-- The tables are in the page 0x2000, the bounce page is 0x1000. -/
def samplePort : Port := ⟨0x2000, 0x1000, by decide⟩

theorem ahci_never_issued_first :
    ¬ WriteIssued samplePort 0 1 0x8000 (portInit samplePort fun _ => 0) ∧
      ¬ ReadIssued samplePort 0 1 (portInit samplePort fun _ => 0) :=
  ahci_never_issued (.init fun _ => 0) 0 0x8000 (by decide)

/-- A write of one sector: the command names another sector, the entry covers the start of the data,
and the controller finds one byte at address 0. -/
theorem ahci_misissues :
    buildCmdFis cmdWriteDmaExt 0 1 0 ≠ registerFis cmdWriteDmaExt 0 1 ∧
      writeSectors samplePort 0 1 0x8000 (fun _ => 0) 0x1001 = 0x10 ∧
      described samplePort (writeSectors samplePort 0 1 0x8000 fun _ => 0) = [0] := by
  decide

end Ahci

section Physical
open Paging

section Nvme

variable {m : Machine} {buf : ℕ} {p : Pte} {list : ℕ → ℕ} {dir : Direction}
  {blockSize lba count : ℕ}

end Nvme

end Physical

end Elitra.Block
