import Mathlib.Algebra.Ring.Nat
import Mathlib.Tactic.Common

namespace Elitra.Nvme
open Function List

/-- The fields of a submission queue entry that the driver sets; the others are zero. -/
structure NvmeSubmissionEntry where
  cdw0 : ℕ
  nsid : ℕ
  prp1 : ℕ
  cdw10 : ℕ
  cdw11 : ℕ
  cdw12 : ℕ

/-- A completion. `command` is a history variable: the number of the command that it was posted for,
or nothing for what the memory held before. -/
structure NvmeCompletionEntry where
  phase : Bool
  statusCode : ℕ
  command : Option ℕ

/-- A submission and a completion queue, with the numbers of the frames that were allocated for them.
`size` is the number of entries that the controller was told; `issued` counts the commands, `posted`
the completions. -/
structure Queue where
  sqFrame : ℕ
  cqFrame : ℕ
  size : ℕ
  sq : ℕ → NvmeSubmissionEntry
  cq : ℕ → NvmeCompletionEntry
  sqTail : ℕ
  cqHead : ℕ
  issued : ℕ
  posted : ℕ

def adminCreateIoSq : ℕ := 0x01
def adminCreateIoCq : ℕ := 0x05
def adminIdentify : ℕ := 0x06
def ioRead : ℕ := 0x02
def ioWrite : ℕ := 0x01

def identifyController (bufferPhys : ℕ) : NvmeSubmissionEntry :=
  ⟨adminIdentify, 0, bufferPhys, 1, 0, 0⟩

def identifyNamespace (nsid bufferPhys : ℕ) : NvmeSubmissionEntry :=
  ⟨adminIdentify, nsid, bufferPhys, 0, 0, 0⟩

/-- `QSIZE` is the number of entries less one; the queue number stays 0. -/
def createIoCq (ioCqPhys : ℕ) : NvmeSubmissionEntry :=
  ⟨adminCreateIoCq, 0, ioCqPhys, (4096 / 64 - 1) * 2 ^ 16, 1, 0⟩

def createIoSq (ioSqPhys : ℕ) : NvmeSubmissionEntry :=
  ⟨adminCreateIoSq, 0, ioSqPhys, (4096 / 64 - 1) * 2 ^ 16, 1 + 2 ^ 16, 0⟩

/-- The command of `read_sectors` and `write_sectors`: the number of blocks is given less one. -/
def ioCommand (opcode nsid lba count bufPhys : ℕ) : NvmeSubmissionEntry :=
  ⟨opcode, nsid, bufPhys, lba % 2 ^ 32, lba / 2 ^ 32 % 2 ^ 32, (count + 2 ^ 32 - 1) % 2 ^ 32⟩

/-- The commands that `init` sends through the admin queue. -/
def initCommands (ctrlBuf nsBuf ioCqPhys ioSqPhys : ℕ) : List NvmeSubmissionEntry :=
  [identifyController ctrlBuf, identifyNamespace 1 nsBuf, createIoCq ioCqPhys, createIoSq ioSqPhys]

/-- The controller posts the completion of the next command, if there is one. -/
def post (q : Queue) (statusCode : ℕ) : Queue :=
  if q.posted < q.issued then
    { q with
      cq := update q.cq (q.posted % q.size)
        ⟨q.posted / q.size % 2 = 0, statusCode, some q.posted⟩
      posted := q.posted + 1 }
  else q

def look (q : Queue) : Queue × Option NvmeCompletionEntry :=
  if (q.cq q.cqHead).phase then
    ({ q with cqHead := (q.cqHead + 1) % 2 ^ 16 }, some (q.cq q.cqHead))
  else (q, none)

/-- The first part of `submit_admin_cmd` and `submit_io_cmd`, up to the doorbell. -/
def enqueue (q : Queue) (cmd : NvmeSubmissionEntry) : Queue :=
  { q with
    sq := update q.sq q.sqTail cmd
    sqTail := (q.sqTail + 1) % 2 ^ 16
    issued := q.issued + 1 }

/-- A command with what the controller posts from the doorbell on: completions with the status codes
`early` before the first look at the queue, and with the codes `late` before the last. -/
structure Submission where
  cmd : NvmeSubmissionEntry
  early : List ℕ
  late : List ℕ

/-- `submit_admin_cmd` and `submit_io_cmd`: the completion, or nothing after the timeout. -/
def submitCmd (q : Queue) (c : Submission) : Queue × Option NvmeCompletionEntry :=
  let q := c.early.foldl post (enqueue q c.cmd)
  match look q with
  | (q, some e) => (q, some e)
  | (q, none) => look (c.late.foldl post q)

structure NvmeDevice where
  admin : Queue
  io : Queue

inductive QueueId where
  | admin
  | io
  deriving DecidableEq

def NvmeDevice.queue (d : NvmeDevice) : QueueId → Queue
  | .admin => d.admin
  | .io => d.io

def NvmeDevice.setQueue (d : NvmeDevice) (q : Queue) : QueueId → NvmeDevice
  | .admin => { d with admin := q }
  | .io => { d with io := q }

/-- `AQA` is written as 0, which means one entry; the I/O queues are created with 64. -/
def QueueId.size : QueueId → ℕ
  | .admin => 1
  | .io => 4096 / 64

def exec (d : NvmeDevice) (call : QueueId × Submission) : NvmeDevice :=
  d.setQueue (submitCmd (d.queue call.1) call.2).1 call.1

/-- The pointer to an entry. The number of the frame is taken for its address. -/
def Queue.sqEntry (q : Queue) (i : ℕ) : ℕ := q.sqFrame + 64 * i

def Queue.cqEntry (q : Queue) (i : ℕ) : ℕ := q.cqFrame + 16 * i

/-- `len` bytes at the address lie in the page of the frame. -/
def InPage (frame addr len : ℕ) : Prop := frame * 4096 ≤ addr ∧ addr + len ≤ (frame + 1) * 4096

instance (frame addr len : ℕ) : Decidable (InPage frame addr len) :=
  inferInstanceAs (Decidable (_ ∧ _))

/-- The indices are below the queue size, the entries inside the page, and the completion that is
consumed is the one of this command. -/
structure Sound (q : Queue) (c : Submission) : Prop where
  tail : q.sqTail < q.size
  head : q.cqHead < q.size
  sqPage : InPage q.sqFrame (q.sqEntry q.sqTail) 64
  cqPage : InPage q.cqFrame (q.cqEntry q.cqHead) 16
  own : ∀ e, (submitCmd q c).2 = some e → e.command = some q.issued

def AllSound : NvmeDevice → List (QueueId × Submission) → Prop
  | _, [] => True
  | d, call :: calls => Sound (d.queue call.1) call.2 ∧ AllSound (exec d call) calls

/-- A queue as it is set up: `init` goes on only with pointers that are not null. -/
structure Queue.Fresh (q : Queue) : Prop where
  sqFrame : q.sqFrame ≠ 0
  cqFrame : q.cqFrame ≠ 0
  tail : q.sqTail = 0
  head : q.cqHead = 0

/-- The first entry lies below its page. -/
lemma Queue.Fresh.not_sound {q : Queue} (h : q.Fresh) (c : Submission) : ¬ Sound q c := by
  intro hs
  have hpage := hs.sqPage.1
  have hframe := h.sqFrame
  rw [Queue.sqEntry, h.tail] at hpage
  omega

/-- No run with a command keeps to its queues: already the first command is written outside the page
of its queue. -/
theorem allSound_iff_nil (d : NvmeDevice) (hd : ∀ id, (d.queue id).Fresh)
    (calls : List (QueueId × Submission)) : AllSound d calls ↔ calls = [] := by
  cases calls with
  | nil => exact iff_of_true trivial rfl
  | cons call calls => exact iff_of_false (fun h => (hd call.1).not_sound _ h.1) (cons_ne_nil _ _)

def emptyQueue (frame size : ℕ) : Queue :=
  ⟨frame, frame + 1, size, fun _ => ⟨0, 0, 0, 0, 0, 0⟩, fun _ => ⟨false, 0, none⟩, 0, 0, 0, 0⟩

def emptyDevice : NvmeDevice := ⟨emptyQueue 256 QueueId.admin.size, emptyQueue 260 QueueId.io.size⟩

theorem allSound_iff_nil_emptyDevice :
    AllSound emptyDevice [] ∧
      ¬ AllSound emptyDevice [(.io, ⟨ioCommand ioRead 1 0 1 0x8000, [0], []⟩)] := by
  have hfresh (id : QueueId) : (emptyDevice.queue id).Fresh := by
    cases id <;> exact ⟨by decide, by decide, rfl, rfl⟩
  refine ⟨(allSound_iff_nil _ hfresh []).2 rfl, fun h => ?_⟩
  exact cons_ne_nil _ _ ((allSound_iff_nil _ hfresh _).1 h)

/-- The commands of `init`, each completed with success at the first look. -/
def promptInit : List (QueueId × Submission) :=
  (initCommands 0x1000 0x2000 0x3000 0x4000).map fun cmd => (.admin, ⟨cmd, [0], []⟩)

/-- The first command of `init` goes to the address 256, outside the page of the frame 256. The second
goes into entry 1 of the admin queue, which has one entry, and so does the place where its
completion is looked for; the controller posted that one in entry 0. A read that times out leaves
its completion to the next read. -/
theorem init_leaves_queue :
    (¬ AllSound emptyDevice promptInit ∧
      emptyDevice.admin.sqEntry emptyDevice.admin.sqTail = 256 ∧ ¬ InPage 256 256 64) ∧
    ((exec emptyDevice (.admin, ⟨identifyController 0x1000, [0], []⟩)).admin.sqTail = 1 ∧
      QueueId.admin.size = 1) ∧
    ((submitCmd (submitCmd (emptyQueue 260 64) ⟨ioCommand ioRead 1 0 1 0x8000, [], []⟩).1
        ⟨ioCommand ioRead 1 7 1 0x8000, [0], []⟩).2.map (·.command)) = some (some 0) := by
  refine ⟨⟨fun h => ?_, by decide, by decide⟩, by decide, by decide⟩
  exact absurd h.1.sqPage (by decide)

end Elitra.Nvme
