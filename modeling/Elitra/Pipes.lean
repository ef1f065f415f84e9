import Elitra.Ring
import Mathlib.Algebra.Ring.Int.Defs
import Mathlib.Data.List.Infix

namespace Elitra.Pipes
open Function List

abbrev Byte := BitVec 8

def maxPipes : ℕ := 16
def pipeBufSize : ℕ := 4096
def pipeFdStart : ℤ := 32

/-- What is left of a number in an `i32`. -/
def toI32 (z : ℤ) : ℤ := (z + 2 ^ 31) % 2 ^ 32 - 2 ^ 31

structure Pipe where
  ring : Ring Byte
  readOpen : Bool
  writeOpen : Bool
  used : Bool
  readers : ℕ
  writers : ℕ
  readFd : ℤ
  writeFd : ℤ

def Pipe.zero : Pipe := ⟨⟨fun _ => 0, 0, 0⟩, false, false, false, 0, 0, 0, 0⟩

/-- `PIPES` and `NEXT_PIPE_FD`. -/
structure Table where
  pipes : ℕ → Pipe
  nextFd : ℤ

def pipeFromFd (s : Table) (fd : ℤ) (isRead : Bool) : Option ℕ :=
  (List.range maxPipes).find? fun i =>
    (s.pipes i).used && ((if isRead then (s.pipes i).readFd else (s.pipes i).writeFd) == fd)

/-- `krust_vfs_pipe_create`; the result is the slot. -/
def krustVfsPipeCreate (s : Table) : Table × Option ℕ :=
  match (List.range maxPipes).find? fun i => !(s.pipes i).used with
  | none => (s, none)
  | some i =>
    let p : Pipe := { Pipe.zero with
      used := true
      readOpen := true
      writeOpen := true
      readFd := s.nextFd
      writeFd := toI32 (s.nextFd + 1)
      readers := 1
      writers := 1 }
    (⟨update s.pipes i p, toI32 (toI32 (s.nextFd + 1) + 1)⟩, some i)

def Pipe.closeRead (p : Pipe) (fd : ℤ) : Pipe :=
  if p.readFd = fd then { p with readOpen := false, readers := p.readers - 1 } else p

def Pipe.closeWrite (p : Pipe) (fd : ℤ) : Pipe :=
  if p.writeFd = fd then { p with writeOpen := false, writers := p.writers - 1 } else p

def Pipe.drop (p : Pipe) : Pipe :=
  if p.readers = 0 ∧ p.writers = 0 then { p with used := false } else p

def closedSlot (s : Table) (fd : ℤ) : Option ℕ :=
  (List.range maxPipes).find? fun i =>
    (s.pipes i).used && ((s.pipes i).readFd == fd || (s.pipes i).writeFd == fd)

def krustVfsPipeClose (s : Table) (fd : ℤ) : Table :=
  match closedSlot s fd with
  | none => s
  | some i =>
    { s with pipes := update s.pipes i (((s.pipes i).closeRead fd).closeWrite fd).drop }

/-- A read or a write in progress. It keeps the slot it found when it started; `bytes` are those it
moved so far, `data` those that a write is to store. -/
structure Call where
  isRead : Bool
  slot : ℕ
  size : ℕ
  total : ℕ
  retries : ℕ
  data : ℕ → Byte
  bytes : List Byte

inductive Round where
  | moved (p : Pipe) (b : Byte)
  | yields
  | returns

def readRound (p : Pipe) (c : Call) : Round :=
  if c.total < c.size then
    if p.ring.head ≠ p.ring.tail then
      .moved { p with ring := p.ring.pop pipeBufSize } (p.ring.buf p.ring.tail)
    else if !p.writeOpen then .returns
    else if 200 < c.retries then .returns
    else .yields
  else .returns

def writeRound (p : Pipe) (c : Call) : Round :=
  if c.total < c.size then
    if (p.ring.head + 1) % pipeBufSize ≠ p.ring.tail then
      .moved { p with ring := p.ring.push pipeBufSize (c.data c.total) } (c.data c.total)
    else if !p.readOpen then .returns
    else if 200 < c.retries then .returns
    else .yields
  else .returns

def round (p : Pipe) (c : Call) : Round := if c.isRead then readRound p c else writeRound p c

structure Result where
  value : ℤ
  bytes : List Byte

/-- The table, the calls in progress by task, and what happened so far: the bytes stored in and
taken from each slot since its pipe was created, the results, the number of each slot's pipe, the
pipe that each task's call named when it started, and which task holds which end (the number of a
pipe, with `true` for its read end). -/
structure State where
  table : Table
  calls : ℕ → Option Call
  stored : ℕ → List Byte
  taken : ℕ → List Byte
  results : List Result
  pipe : ℕ → ℕ
  fresh : ℕ
  named : ℕ → ℕ
  holds : ℕ → ℕ × Bool → Bool

/-- The acts of the tasks. A task may be switched at a yield; here it may be switched after every
round of a loop, which includes that. -/
inductive Act where
  | create (t : ℕ)
  | fork (t child : ℕ)
  | close (t : ℕ) (fd : ℤ)
  | exit (t : ℕ)
  | read (t : ℕ) (fd : ℤ) (size : ℕ)
  | write (t : ℕ) (fd : ℤ) (size : ℕ) (data : ℕ → Byte)
  | round (t : ℕ)

/-- The task that creates a pipe holds both of its ends. -/
def State.create (s : State) (t : ℕ) : State :=
  match krustVfsPipeCreate s.table with
  | (_, none) => s
  | (table, some i) =>
    { s with
      table := table
      stored := update s.stored i []
      taken := update s.taken i []
      pipe := update s.pipe i s.fresh
      fresh := s.fresh + 1
      holds := fun u e => s.holds u e || u == t && e.1 == s.fresh }

/-- The ends that a close of `fd` in the slot `i` closes. -/
def closes (s : State) (i : ℕ) (fd : ℤ) (e : ℕ × Bool) : Bool :=
  e.1 == s.pipe i &&
    (if e.2 then (s.table.pipes i).readFd == fd else (s.table.pipes i).writeFd == fd)

def State.close (s : State) (t : ℕ) (fd : ℤ) : State :=
  { s with
    table := krustVfsPipeClose s.table fd
    holds := fun u e => s.holds u e &&
      !(u == t && ((closedSlot s.table fd).any fun i => closes s i fd e)) }

/-- A call that finds no pipe returns `-1` at once. -/
def State.start (s : State) (t : ℕ) (fd : ℤ) (isRead : Bool) (size : ℕ) (data : ℕ → Byte) : State :=
  match pipeFromFd s.table fd isRead with
  | none => s
  | some i =>
    { s with
      calls := update s.calls t (some ⟨isRead, i, size, 0, 0, data, []⟩)
      named := update s.named t (s.pipe i) }

def State.round (s : State) (t : ℕ) (c : Call) : State :=
  match Pipes.round (s.table.pipes c.slot) c with
  | .returns =>
    { s with
      calls := update s.calls t none
      results := s.results ++ [⟨toI32 c.total, c.bytes⟩] }
  | .yields => { s with calls := update s.calls t (some { c with retries := c.retries + 1 }) }
  | .moved p b =>
    { s with
      table := { s.table with pipes := update s.table.pipes c.slot p }
      calls := update s.calls t
        (some { c with total := c.total + 1, retries := 0, bytes := c.bytes ++ [b] })
      stored := if c.isRead then s.stored
        else update s.stored c.slot (s.stored c.slot ++ [b])
      taken := if c.isRead then update s.taken c.slot (s.taken c.slot ++ [b])
        else s.taken }

/-- An act, if the task can make it: one that is in a call does nothing else, unless it is killed,
and the child of a fork is a new task. -/
def Act.exec (s : State) : Act → Option State
  | .create t => if (s.calls t).isSome then none else some (s.create t)
  | .fork t child =>
    if (s.calls t).isSome ∨ (s.calls child).isSome ∨ child = t then none
    else some { s with holds := fun u e => if u = child then s.holds t e else s.holds u e }
  | .close t fd => if (s.calls t).isSome then none else some (s.close t fd)
  | .exit t =>
    some { s with
      calls := update s.calls t none
      holds := fun u e => s.holds u e && u != t }
  | .read t fd size => if (s.calls t).isSome then none else some (s.start t fd true size fun _ => 0)
  | .write t fd size data =>
    if (s.calls t).isSome then none else some (s.start t fd false size data)
  | .round t =>
    match s.calls t with
    | none => none
    | some c => some (s.round t c)

/-- After `krust_vfs_init`. -/
def start : State where
  table := ⟨fun _ => Pipe.zero, pipeFdStart⟩
  calls := fun _ => none
  stored := fun _ => []
  taken := fun _ => []
  results := []
  pipe := fun _ => 0
  fresh := 1
  named := fun _ => 0
  holds := fun _ _ => false

inductive Reached (ok : State → Act → Prop) : State → Prop
  | start : Reached ok start
  | step {s s' : State} (a : Act) (h : Reached ok s) (hok : ok s a) (hs : a.exec s = some s') :
      Reached ok s'

variable {s : State}

lemma Reached.invariant {ok : State → Act → Prop} {P : State → Prop} (hst : P Pipes.start)
    (hsp : ∀ {s s' : State} {a : Act}, P s → ok s a → a.exec s = some s' → P s')
    (h : Reached ok s) : P s := by
  induction h with
  | start => exact hst
  | step a _ hok hs ih => exact hsp ih hok hs

section Inversion

variable {s s' : State} {p p' : Pipe} {c : Call} {b : Byte}

lemma round_moved (h : round p c = .moved p' b) :
    c.total < c.size ∧
      ((c.isRead = true ∧ p.ring.head ≠ p.ring.tail ∧ b = p.ring.buf p.ring.tail ∧
          p' = { p with ring := p.ring.pop pipeBufSize }) ∨
        (c.isRead = false ∧ (p.ring.head + 1) % pipeBufSize ≠ p.ring.tail ∧
          p' = { p with ring := p.ring.push pipeBufSize b })) := by
  unfold round readRound writeRound at h
  cases hr : c.isRead with
  | true =>
    rw [hr, if_pos rfl] at h
    split at h
    · rename_i hlt
      split at h
      · rename_i hne
        cases h
        exact ⟨hlt, .inl ⟨rfl, hne, rfl, rfl⟩⟩
      split at h
      · cases h
      split at h
      · cases h
      · cases h
    · cases h
  | false =>
    rw [hr, if_neg (by decide)] at h
    split at h
    · rename_i hlt
      split at h
      · rename_i hne
        cases h
        exact ⟨hlt, .inr ⟨rfl, hne, rfl⟩⟩
      split at h
      · cases h
      split at h
      · cases h
      · cases h
    · cases h

end Inversion

variable {i t : ℕ}

section Fifo

variable {s s' : State}

/-- The calls have sizes that an `i32` can report. -/
def Act.Small : Act → Prop
  | .read _ _ size => size < 2 ^ 31
  | .write _ _ size _ => size < 2 ^ 31
  | _ => True

/-- What holds of one slot: the indices fit, and what was stored is what was taken and then what is
in the ring. -/
structure Flow (s : State) (i : ℕ) : Prop where
  fits : Ring.Fits pipeBufSize (s.table.pipes i).ring
  order : s.stored i = s.taken i ++ (s.table.pipes i).ring.items pipeBufSize

/-- What holds of a call in progress. -/
structure Counted (c : Call) : Prop where
  total : c.total = c.bytes.length
  size : c.total ≤ c.size
  small : c.size < 2 ^ 31

structure Inv (s : State) : Prop where
  flow : ∀ i, Flow s i
  calls : ∀ t c, s.calls t = some c → Counted c
  results : ∀ r ∈ s.results, r.value = r.bytes.length

lemma toI32_eq {n : ℕ} (h : n < 2 ^ 31) : toI32 n = n := by
  unfold toI32
  omega

lemma flow_zero (hr : (s.table.pipes i).ring = Pipe.zero.ring)
    (hs : s.stored i = []) (ht : s.taken i = []) : Flow s i := by
  refine ⟨?_, ?_⟩
  · rw [hr]
    exact ⟨by decide, by decide⟩
  rw [hr, hs, ht]
  decide

lemma Flow.congr (h : Flow s i) (hr : (s'.table.pipes i).ring = (s.table.pipes i).ring)
    (hs : s'.stored i = s.stored i) (ht : s'.taken i = s.taken i) : Flow s' i := by
  refine ⟨?_, ?_⟩
  · rw [hr]
    exact h.fits
  rw [hr, hs, ht]
  exact h.order

lemma close_ring (s : Table) (fd : ℤ) (i : ℕ) :
    ((krustVfsPipeClose s fd).pipes i).ring = (s.pipes i).ring := by
  unfold krustVfsPipeClose
  split
  · rfl
  rename_i j _
  dsimp only
  by_cases hij : i = j
  · subst hij
    rw [update_self]
    unfold Pipe.drop Pipe.closeWrite Pipe.closeRead
    split_ifs <;> rfl
  · rw [update_of_ne hij]

lemma Inv.create (h : Inv s) (t : ℕ) : Inv (s.create t) := by
  unfold State.create krustVfsPipeCreate
  split
  · exact h
  rename_i table i heq
  split at heq
  · cases heq
  cases heq
  refine ⟨fun j => ?_, h.calls, h.results⟩
  by_cases hji : j = i
  · subst hji
    apply flow_zero
    · dsimp only
      rw [update_self]
    · exact update_self ..
    · exact update_self ..
  apply (h.flow j).congr
  · dsimp only
    rw [update_of_ne hji]
  · exact update_of_ne hji _ _
  · exact update_of_ne hji _ _

lemma Inv.calls_update (h : Inv s) {o : Option Call} (ho : ∀ c, o = some c → Counted c)
    (u : ℕ) (c : Call) (hc : update s.calls t o u = some c) : Counted c := by
  by_cases hut : u = t
  · subst hut
    rw [update_self] at hc
    exact ho c hc
  rw [update_of_ne hut] at hc
  exact h.calls u c hc

lemma Inv.begin (h : Inv s) (t : ℕ) (fd : ℤ) (isRead : Bool) {size : ℕ} (data : ℕ → Byte)
    (hs : size < 2 ^ 31) : Inv (s.start t fd isRead size data) := by
  unfold State.start
  split
  · exact h
  refine ⟨fun i => (h.flow i).congr rfl rfl rfl, h.calls_update fun c hc => ?_, h.results⟩
  cases hc
  exact ⟨rfl, Nat.zero_le _, hs⟩

lemma Inv.round (h : Inv s) {c : Call} (hc : s.calls t = some c) : Inv (s.round t c) := by
  have hco := h.calls t c hc
  unfold State.round
  split
  · -- the call returns
    refine ⟨fun i => (h.flow i).congr rfl rfl rfl, h.calls_update (fun _ ho => (by cases ho)), ?_⟩
    intro r hr
    rcases mem_append.mp hr with hr | hr
    · exact h.results r hr
    rw [mem_singleton] at hr
    subst hr
    have ht : c.total < 2 ^ 31 := Nat.lt_of_le_of_lt hco.size hco.small
    rw [toI32_eq ht, hco.total]
  · refine ⟨fun i => (h.flow i).congr rfl rfl rfl, h.calls_update fun c' ho => ?_, h.results⟩
    cases ho
    exact ⟨hco.total, hco.size, hco.small⟩
  rename_i p b heq
  obtain ⟨hlt, hm⟩ := round_moved heq
  refine ⟨fun i => ?_, h.calls_update fun c' ho => ?_, h.results⟩
  · by_cases hi : i = c.slot
    · subst hi
      have hf := (h.flow c.slot).fits
      have hor := (h.flow c.slot).order
      rcases hm with ⟨hre, hne, hb, hp⟩ | ⟨hre, hro, hp⟩
      · refine ⟨?_, ?_⟩
        · dsimp only
          rw [update_self, hp]
          exact hf.pop
        dsimp only
        rw [update_self, hre, if_pos rfl, if_pos rfl, update_self, hor,
          hf.items_pop hne, hb, hp, append_assoc]
        rfl
      refine ⟨?_, ?_⟩
      · dsimp only
        rw [update_self, hp]
        exact hf.push
      dsimp only
      rw [update_self, hre, if_neg (by decide), if_neg (by decide),
        update_self, hp, hor, hf.items_push hro, append_assoc]
    apply (h.flow i).congr
    · dsimp only
      rw [update_of_ne hi]
    · dsimp only
      split
      · rfl
      · exact update_of_ne hi _ _
    dsimp only
    split
    · exact update_of_ne hi _ _
    · rfl
  cases ho
  refine ⟨?_, hlt, hco.small⟩
  rw [length_append, ← hco.total]
  rfl

lemma Inv.step {a : Act} (h : Inv s) (hsm : a.Small) (hs : a.exec s = some s') : Inv s' := by
  cases a with
  | create t =>
    rw [Act.exec] at hs
    split at hs
    · cases hs
    cases hs
    exact h.create t
  | fork t child =>
    rw [Act.exec] at hs
    split at hs
    · cases hs
    cases hs
    exact ⟨fun i => (h.flow i).congr rfl rfl rfl, h.calls, h.results⟩
  | close t fd =>
    rw [Act.exec] at hs
    split at hs
    · cases hs
    cases hs
    exact ⟨fun i => (h.flow i).congr (close_ring s.table fd i) rfl rfl, h.calls, h.results⟩
  | exit t =>
    cases hs
    exact ⟨fun i => (h.flow i).congr rfl rfl rfl, h.calls_update (fun _ ho => (by cases ho)),
      h.results⟩
  | read t fd size =>
    rw [Act.exec] at hs
    split at hs
    · cases hs
    cases hs
    exact h.begin t fd true _ hsm
  | write t fd size data =>
    rw [Act.exec] at hs
    split at hs
    · cases hs
    cases hs
    exact h.begin t fd false _ hsm
  | round t =>
    rw [Act.exec] at hs
    split at hs
    · cases hs
    rename_i c hc
    cases hs
    exact h.round hc

lemma start_inv : Inv start :=
  ⟨fun _ => flow_zero rfl rfl rfl, fun _ _ hc => (by cases hc), fun _ hr => (by cases hr)⟩

/-- In every run of calls with small sizes, whatever the interleaving: what was taken from a pipe is
a prefix of what was stored, the ring keeps its bounds, and each call returns how many bytes it
moved. -/
theorem small_run_fifo (h : Reached (fun _ a => a.Small) s) :
    (∀ i, s.taken i <+: s.stored i ∧ (s.table.pipes i).ring.count pipeBufSize ≤ 4095 ∧
      s.stored i = s.taken i ++ (s.table.pipes i).ring.items pipeBufSize ∧
      (s.table.pipes i).ring.head < 4096 ∧ (s.table.pipes i).ring.tail < 4096) ∧
    ∀ r ∈ s.results, r.value = r.bytes.length := by
  have hinv : Inv s := h.invariant start_inv Inv.step
  refine ⟨fun i => ?_, hinv.results⟩
  obtain ⟨hf, ho⟩ := hinv.flow i
  refine ⟨?_, ?_, ho, hf.head, hf.tail⟩
  · rw [ho]
    exact prefix_append _ _
  have := hf.count_lt
  unfold pipeBufSize at this ⊢
  omega

theorem small_run_fifo_transfer :
    ∃ s, Reached (fun _ a => a.Small) s ∧ s.stored 0 = [7] ∧ s.taken 0 <+: [7] ∧
      ∀ r ∈ s.results, r.value = r.bytes.length := by
  have hc : Reached (fun _ a => a.Small) (Pipes.start.create 1) :=
    .step (.create 1) .start trivial rfl
  have hw := hc.step (.write 1 33 1 fun _ => 7) (by unfold Act.Small; decide) rfl
  have hm := hw.step (.round 1) trivial rfl
  have hd := hm.step (.round 1) trivial rfl
  have hr := hd.step (.read 1 32 1) (by unfold Act.Small; decide) rfl
  have ht := hr.step (.round 1) trivial rfl
  exact ⟨_, ht, rfl, ((small_run_fifo ht).1 0).1, (small_run_fifo ht).2⟩

end Fifo

section Long

variable {s : State} {c : Call}

/-- Task 2 reads from the empty pipe in slot 0, and task 3 is free to write. -/
structure Reading (s : State) (c : Call) : Prop where
  reached : Reached (fun _ _ => True) s
  empty : (s.table.pipes 0).ring.head = (s.table.pipes 0).ring.tail
  fits : Ring.Fits pipeBufSize (s.table.pipes 0).ring
  used : (s.table.pipes 0).used = true
  writeOpen : (s.table.pipes 0).writeOpen = true
  writeFd : (s.table.pipes 0).writeFd = 33
  reader : s.calls 2 = some c
  writer : s.calls 3 = none
  isRead : c.isRead = true
  slot : c.slot = 0
  total : c.total = c.bytes.length

lemma pipeFromFd_zero {table : Table} (hu : (table.pipes 0).used = true)
    (hfd : (table.pipes 0).writeFd = 33) : pipeFromFd table 33 false = some 0 := by
  unfold pipeFromFd maxPipes
  rw [range_succ_eq_map, find?_cons_of_pos]
  simp [hu, hfd]

lemma Reached.round {ok : State → Act → Prop} (h : Reached ok s) (t : ℕ) (hok : ok s (.round t))
    (hc : s.calls t = some c) : Reached ok (s.round t c) := by
  apply h.step (.round t) hok
  rw [Act.exec, hc]

lemma Reading.feed (h : Reading s c) (hlt : c.total < c.size) :
    ∃ s' c', Reading s' c' ∧ c'.total = c.total + 1 ∧ c'.size = c.size ∧ c'.retries = 0 := by
  have hrm : (s.table.pipes 0).ring.head + 1 ≠ (s.table.pipes 0).ring.tail ∧
      ((s.table.pipes 0).ring.head + 1) % pipeBufSize ≠ (s.table.pipes 0).ring.tail := by
    have ht := h.fits.tail
    rw [h.empty, Ring.mod_succ ht]
    unfold pipeBufSize at *
    split <;> omega
  let w : Call := ⟨false, 0, 1, 0, 0, fun _ => 7, []⟩
  let s1 : State := { s with
    calls := update s.calls 3 (some w)
    named := update s.named 3 (s.pipe 0) }
  have hr1 : Reached (fun _ _ => True) s1 := by
    apply h.reached.step (.write 3 33 1 fun _ => 7) trivial
    rw [Act.exec, h.writer, State.start, pipeFromFd_zero h.used h.writeFd]
    rfl
  -- the writer stores its byte and returns
  let r : Ring Byte := (s.table.pipes 0).ring.push pipeBufSize 7
  have hro1 : Pipes.round (s1.table.pipes w.slot) w =
      .moved { s.table.pipes 0 with ring := r } 7 := by
    simp [Pipes.round, writeRound, w, s1, hrm, r]
  let w' : Call := ⟨false, 0, 1, 1, 0, fun _ => 7, [7]⟩
  have hr2 := hr1.round 3 trivial (show s1.calls 3 = some w by simp [s1])
  rw [State.round, hro1] at hr2
  have hr3 := hr2.round 3 trivial (show _ = some w' by simp [w, w'])
  rw [State.round, show ∀ p, Pipes.round p w' = .returns from fun _ => rfl] at hr3
  -- and the reader takes it
  have hc : r.head ≠ r.tail ∧ r.buf r.tail = 7 := by
    refine ⟨hrm.2, ?_⟩
    change update (s.table.pipes 0).ring.buf (s.table.pipes 0).ring.head 7
      (s.table.pipes 0).ring.tail = 7
    rw [h.empty, update_self]
  have hro3 : Pipes.round { s.table.pipes 0 with ring := r } c =
      .moved { s.table.pipes 0 with ring := r.pop pipeBufSize } 7 := by
    simp [Pipes.round, readRound, h.isRead, hlt, hc]
  have hr4 := hr3.round 2 trivial (show _ = some c by simp [s1, h.reader])
  rw [State.round] at hr4
  simp only [h.slot, update_self, hro3, w, s1] at hr4
  refine ⟨_, { c with total := c.total + 1, retries := 0, bytes := c.bytes ++ [7] },
    ⟨hr4, ?_, ?_, ?_, ?_, ?_, ?_, ?_, h.isRead, h.slot, ?_⟩, rfl, rfl, rfl⟩
  · simp only [update_self]
    change ((s.table.pipes 0).ring.head + 1) % pipeBufSize =
      ((s.table.pipes 0).ring.tail + 1) % pipeBufSize
    rw [h.empty]
  · simp only [update_self]
    exact h.fits.push.pop
  · simp [h.used]
  · simp [h.writeOpen]
  · simp [h.writeFd]
  · simp [h.slot]
  · simp
  · simp [h.total]

lemma Reading.yield (h : Reading s c) (hlt : c.total < c.size) (hre : c.retries = 0) :
    ∃ s', Reading s' { c with retries := 1 } := by
  have hro : Pipes.round (s.table.pipes c.slot) c = .yields := by
    rw [h.slot]
    simp [Pipes.round, readRound, h.isRead, hlt, h.empty, h.writeOpen, hre]
  have hr := h.reached.round 2 trivial h.reader
  rw [State.round, hro, hre] at hr
  refine ⟨_, hr, h.empty, h.fits, h.used, h.writeOpen, h.writeFd, ?_, ?_, h.isRead, h.slot, h.total⟩
  · simp
  · simp [h.writer]

lemma Reading.many (h : Reading s c) (hz : c.total = 0) (n : ℕ) (hn : n < c.size) :
    ∃ s' c', Reading s' c' ∧ c'.total = n ∧ c'.size = c.size := by
  induction n with
  | zero => exact ⟨s, c, h, hz, rfl⟩
  | succ n ih =>
    obtain ⟨s1, c1, h1, ht, hs⟩ := ih (by omega)
    obtain ⟨s2, c2, h2, ht2, hs2, hr⟩ := h1.feed (by omega)
    obtain ⟨s3, h3⟩ := h2.yield (by omega) hr
    exact ⟨s3, _, h3, by
      change c2.total = n + 1
      omega, hs2.trans hs⟩

/-- A read of `2 ^ 31` bytes, fed byte by byte, returns a negative number. -/
theorem long_read_returns_negative :
    ∃ s, Reached (fun _ _ => True) s ∧
      ∃ r ∈ s.results, r.bytes.length = 2 ^ 31 ∧ r.value = -2 ^ 31 := by
  have hc : Reached (fun _ _ => True) (Pipes.start.create 1) :=
    .step (.create 1) .start trivial rfl
  have hre := hc.step (.read 2 32 (2 ^ 31)) trivial rfl
  have h0 : Reading _ ⟨true, 0, 2 ^ 31, 0, 0, fun _ => 0, []⟩ :=
    ⟨hre, rfl, ⟨by decide, by decide⟩, rfl, rfl, by decide, rfl, rfl, rfl, rfl, rfl⟩
  obtain ⟨s1, c1, h1, ht1, hs1⟩ := h0.many rfl (2 ^ 31 - 1) (by
    change 2 ^ 31 - 1 < 2 ^ 31
    omega)
  change c1.size = 2 ^ 31 at hs1
  obtain ⟨s2, c2, h2, ht2, hs2, -⟩ := h1.feed (by omega)
  have hd : c2.total = 2 ^ 31 := by omega
  have hro : Pipes.round (s2.table.pipes c2.slot) c2 = .returns := by
    simp [Pipes.round, readRound, h2.isRead, hd, hs2, hs1]
  have hr := h2.reached.round 2 trivial h2.reader
  rw [State.round, hro] at hr
  refine ⟨_, hr, _, mem_append_right _ (mem_singleton.mpr rfl), ?_, ?_⟩
  · rw [← h2.total, hd]
  dsimp only
  rw [hd]
  decide

end Long

end Elitra.Pipes
