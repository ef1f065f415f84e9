import Elitra.Loop
import Elitra.Pipes
import Elitra.Syscalls
import Mathlib.Data.BitVec

namespace Elitra.Poll
open ByteMem
open Pipes (Table pipeFromFd pipeBufSize toI32)
open Syscalls (isUserRange)

abbrev Events := BitVec 16

def pollIn : Events := 0x001
def pollOut : Events := 0x004
def pollNval : Events := 0x020

/-- What a check of one entry sees: the pipes, the descriptors of the task, and which sockets have
data. -/
structure World where
  pipes : Table
  vfs : Vfs.State
  task : ℕ
  socketHasData : ℤ → Bool

def World.isPipeFd (w : World) (fd : ℤ) : Bool :=
  (pipeFromFd w.pipes fd true).isSome || (pipeFromFd w.pipes fd false).isSome

def World.pipeHasData (w : World) (fd : ℤ) : Bool :=
  (pipeFromFd w.pipes fd true).any fun i =>
    (w.pipes.pipes i).ring.head != (w.pipes.pipes i).ring.tail

def World.pipeCanWrite (w : World) (fd : ℤ) : Bool :=
  (pipeFromFd w.pipes fd false).any fun i =>
    ((w.pipes.pipes i).ring.head + 1) % pipeBufSize != (w.pipes.pipes i).ring.tail

/-- The entry of the descriptor table, if it is in use. -/
def World.entry (w : World) (fd : ℤ) : Option Vfs.Entry :=
  (Vfs.usedFd w.vfs w.task fd).map (w.vfs.entry w.task)

def World.hasData (w : World) (fd : ℤ) : Bool :=
  if w.isPipeFd fd then w.pipeHasData fd
  else
    match w.entry fd with
    | none => false
    | some e =>
      match e.node with
      | some node =>
        if w.vfs.fs.kind node = .file then decide (e.offset < w.vfs.fs.size node)
        else w.socketHasData fd
      | none => w.socketHasData fd

def World.canWrite (w : World) (fd : ℤ) : Bool := if w.isPipeFd fd then w.pipeCanWrite fd else true

def check (w : World) (fd : ℤ) (events : Events) : Events :=
  let revents : Events :=
    if fd < 0 then pollNval
    else if events &&& pollIn ≠ 0 ∧ w.hasData fd = true then pollIn
    else 0
  if events &&& pollOut ≠ 0 ∧ w.canWrite fd = true then revents ||| pollOut else revents

/-- A call: its arguments, the memory at the call, what each check of each round of the loop sees,
and the tick counter at the start and after each round. -/
structure Args where
  ptr : ℕ
  nfds : ℕ
  timeoutMs : ℤ
  mem : Mem
  world : ℕ → ℕ → World
  start : ℕ
  ticks : ℕ → ℕ

def Args.valid (a : Args) : Bool := a.nfds ≤ 64 && a.ptr != 0 && isUserRange a.ptr (a.nfds * 8)

def fdAt (m : Mem) (ptr i : ℕ) : ℤ := toI32 (readLE m (ptr + 8 * i) 4)
def eventsAt (m : Mem) (ptr i : ℕ) : Events := BitVec.ofNat 16 (readLE m (ptr + 8 * i + 4) 2)
def reventsAt (m : Mem) (ptr i : ℕ) : Events := BitVec.ofNat 16 (readLE m (ptr + 8 * i + 6) 2)

/-- The result of the check of entry `i` in round `k`. -/
def Args.result (a : Args) (k i : ℕ) : Events :=
  check (a.world k i) (fdAt a.mem a.ptr i) (eventsAt a.mem a.ptr i)

/-- `total_ready` after round `k`. -/
def Args.totalReady (a : Args) (k : ℕ) : ℕ :=
  ((List.range a.nfds).filter fun i => a.result k i ≠ 0).length

/-- The loop, from round `k` on: the last round, or `none` if there are more than `fuel`. -/
def Args.lastRound (a : Args) : ℕ → ℕ → Option ℕ
  | 0, _ => none
  | fuel + 1, k =>
    if a.totalReady k ≠ 0 ∨ a.timeoutMs = 0 then some k
    else if 0 ≤ a.timeoutMs ∧ a.start + a.timeoutMs.toNat * 3 ≤ a.ticks k then some k
    else a.lastRound fuel (k + 1)

def writeBack (ptr : ℕ) (results : ℕ → Events) (n : ℕ) (m : Mem) : Mem :=
  Loop.each (fun i m => writeLE m (ptr + 8 * i + 4) (results i).toNat 2) (List.range n) m

/-- `poll`: the memory after the call and what it returns. -/
def sysPoll (a : Args) (fuel : ℕ) : Option (Mem × ℕ) :=
  if !a.valid then some (a.mem, 0xFFFFFFFF)
  else
    (a.lastRound fuel 0).map fun k => (writeBack a.ptr (a.result k) a.nfds a.mem, a.totalReady k)

/-- Neither an end of a pipe nor a descriptor in use. -/
def World.bad (w : World) (fd : ℤ) : Bool := !w.isPipeFd fd && (w.entry fd).isNone

/-- The requested conditions that hold, and the flag for a bad descriptor. -/
def conditions (w : World) (fd : ℤ) (events : Events) : Events :=
  if w.bad fd then pollNval
  else
    (if events &&& pollIn ≠ 0 ∧ w.hasData fd = true then pollIn else 0) |||
      if events &&& pollOut ≠ 0 ∧ w.canWrite fd = true then pollOut else 0

/-- What the entry `i` should be answered in the last round. -/
def Args.wanted (a : Args) (k i : ℕ) : Events :=
  conditions (a.world k i) (fdAt a.mem a.ptr i) (eventsAt a.mem a.ptr i)

/-- The descriptors and requests are as before, the answers are right, and `n` counts them. -/
structure Right (a : Args) (k : ℕ) (m : Mem) (n : ℕ) : Prop where
  fd : ∀ i < a.nfds, fdAt m a.ptr i = fdAt a.mem a.ptr i
  events : ∀ i < a.nfds, eventsAt m a.ptr i = eventsAt a.mem a.ptr i
  revents : ∀ i < a.nfds, reventsAt m a.ptr i = a.wanted k i
  count : n = ((List.range a.nfds).filter fun i => a.wanted k i ≠ 0).length

section Memory

variable {ptr n i : ℕ} {results : ℕ → Events} {m : Mem}

lemma writeBack_spec (ptr : ℕ) (results : ℕ → Events) (n : ℕ) (m : Mem) :
    (∀ i < n, readLE (writeBack ptr results n m) (ptr + 8 * i + 4) 2 = (results i).toNat) ∧
      ∀ x, (∀ i < n, x < ptr + 8 * i + 4 ∨ ptr + 8 * i + 6 ≤ x) → writeBack ptr results n m x = m x := by
  apply Loop.each_range (fun k m' =>
    (∀ i < k, readLE m' (ptr + 8 * i + 4) 2 = (results i).toNat) ∧
      ∀ x, (∀ i < k, x < ptr + 8 * i + 4 ∨ ptr + 8 * i + 6 ≤ x) → m' x = m x)
  · exact ⟨fun i hi => absurd hi (Nat.not_lt_zero i), fun x _ => rfl⟩
  intro k m' _ hm'
  refine ⟨fun i hi => ?_, fun x hx => ?_⟩
  · rcases Nat.lt_or_eq_of_le (Nat.le_of_lt_succ hi) with hlt | rfl
    · rw [readLE_writeLE_of_disjoint (by omega)]
      exact hm'.1 i hlt
    · exact readLE_writeLE_of_lt m' (results i).isLt
  have hk := hx k (Nat.lt_succ_self k)
  rw [writeLE_of_outside (by omega)]
  exact hm'.2 x fun i hi => hx i (Nat.lt_succ_of_lt hi)

lemma fdAt_writeBack (ptr : ℕ) (results : ℕ → Events) (n : ℕ) (m : Mem) (i : ℕ) :
    fdAt (writeBack ptr results n m) ptr i = fdAt m ptr i := by
  unfold fdAt
  rw [readLE_congr fun x h1 h2 => (writeBack_spec ptr results n m).2 x fun j _ => ?_]
  omega

lemma reventsAt_writeBack (ptr : ℕ) (results : ℕ → Events) (n : ℕ) (m : Mem) (i : ℕ) :
    reventsAt (writeBack ptr results n m) ptr i = reventsAt m ptr i := by
  unfold reventsAt
  rw [readLE_congr fun x h1 h2 => (writeBack_spec ptr results n m).2 x fun j _ => ?_]
  omega

lemma eventsAt_writeBack (hi : i < n) :
    eventsAt (writeBack ptr results n m) ptr i = results i := by
  unfold eventsAt
  rw [(writeBack_spec ptr results n m).1 i hi, BitVec.ofNat_toNat, BitVec.setWidth_eq]

end Memory

/-- When an entry comes out right. A descriptor that is good must have all that was requested, and the
request stand in the field for the answer; of a bad one the flag must stand there, and what is
stored over the request be the request. -/
def Lucky (w : World) (fd : ℤ) (events revents : Events) : Prop :=
  if w.bad fd = true then
    revents = pollNval ∧
      if fd < 0 then events = pollNval ∨ events = pollNval ||| pollOut else events = pollOut
  else
    revents = events ∧
      (events = 0 ∨ events = pollIn ∧ w.hasData fd = true ∨ events = pollOut ∧ w.canWrite fd = true ∨
        events = pollIn ||| pollOut ∧ w.hasData fd = true ∧ w.canWrite fd = true)

section Entries

variable {w : World} {fd : ℤ} {events revents : Events}

lemma bad_of_neg (hw : w.isPipeFd fd = true → 0 ≤ fd) (h : fd < 0) : w.bad fd = true := by
  have hpipe : w.isPipeFd fd = false := Bool.eq_false_iff.mpr fun hp => absurd (hw hp) (by omega)
  have hused : Vfs.usedFd w.vfs w.task fd = none := if_pos (.inl h)
  simp [World.bad, World.entry, hpipe, hused]

lemma check_of_good (hw : w.isPipeFd fd = true → 0 ≤ fd) (h : w.bad fd = false) :
    check w fd events = conditions w fd events := by
  have hfd : ¬ fd < 0 := fun hneg => by simp [bad_of_neg hw hneg] at h
  unfold check conditions
  rw [if_neg hfd, h, if_neg Bool.false_ne_true]
  dsimp only
  by_cases ho : events &&& pollOut ≠ 0 ∧ w.canWrite fd = true
  · rw [if_pos ho, if_pos ho]
  · rw [if_neg ho, if_neg ho]
    exact BitVec.or_zero.symm

lemma check_of_bad (h : w.bad fd = true) : check w fd events =
    (if fd < 0 then pollNval else 0) ||| if events &&& pollOut ≠ 0 then pollOut else 0 := by
  simp only [World.bad, Bool.and_eq_true, Bool.not_eq_true', Option.isNone_iff_eq_none] at h
  have hdata : w.hasData fd = false := by simp [World.hasData, h.1, h.2]
  have hwrite : w.canWrite fd = true := by simp [World.canWrite, h.1]
  unfold check
  rw [hdata, hwrite]
  simp only [Bool.false_eq_true, and_false, if_false, and_true]
  split_ifs <;> simp

lemma lucky_iff_of_bad (events revents : BitVec 16) (hb : w.bad fd = true) :
    Lucky w fd events revents ↔ check w fd events = events ∧ revents = conditions w fd events ∧
      (conditions w fd events ≠ 0 → check w fd events ≠ 0) := by
  have hc : conditions w fd events = pollNval := by rw [conditions, hb, if_pos rfl]
  rw [Lucky, if_pos hb, check_of_bad hb, hc]
  by_cases hfd : fd < 0
  · rw [if_pos hfd, if_pos hfd]
    by_cases ho : events &&& pollOut ≠ 0
    · rw [if_pos ho]
      constructor
      · rintro ⟨rfl, rfl | rfl⟩
        · exact absurd ho (by decide)
        · exact ⟨rfl, rfl, fun _ => by decide⟩
      · rintro ⟨rfl, rfl, -⟩
        exact ⟨rfl, .inr rfl⟩
    · rw [if_neg ho]
      constructor
      · rintro ⟨rfl, rfl | rfl⟩
        · exact ⟨by decide, rfl, fun _ => by decide⟩
        · exact absurd (by decide) ho
      · rintro ⟨heq, rfl, -⟩
        exact ⟨rfl, .inl (heq.symm.trans (by decide))⟩
  · rw [if_neg hfd, if_neg hfd]
    by_cases ho : events &&& pollOut ≠ 0
    · rw [if_pos ho]
      constructor
      · rintro ⟨rfl, rfl⟩
        exact ⟨by decide, rfl, fun _ => by decide⟩
      · rintro ⟨heq, rfl, -⟩
        exact ⟨rfl, heq.symm.trans (by decide)⟩
    · rw [if_neg ho]
      constructor
      · rintro ⟨rfl, rfl⟩
        exact absurd (by decide) ho
      · rintro ⟨-, -, hne⟩
        exact absurd (by decide) (hne (by decide))

lemma lucky_iff_of_good (events revents : BitVec 16) (hw : w.isPipeFd fd = true → 0 ≤ fd)
    (hb : w.bad fd = false) :
    Lucky w fd events revents ↔ check w fd events = events ∧ revents = conditions w fd events ∧
      (conditions w fd events ≠ 0 → check w fd events ≠ 0) := by
  rw [Lucky, hb, if_neg Bool.false_ne_true, ← check_of_good hw hb]
  constructor
  · rintro ⟨rfl, hreq⟩
    have heq : check w fd revents = revents := by
      rw [check_of_good hw hb, conditions, hb, if_neg Bool.false_ne_true]
      rcases hreq with rfl | ⟨rfl, hd⟩ | ⟨rfl, hr⟩ | ⟨rfl, hd, hr⟩
      · rw [if_neg (fun h => absurd h.1 (by decide)), if_neg (fun h => absurd h.1 (by decide))]
        decide
      · rw [if_pos ⟨by decide, hd⟩, if_neg (fun h => absurd h.1 (by decide))]
        decide
      · rw [if_neg (fun h => absurd h.1 (by decide)), if_pos ⟨by decide, hr⟩]
        decide
      · rw [if_pos ⟨by decide, hd⟩, if_pos ⟨by decide, hr⟩]
    exact ⟨heq, heq.symm, id⟩
  · rintro ⟨heq, hr, -⟩
    refine ⟨hr.trans heq, ?_⟩
    rw [check_of_good hw hb, conditions, hb, if_neg Bool.false_ne_true] at heq
    by_cases hin : events &&& pollIn ≠ 0 ∧ w.hasData fd = true <;>
      by_cases hout : events &&& pollOut ≠ 0 ∧ w.canWrite fd = true
    · rw [if_pos hin, if_pos hout] at heq
      exact .inr (.inr (.inr ⟨heq.symm, hin.2, hout.2⟩))
    · rw [if_pos hin, if_neg hout] at heq
      exact .inr (.inl ⟨heq.symm.trans (by decide), hin.2⟩)
    · rw [if_neg hin, if_pos hout] at heq
      exact .inr (.inr (.inl ⟨heq.symm.trans (by decide), hout.2⟩))
    · rw [if_neg hin, if_neg hout] at heq
      exact .inl (heq.symm.trans (by decide))

lemma lucky_iff (events revents : BitVec 16) (hw : w.isPipeFd fd = true → 0 ≤ fd) :
    Lucky w fd events revents ↔ check w fd events = events ∧ revents = conditions w fd events ∧
      (conditions w fd events ≠ 0 → check w fd events ≠ 0) := by
  cases hb : w.bad fd with
  | true => exact lucky_iff_of_bad events revents hb
  | false => exact lucky_iff_of_good events revents hw hb

lemma conditions_ne_zero (hw : w.isPipeFd fd = true → 0 ≤ fd) (h : check w fd events ≠ 0) :
    conditions w fd events ≠ 0 := by
  cases hb : w.bad fd with
  | true =>
    rw [conditions, hb, if_pos rfl]
    decide
  | false => rwa [← check_of_good hw hb]

end Entries

lemma filter_length_eq_iff {α : Type} {l : List α} {p q : α → Bool}
    (h : ∀ x ∈ l, p x = true → q x = true) :
    (l.filter p).length = (l.filter q).length ↔ ∀ x ∈ l, q x = true → p x = true := by
  constructor
  · intro hlen x hx hq
    have hsub : (l.filter p).Sublist (l.filter q) := by
      have hboth := List.filter_sublist (l := l.filter q) (p := p)
      rwa [List.filter_filter, List.filter_congr fun y hy => ?_] at hboth
      cases hp : p y with
      | true => rw [h y hy hp, Bool.and_self]
      | false => rfl
    have hmem : x ∈ l.filter p := by
      rw [hsub.eq_of_length hlen]
      exact List.mem_filter.mpr ⟨hx, hq⟩
    exact (List.mem_filter.mp hmem).2
  · intro hqp
    rw [List.filter_congr fun x hx => Bool.eq_iff_iff.mpr ⟨h x hx, hqp x hx⟩]

/-- A `poll` that returns after round `k` is right exactly if every entry is one that comes out right:
the results are stored over the requests and never where the answers belong. -/
theorem poll_right_iff (a : Args) (fuel k : ℕ) (m : Mem) (n : ℕ) (hvalid : a.valid = true)
    (hlast : a.lastRound fuel 0 = some k) (h : sysPoll a fuel = some (m, n))
    (hpipes : ∀ i fd, (a.world k i).isPipeFd fd = true → 0 ≤ fd) :
    Right a k m n ↔ ∀ i < a.nfds, Lucky (a.world k i) (fdAt a.mem a.ptr i)
      (eventsAt a.mem a.ptr i) (reventsAt a.mem a.ptr i) := by
  rw [sysPoll, hvalid, hlast] at h
  cases h
  have hcount : a.totalReady k = ((List.range a.nfds).filter fun i => a.wanted k i ≠ 0).length ↔
      ∀ i < a.nfds, a.wanted k i ≠ 0 → a.result k i ≠ 0 := by
    rw [Args.totalReady, filter_length_eq_iff]
    · simp
    · intro i _ hr
      exact decide_eq_true (conditions_ne_zero (hpipes i _) (of_decide_eq_true hr))
  have hiff (i : ℕ) := lucky_iff (eventsAt a.mem a.ptr i) (reventsAt a.mem a.ptr i)
    (hpipes i (fdAt a.mem a.ptr i))
  simp only [hiff]
  constructor
  · intro hr i hi
    refine ⟨?_, ?_, hcount.1 hr.count i hi⟩
    · exact (eventsAt_writeBack hi).symm.trans (hr.events i hi)
    · exact (reventsAt_writeBack ..).symm.trans (hr.revents i hi)
  intro he
  refine ⟨fun i _ => fdAt_writeBack .., fun i hi => ?_, fun i hi => ?_,
    hcount.2 fun i hi => (he i hi).2.2⟩
  · rw [eventsAt_writeBack hi]
    exact (he i hi).1
  · rw [reventsAt_writeBack]
    exact (he i hi).2.1

/-- Two descriptors: 0 for an empty file, and 1 not in use. -/
def oneOpen : World where
  pipes := ⟨fun _ => Pipes.Pipe.zero, 32⟩
  vfs :=
    { fs := { Vfs.krustVfsInit.fs with kind := fun _ => .file }
      tables := fun _ => some fun fd =>
        if fd = 0 then ⟨some 1, 0, 0, true, 1⟩ else Vfs.Entry.unused }
  task := 0
  socketHasData := fun _ => false

/-- One entry at 0x2000, for the descriptor 0 and with the given events and answer. -/
def entryMem (events revents : ℕ) : Mem :=
  writeLE (writeLE (fun _ => 0) 0x2004 events 2) 0x2006 revents 2

def pollOne (events revents : ℕ) : Args where
  ptr := 0x2000
  nfds := 1
  timeoutMs := 0
  mem := entryMem events revents
  world := fun _ _ => oneOpen
  start := 0
  ticks := fun _ => 0

theorem poll_right_iff_writable :
    ∃ m, sysPoll (pollOne 4 4) 1 = some (m, 1) ∧ Right (pollOne 4 4) 0 m 1 := by
  have hpipes (i : ℕ) (fd : ℤ) (h : ((pollOne 4 4).world 0 i).isPipeFd fd = true) : 0 ≤ fd := by
    simp [World.isPipeFd, pollOne, oneOpen, pipeFromFd, Pipes.Pipe.zero] at h
  refine ⟨_, rfl, (poll_right_iff (pollOne 4 4) 1 0 _ _ rfl rfl rfl hpipes).2 fun i hi => ?_⟩
  obtain rfl : i = 0 := Nat.lt_one_iff.mp hi
  have hgood : ¬ ((pollOne 4 4).world 0 0).bad (fdAt (entryMem 4 4) 0x2000 0) = true := by decide
  refine (if_neg hgood).mpr ?_
  exact ⟨by decide, .inr (.inr (.inl ⟨by decide, by decide⟩))⟩

/-- A request for data or room, 5, is answered with room, 4: the answer is stored over the request,
and the field for it stays 0. -/
theorem poll_overwrites_request :
    ∃ m, sysPoll (pollOne 5 0) 1 = some (m, 1) ∧ eventsAt m 0x2000 0 = 4 ∧
      reventsAt m 0x2000 0 = 0 ∧ eventsAt (entryMem 5 0) 0x2000 0 = 5 ∧
      (pollOne 5 0).wanted 0 0 = 4 :=
  ⟨_, rfl, by decide, by decide, by decide, by decide⟩

end Elitra.Poll
