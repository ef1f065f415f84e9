import Elitra.SchedExit
import Elitra.SchedLife

namespace Elitra.Sched
open Function Signals

inductive SleepCall where
  | sleep (ms : ℕ)
  | nanosleep (sec nsec : ℕ)

def SleepCall.ns : SleepCall → ℕ
  | sleep ms => ms * 10 ^ 6
  | nanosleep sec nsec => sec * 10 ^ 9 + nsec

/-- The argument of `krust_sched_sleep_ticks`, if the call gets there: `nanosleep` waits out less than
10 ms without sleeping. -/
def SleepCall.arg : SleepCall → Option ℕ
  | sleep ms => some (ms % 2 ^ 32)
  | nanosleep sec nsec =>
    let totalNs := (sec * 1000000000 + nsec) % 2 ^ 64
    let ticks := totalNs / 10000000 % 2 ^ 32
    if 0 < ticks then some ticks else none

/-- The tick that `krust_sched_sleep_ticks` sleeps until. -/
def sleepTarget (tickMs now ms : ℕ) : ℕ :=
  let ticks := if 0 < tickMs then ms / tickMs else ms
  (now + ticks) % 2 ^ 32

/-- The call of the task on CPU `c`, up to the end of the yield in it. -/
def SleepCall.exec (s : State) (c tickMs now frame : ℕ) (r : Regs) (call : SleepCall) : Option State :=
  match call.arg with
  | none => some s
  | some ms => krustSchedSleepTicks s c (sleepTarget tickMs now ms) now frame r

/-- A task that is ready `k` ticks after a call, for `k` in `awake`, got the sleep it asked for: not
less, and at most one tick more. -/
def Timely (awake : ℕ → Prop) (tickNs ns : ℕ) : Prop :=
  (∀ k, awake k → ns ≤ k * tickNs) ∧ ∀ k, ns ≤ k * tickNs → ∃ j ≤ k + 1, awake j

section Yield

variable {s s' : State} {c t frame : ℕ}

/-- The task may run: it is in state `READY` or it runs. -/
def Awake (s : State) (t : ℕ) : Prop := s.state t = .ready ∨ s.state t = .running

lemma switchAway_awake (s : State) (c t frame : ℕ) : Awake (switchAway s c t frame false) t := by
  unfold switchAway
  dsimp only
  rw [if_neg (by decide)]
  split
  · exact .inr (update_self ..)
  rename_i next _
  by_cases hn : t = next
  · rw [← hn]
    exact .inr (update_self ..)
  refine .inl ?_
  unfold resumeTask enqueueTask
  dsimp only
  rw [update_of_ne hn, update_self]

lemma getCurrent_sleepEnqueue (s : State) (c t target : ℕ) :
    getCurrent (sleepEnqueue s t target) c = getCurrent s c := rfl

/-- `krust_sched_sleep_ticks` yields with the task in the sleep queue, and the yield makes it ready. -/
lemma sleepTicks_awake {target now : ℕ} {r : Regs} (hcur : getCurrent s c = some t)
    (hid : s.id t ≠ 0) (h : krustSchedSleepTicks s c target now frame r = some s') : Awake s' t := by
  rw [krustSchedSleepTicks, hcur] at h
  dsimp only at h
  rw [if_neg hid, krustSchedYieldHandler, getCurrent_sleepEnqueue, hcur] at h
  obtain ⟨s1, hw, rfl⟩ := Option.map_eq_some_iff.mp h
  have hl : s1.id = s.id := (wakeLoop_life hw).id
  have hb : ((deliver s1 c r).id t == 0) = false := by
    rw [deliver_id, hl]
    simpa using hid
  dsimp only
  rw [hb]
  exact switchAway_awake ..

/-- A task put to sleep gets the time it asked for exactly if it asked for none, whatever happens to
it in the ticks after the call. -/
theorem sleep_timely_iff (s s' : State) (c t tickMs now frame : ℕ) (r : Regs) (call : SleepCall)
    (hcur : getCurrent s c = some t) (hid : s.id t ≠ 0) (hsleeps : call.arg ≠ none)
    (h : call.exec s c tickMs now frame r = some s') (later : ℕ → State) (hlater : later 0 = s') :
    Timely (fun k => Awake (later k) t) (tickMs * 10 ^ 6) call.ns ↔ call.ns = 0 := by
  obtain ⟨ms, hms⟩ := Option.ne_none_iff_exists'.mp hsleeps
  rw [SleepCall.exec, hms] at h
  have ha : Awake (later 0) t := by
    rw [hlater]
    exact sleepTicks_awake hcur hid h
  constructor
  · intro ht
    have hle := ht.1 0 ha
    rwa [Nat.zero_mul, Nat.le_zero] at hle
  intro hz
  rw [hz]
  exact ⟨fun k _ => Nat.zero_le _, fun k _ => ⟨0, Nat.zero_le _, ha⟩⟩

/-- Task 1 runs on the first CPU, with no other task. -/
def alone : State :=
  { boot with cpu := update boot.cpu 0 (some 1), id := id }

def noRegs : Regs := ⟨0, 8, 0, 0, 0, 0, 0⟩

theorem sleep_timely_iff_zero :
    ∃ s', (SleepCall.sleep 0).exec alone 0 10 7 0x2000 noRegs = some s' ∧
      (Timely (fun _ => Awake s' 1) (10 * 10 ^ 6) (SleepCall.sleep 0).ns ↔
        (SleepCall.sleep 0).ns = 0) :=
  ⟨_, rfl, sleep_timely_iff alone _ 0 1 10 7 0x2000 noRegs (.sleep 0) rfl (by decide) (by decide) rfl
    (fun _ => _) rfl⟩

/-- `sleep(1000)` and `nanosleep` of a second at tick 7: the task runs on at tick 7, and its targets
are the ticks 107 and 17. -/
theorem sleep_returns_at_once :
    (∃ s', (SleepCall.sleep 1000).exec alone 0 10 7 0x2000 noRegs = some s' ∧
      s'.state 1 = .running ∧ s'.sleepUntil 1 = 107) ∧
    ∃ s', (SleepCall.nanosleep 1 0).exec alone 0 10 7 0x2000 noRegs = some s' ∧
      s'.state 1 = .running ∧ s'.sleepUntil 1 = 17 :=
  ⟨⟨_, rfl, rfl, rfl⟩, _, rfl, rfl, rfl⟩

end Yield

end Elitra.Sched
