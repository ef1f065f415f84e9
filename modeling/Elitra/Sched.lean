import Elitra.Linked
import Elitra.Signals
import Mathlib.Algebra.Ring.Int.Defs

namespace Elitra.Sched
open Function LinkedList Signals

inductive TaskState where
  | ready | running | blocked | waiting | exited
  deriving DecidableEq, Repr

def maxTasks : ℕ := 128

/-- The ready queue and the sleep queue; both are linked through the `next` field of the tasks. -/
structure Queues where
  next : ℕ → Option ℕ
  head : Option ℕ
  tail : Option ℕ
  sleepHead : Option ℕ
  sleepCount : ℕ

structure Family where
  parent : ℕ → Option ℕ
  childHead : ℕ → Option ℕ
  childTail : ℕ → Option ℕ
  siblingNext : ℕ → Option ℕ

/-- `NEXT_ID` and the stack `FREE_IDS`, its top first. -/
structure Ids where
  nextId : ℕ
  freeIds : List ℕ
  deriving DecidableEq, Repr

/-- Frames and address spaces are named by the allocation that gave them: 0 is the kernel's page
directory, `fresh` the name of the next allocation. `released` lists what was given back, latest
first. -/
structure Resources where
  kstack : ℕ → Option ℕ
  fpuState : ℕ → Option ℕ
  cr3 : ℕ → Option ℕ
  fresh : ℕ
  released : List ℕ

/-- The scheduler's globals, with the task table as one map for each field. `cpu` is
`PER_CPU_CURRENT`; a halted CPU sits in the `hlt` loop of `krust_sched_exit`. Two fields are not
in the source: `waitFor` is the local state of a task suspended in `waitpid` (`true`) or
`thread_join`, and `occupied` says whether a task was set up in the slot and not reaped since. -/
structure State where
  queues : Queues
  family : Family
  ids : Ids
  res : Resources
  cpu : ℕ → Option ℕ
  halted : ℕ → Bool
  id : ℕ → ℕ
  state : ℕ → TaskState
  sleepUntil : ℕ → ℕ
  rsp : ℕ → ℕ
  sig : ℕ → Sig
  uid : ℕ → ℕ
  pages : ℕ → ℕ
  oomScoreAdj : ℕ → ℤ
  waitFor : ℕ → Option (ℕ × Bool)
  occupied : ℕ → Bool

def Queues.enqueue (q : Queues) (t : ℕ) : Queues :=
  let next := update q.next t none
  match q.head, q.tail with
  | none, _ => { q with next := next, head := some t, tail := some t }
  | some _, some l => { q with next := update next l (some t), tail := some t }
  -- The source would follow a null tail here.
  | some _, none => { q with next := next }

def Queues.dequeue (q : Queues) : Queues × Option ℕ :=
  match q.head with
  | none => (q, none)
  | some t =>
    ({ q with
        head := q.next t
        tail := if q.next t = none then none else q.tail
        next := update q.next t none }, some t)

def sleepEnqueue (s : State) (t ticks : ℕ) : State :=
  { s with
    sleepUntil := update s.sleepUntil t ticks
    state := update s.state t .blocked
    queues := { s.queues with
      next := update s.queues.next t s.queues.sleepHead
      sleepHead := some t
      sleepCount := s.queues.sleepCount + 1 } }

/-- The body of the loop of `sleep_wake_all` for a task whose time has come: it goes to the ready
queue and is then cut out of the sleep queue, behind `prev`. -/
def wake (s : State) (prev : Option ℕ) (t : ℕ) : State :=
  let after := s.queues.next t
  let q := s.queues.enqueue t
  let q := match prev with
    | some p => { q with next := update q.next p after }
    | none => { q with sleepHead := after }
  { s with
    state := update s.state t .ready
    sleepUntil := update s.sleepUntil t 0
    queues := { q with sleepCount := (q.sleepCount + 2 ^ 64 - 1) % 2 ^ 64 } }

/-- `none`: the loop has not ended after that many rounds. -/
def wakeLoop (now : ℕ) : ℕ → Option ℕ → Option ℕ → State → Option State
  | _, _, none, s => some s
  | 0, _, some _, _ => none
  | fuel + 1, prev, some t, s =>
    if s.sleepUntil t ≤ now then wakeLoop now fuel prev (s.queues.next t) (wake s prev t)
    else wakeLoop now fuel (some t) (s.queues.next t) s

def sleepWakeAll (s : State) (now : ℕ) : Option State :=
  wakeLoop now (2 * maxTasks) none s.queues.sleepHead s

def Family.addChild (f : Family) (parent child : ℕ) : Family :=
  let f := { f with
    parent := update f.parent child (some parent)
    siblingNext := update f.siblingNext child none }
  match f.childHead parent, f.childTail parent with
  | none, _ =>
    { f with
      childHead := update f.childHead parent (some child)
      childTail := update f.childTail parent (some child) }
  | some _, some l =>
    { f with
      siblingNext := update f.siblingNext l (some child)
      childTail := update f.childTail parent (some child) }
  -- The source would follow a null tail here.
  | some _, none => f

/-- Cuts `child` out of its parent's list, behind `prev`. -/
def Family.unlink (f : Family) (parent child : ℕ) (prev : Option ℕ) : Family :=
  let after := f.siblingNext child
  let f := match prev with
    | some p => { f with siblingNext := update f.siblingNext p after }
    | none => { f with childHead := update f.childHead parent after }
  let f := if after = none then { f with childTail := update f.childTail parent prev } else f
  { f with
    parent := update f.parent child none
    siblingNext := update f.siblingNext child none }

def Family.removeLoop (f : Family) (parent child : ℕ) : ℕ → Option ℕ → Option ℕ → Option Family
  | _, _, none => some f
  | 0, _, some _ => none
  | fuel + 1, prev, some t =>
    if t = child then some (f.unlink parent child prev)
    else f.removeLoop parent child fuel (some t) (f.siblingNext t)

def Family.removeChild (f : Family) (parent child : ℕ) : Option Family :=
  f.removeLoop parent child maxTasks none (f.childHead parent)

def Family.children (f : Family) (t : ℕ) : Option (List ℕ) :=
  walkList f.siblingNext maxTasks (f.childHead t)

def Family.dropChildren (f : Family) (t : ℕ) : Family :=
  { f with
    childHead := update f.childHead t none
    childTail := update f.childTail t none }

/-- `krust_sched_exit` only redirects the children's parent pointers. -/
def Family.orphan (f : Family) (children : List ℕ) : Family :=
  children.foldl (fun f c => { f with parent := update f.parent c (some 0) }) f

/-- `krust_oom_kill` pushes the children on the list of task 1. -/
def Family.adopt (f : Family) (children : List ℕ) : Family :=
  children.foldl (fun f c => { f with
    parent := update f.parent c (some 1)
    siblingNext := update f.siblingNext c (f.childHead 1)
    childHead := update f.childHead 1 (some c) }) f

def Ids.recycle (i : Ids) (id : ℕ) : Ids :=
  if id = 0 ∨ maxTasks ≤ id then i
  else if i.freeIds.length < 128 then { i with freeIds := id :: i.freeIds }
  else i

def Ids.fetch (i : Ids) : Ids × Option ℕ :=
  if maxTasks ≤ i.nextId then (i, none) else ({ i with nextId := i.nextId + 1 }, some i.nextId)

/-- A recycled id is taken only when its slot is still `EXITED`; otherwise it is dropped. -/
def allocTaskId (s : State) : State × Option ℕ :=
  match s.ids.freeIds with
  | id :: rest =>
    let ids := { s.ids with freeIds := rest }
    if id < maxTasks ∧ s.state id = .exited then ({ s with ids := ids }, some id)
    else ({ s with ids := ids.fetch.1 }, ids.fetch.2)
  | [] => ({ s with ids := s.ids.fetch.1 }, s.ids.fetch.2)

def Resources.take (r : Resources) : Resources × ℕ := ({ r with fresh := r.fresh + 1 }, r.fresh)

/-- `free_frame` or `krust_paging_free_user_pages`, on a pointer that can be null. -/
def Resources.release (r : Resources) : Option ℕ → Resources
  | none => r
  | some x => { r with released := x :: r.released }

/-- `fpu`: the machine has `fxsr` and a frame for the state was free. -/
def setupTaskCommon (s : State) (t : ℕ) (kstack : ℕ) (parent : Option ℕ) (fpu : Bool) : State :=
  let res := if fpu then
      { s.res.take.1 with fpuState := update s.res.fpuState t (some s.res.take.2) }
    else s.res
  { s with
    id := update s.id t t
    state := update s.state t .ready
    res := { res with kstack := update res.kstack t (some kstack) }
    pages := update s.pages t 1
    family :=
      { parent := update s.family.parent t parent
        childHead := update s.family.childHead t none
        childTail := update s.family.childTail t none
        siblingNext := update s.family.siblingNext t none }
    sig := update s.sig t Sig.new
    sleepUntil := update s.sleepUntil t 0
    uid := update s.uid t (parent.elim 0 s.uid)
    oomScoreAdj := update s.oomScoreAdj t 0
    waitFor := update s.waitFor t none
    occupied := update s.occupied t true }

/-- The common beginning of every creation: an id, a kernel stack, and the task's fields. `stack`:
a frame for the kernel stack is free. The result is the new task with its stack. -/
def newTask (s : State) (parent : Option ℕ) (stack fpu : Bool) : State × Option (ℕ × ℕ) :=
  match allocTaskId s with
  | (s, none) => (s, none)
  | (s, some t) =>
    if !stack then (s, none)
    else
      let k := s.res.take
      (setupTaskCommon { s with res := k.1 } t k.2 parent fpu, some (t, k.2))

def enqueueTask (s : State) (t : ℕ) : State := { s with queues := s.queues.enqueue t }

def setCr3 (s : State) (t : ℕ) (cr3 : Option ℕ) : State :=
  { s with res := { s.res with cr3 := update s.res.cr3 t cr3 } }

def setRsp (s : State) (t rsp : ℕ) : State := { s with rsp := update s.rsp t rsp }

def releaseFrame (s : State) (x : Option ℕ) : State := { s with res := s.res.release x }

/-- An address space from `krust_paging_clone_kernel_dir`. -/
def takeSpace (s : State) : State × ℕ := ({ s with res := s.res.take.1 }, s.res.take.2)

/-- `krust_sched_create` and `krust_sched_thread_create`: the task runs on the kernel's page
directory. `rsp` is the address of the frame built on the new stack. -/
def krustSchedCreate (s : State) (rsp : ℕ) (stack fpu : Bool) : State :=
  match newTask s none stack fpu with
  | (s, none) => s
  | (s, some (t, _)) => enqueueTask (setCr3 (setRsp s t rsp) t (some 0)) t

/-- Where the creation of a user task stops for lack of memory or a bad file. -/
inductive Failure where
  | clone | load | ustack
  deriving DecidableEq, Repr

def krustSchedCreateElf (s : State) (rsp : ℕ) (stack fpu : Bool) (failure : Option Failure) :
    State :=
  match newTask s none stack fpu with
  | (s, none) => s
  | (s, some (t, kstack)) =>
    match failure with
    | some .clone => releaseFrame s (some kstack)
    | some _ => releaseFrame (takeSpace s).1 (some kstack)
    | none => enqueueTask (setCr3 (setRsp (takeSpace s).1 t rsp) t (some (takeSpace s).2)) t

/-- `krust_sched_create_init`. Without memory for the user stack the kernel stack is freed by
`allocate_user_stack` and again by its caller. -/
def krustSchedCreateInit (s : State) (rsp : ℕ) (stack fpu : Bool) (failure : Option Failure) :
    State :=
  match newTask s none stack fpu with
  | (s, none) => s
  | (s, some (t, kstack)) =>
    match failure with
    | some .clone => releaseFrame s (some kstack)
    | some .load =>
      releaseFrame (releaseFrame (takeSpace s).1 (some kstack)) (some (takeSpace s).2)
    | some .ustack =>
      releaseFrame (releaseFrame (releaseFrame (takeSpace s).1 (some kstack)) (some kstack))
        (some (takeSpace s).2)
    | none => enqueueTask (setCr3 (setRsp (takeSpace s).1 t rsp) t (some (takeSpace s).2)) t

/-- A creation has no new task, gives it up with other resources, or queues it. -/
inductive Creates (s : State) (stack fpu : Bool) : State → Prop
  | lost {s1} : newTask s none stack fpu = (s1, none) → Creates s stack fpu s1
  | stopped (s1) {t k r} : newTask s none stack fpu = (s1, some (t, k)) →
    Creates s stack fpu { s1 with res := r }
  | queued (s1) {t k r rsp} : newTask s none stack fpu = (s1, some (t, k)) →
    Creates s stack fpu (enqueueTask { s1 with res := r, rsp := rsp } t)

section Creates

variable (s : State) (rsp : ℕ) (stack fpu : Bool)

lemma create_creates : Creates s stack fpu (krustSchedCreate s rsp stack fpu) := by
  unfold krustSchedCreate
  split
  · rename_i hn
    exact .lost hn
  · rename_i s1 _ _ hn
    exact .queued s1 hn

lemma createElf_creates (failure : Option Failure) :
    Creates s stack fpu (krustSchedCreateElf s rsp stack fpu failure) := by
  unfold krustSchedCreateElf
  split
  · rename_i hn
    exact .lost hn
  rename_i s1 _ _ hn
  split
  · exact .stopped s1 hn
  · exact .stopped s1 hn
  · exact .queued s1 hn

lemma createInit_creates (failure : Option Failure) :
    Creates s stack fpu (krustSchedCreateInit s rsp stack fpu failure) := by
  unfold krustSchedCreateInit
  split
  · rename_i hn
    exact .lost hn
  rename_i s1 _ _ hn
  split
  · exact .stopped s1 hn
  · exact .stopped s1 hn
  · exact .stopped s1 hn
  · exact .queued s1 hn

end Creates

/-- A halted CPU runs no task. -/
def getCurrent (s : State) (c : ℕ) : Option ℕ := if s.halted c then none else s.cpu c

/-- `krust_sched_fork` (`vm` false) and `krust_sched_clone` with or without `CLONE_VM`. A thread
runs on its parent's directory; the one cloned for it stays allocated. -/
def krustSchedClone (s : State) (c rsp : ℕ) (vm stack fpu space : Bool) : State :=
  match getCurrent s c with
  | none => s
  | some parent =>
    match newTask s (some parent) stack fpu with
    | (s, none) => s
    | (s, some (t, kstack)) =>
      if !space then releaseFrame s (some kstack)
      else
        let p := takeSpace s
        let s := p.1
        let s := { s with
          pages := update s.pages t (s.pages parent)
          sig := update s.sig t
            { Sig.new with blocked := (s.sig parent).blocked, handler := (s.sig parent).handler } }
        let s := setCr3 (setRsp s t rsp) t (if vm then s.res.cr3 parent else some p.2)
        enqueueTask { s with family := s.family.addChild parent t } t

def krustSchedFork (s : State) (c rsp : ℕ) (stack fpu space : Bool) : State :=
  krustSchedClone s c rsp false stack fpu space

def krustSchedCreateIdleForCpu (s : State) (c : ℕ) : State :=
  match allocTaskId s with
  | (s, none) => s
  | (s, some t) =>
    { s with
      id := update s.id t t
      state := update s.state t .running
      res := { s.res with
        kstack := update s.res.kstack t none
        fpuState := update s.res.fpuState t none
        cr3 := update s.res.cr3 t none }
      rsp := update s.rsp t 0
      family :=
        { parent := update s.family.parent t none
          childHead := update s.family.childHead t none
          childTail := update s.family.childTail t none
          siblingNext := update s.family.siblingNext t none }
      sig := update s.sig t Sig.new
      sleepUntil := update s.sleepUntil t 0
      uid := update s.uid t 0
      oomScoreAdj := update s.oomScoreAdj t 0
      waitFor := update s.waitFor t none
      occupied := update s.occupied t true
      cpu := if c < 256 then update s.cpu c (some t) else s.cpu }

/-- `set_current` and the state change that goes with it. -/
def resumeTask (s : State) (c t : ℕ) : State :=
  { s with
    cpu := update s.cpu c (some t)
    state := update s.state t .running }

/-- `krust_sched_deliver_signals` for the task on CPU `c`. -/
def deliver (s : State) (c : ℕ) (r : Regs) : State :=
  match getCurrent s c with
  | none => s
  | some t =>
    let d := deliverSignals (s.sig t) r
    let s := { s with sig := update s.sig t d.1 }
    match d.2 with
    | .exits _ => { s with state := update s.state t .exited }
    | _ => s

/-- The second half of `krust_sched_preempt` and `krust_sched_yield_handler`: an idle task is left
without queueing it, any other becomes `READY` and goes to the end of the queue. `frame` is the
address of the interrupt frame. -/
def switchAway (s : State) (c prev frame : ℕ) (idle : Bool) : State :=
  let s := setRsp s prev frame
  if idle then
    match s.queues.dequeue with
    | (_, none) => s
    | (q, some next) => resumeTask { s with queues := q } c next
  else
    let s := enqueueTask { s with state := update s.state prev .ready } prev
    match s.queues.dequeue with
    | (_, none) => resumeTask s c prev
    | (q, some next) => resumeTask { s with queues := q } c next

/-- `krust_sched_preempt`: a task without a kernel stack is idle. -/
def krustSchedPreempt (s : State) (c now frame : ℕ) (r : Regs) : Option State :=
  match getCurrent s c with
  | none => some s
  | some prev => (sleepWakeAll s now).map fun s =>
    let s := deliver s c r
    switchAway s c prev frame (s.res.kstack prev).isNone

/-- `krust_sched_yield_handler`: the task with id 0 is idle. -/
def krustSchedYieldHandler (s : State) (c now frame : ℕ) (r : Regs) : Option State :=
  match getCurrent s c with
  | none => some s
  | some prev => (sleepWakeAll s now).map fun s =>
    let s := deliver s c r
    switchAway s c prev frame (s.id prev == 0)

/-- `krust_sched_sleep_ticks`, up to the end of the yield in it. -/
def krustSchedSleepTicks (s : State) (c target now frame : ℕ) (r : Regs) : Option State :=
  match getCurrent s c with
  | none => some s
  | some t =>
    if s.id t = 0 then some s
    else krustSchedYieldHandler (sleepEnqueue s t target) c now frame r

/-- `krust_sched_exit`; with no other task and no context of the idle task the CPU halts. -/
def krustSchedExit (s : State) (c : ℕ) : Option State :=
  match getCurrent s c with
  | none => some s
  | some t =>
    if s.id t = 0 then some s
    else
      (s.family.children t).map fun children =>
        let s := { s with
          state := update s.state t .exited
          family := (s.family.orphan children).dropChildren t }
        match s.queues.dequeue with
        | (q, some next) => resumeTask { s with queues := q } c next
        | (_, none) =>
          if s.rsp 0 = 0 then { s with halted := update s.halted c true }
          else resumeTask s c 0

/-- The end of `krust_sched_waitpid_flags`, once the child has exited. -/
def reap (s : State) (parent child : ℕ) : Option State :=
  (s.family.removeChild parent child).map fun family =>
    let res := ((s.res.release (s.res.cr3 child)).release (s.res.kstack child)).release
      (s.res.fpuState child)
    { s with
      family := family
      res := { res with
        kstack := update res.kstack child none
        fpuState := update res.fpuState child none }
      ids := s.ids.recycle (s.id child)
      occupied := update s.occupied child false }

/-- The wait loop of `waitpid` (`reaps`) and `thread_join`: one look at the child, and a yield if
it has not exited. -/
def waitStep (s : State) (c t child : ℕ) (reaps : Bool) (now frame : ℕ) (r : Regs) : Option State :=
  if s.state child = .exited then
    let s := { s with waitFor := update s.waitFor t none }
    if reaps then reap s t child else some s
  else
    krustSchedYieldHandler
      { s with
        state := update s.state t .waiting
        waitFor := update s.waitFor t (some (child, reaps)) } c now frame r

/-- The loop over the children of a `waitpid` for any child. -/
def findExited (s : State) : ℕ → Option ℕ → Option (Option ℕ)
  | _, none => some none
  | 0, some _ => none
  | fuel + 1, some x =>
    if s.state x = .exited then some (some x) else findExited s fuel (s.family.siblingNext x)

/-- Which child a `waitpid` is about; `some none` when it returns at once. Any child is the first
exited one, or else the first. -/
def waitTarget (s : State) (t : ℕ) (pid : ℤ) : Option (Option ℕ) :=
  if 0 < pid then
    if s.ids.nextId ≤ pid.toNat then some none
    else if s.family.parent pid.toNat ≠ some t then some none
    else some (some pid.toNat)
  else if pid = -1 then
    (findExited s maxTasks (s.family.childHead t)).map fun x => x.or (s.family.childHead t)
  else some none

/-- `krust_sched_waitpid_flags`, up to its return or its first yield. -/
def krustSchedWaitpidFlags (s : State) (c : ℕ) (pid : ℤ) (wnohang : Bool) (now frame : ℕ) (r : Regs) :
    Option State :=
  match getCurrent s c with
  | none => some s
  | some t =>
    match waitTarget s t pid with
    | none => none
    | some none => some s
    | some (some child) =>
      if s.state child ≠ .exited ∧ wnohang = true then some s
      else waitStep s c t child true now frame r

def krustSchedThreadJoin (s : State) (c tid now frame : ℕ) (r : Regs) : Option State :=
  match getCurrent s c with
  | none => some s
  | some t =>
    if s.ids.nextId ≤ tid then some s
    else waitStep s c t tid false now frame r

/-- A task that yielded in a wait loop runs again: it marks itself `RUNNING` and looks again. -/
def waitResume (s : State) (c now frame : ℕ) (r : Regs) : Option State :=
  match getCurrent s c with
  | none => some s
  | some t =>
    match s.waitFor t with
    | none => some s
    | some (child, reaps) =>
      waitStep { s with state := update s.state t .running } c t child reaps now frame r

def krustSchedKill (s : State) (c : ℕ) (pid sig : ℤ) : State :=
  if sig < 0 ∨ nsig ≤ sig.toNat then s
  else if pid < 0 ∨ s.ids.nextId ≤ pid.toNat then s
  else
    let t := pid.toNat
    if s.state t = .exited then s
    else if ((getCurrent s c).any fun x => s.uid x != 0 && s.uid x != s.uid t) = true then s
    else if sig.toNat = sigkill then { s with state := update s.state t .exited }
    else { s with sig := update s.sig t ((s.sig t).raise sig.toNat) }

def oomScore (s : State) (t : ℕ) : ℤ :=
  if s.state t = .exited then -1
  else if s.id t = 0 then -1
  else
    let score := (s.pages t : ℤ) * 100 + (s.oomScoreAdj t + 1000)
    if s.uid t = 0 then score - 500 else score

/-- The loop over the task table: the first task with the highest score above -1. -/
def oomVictim (s : State) (c : ℕ) : Option ℕ :=
  ((List.range' 1 (s.ids.nextId - 1)).foldl (fun (best : Option ℕ × ℤ) t =>
    if getCurrent s c = some t then best
    else if best.2 < oomScore s t then (some t, oomScore s t) else best) (none, -1)).1

/-- `eager_cleanup_task`: the kernel stack of a task that runs on some CPU is kept. -/
def eagerCleanupTask (s : State) (t : ℕ) : State :=
  let running := (List.range 256).any fun c => s.cpu c = some t
  let s := if running then s
    else
      let s := releaseFrame s (s.res.kstack t)
      { s with res := { s.res with kstack := update s.res.kstack t none } }
  let s := releaseFrame s (s.res.fpuState t)
  let s := { s with res := { s.res with fpuState := update s.res.fpuState t none } }
  let s := setCr3 (releaseFrame s (s.res.cr3 t)) t none
  { s with pages := update s.pages t 0 }

def krustOomKill (s : State) (c : ℕ) : Option State :=
  match oomVictim s c with
  | none => some s
  | some v =>
    let s := { s with state := update s.state v .exited }
    (s.family.children v).map fun children =>
      eagerCleanupTask { s with family := (s.family.adopt children).dropChildren v } v

/-- A page fault that `vma_lazy_alloc` serves: all the scheduler sees is the page count. -/
def countPage (s : State) (c : ℕ) : State :=
  match getCurrent s c with
  | none => s
  | some t => { s with pages := update s.pages t (s.pages t + 1) }

inductive Op where
  | create (rsp : ℕ) (stack fpu : Bool)
  | createElf (rsp : ℕ) (stack fpu : Bool) (failure : Option Failure)
  | createInit (rsp : ℕ) (stack fpu : Bool) (failure : Option Failure)
  | createIdle (c : ℕ)
  | clone (c rsp : ℕ) (vm stack fpu space : Bool)
  | preempt (c now frame : ℕ) (r : Regs)
  | yield (c now frame : ℕ) (r : Regs)
  | sleep (c target now frame : ℕ) (r : Regs)
  | exit (c : ℕ)
  | waitpid (c : ℕ) (pid : ℤ) (wnohang : Bool) (now frame : ℕ) (r : Regs)
  | join (c tid now frame : ℕ) (r : Regs)
  | resume (c now frame : ℕ) (r : Regs)
  | kill (c : ℕ) (pid sig : ℤ)
  | signals (c : ℕ) (r : Regs)
  | oomKill (c : ℕ)
  | fault (c : ℕ)

/-- `signals` is the delivery at the start of every system call. `none`: the call never returns. -/
def Op.exec (s : State) : Op → Option State
  | .create rsp stack fpu => some (krustSchedCreate s rsp stack fpu)
  | .createElf rsp stack fpu failure => some (krustSchedCreateElf s rsp stack fpu failure)
  | .createInit rsp stack fpu failure => some (krustSchedCreateInit s rsp stack fpu failure)
  | .createIdle c => some (krustSchedCreateIdleForCpu s c)
  | .clone c rsp vm stack fpu space => some (krustSchedClone s c rsp vm stack fpu space)
  | .preempt c now frame r => krustSchedPreempt s c now frame r
  | .yield c now frame r => krustSchedYieldHandler s c now frame r
  | .sleep c target now frame r => krustSchedSleepTicks s c target now frame r
  | .exit c => krustSchedExit s c
  | .waitpid c pid wnohang now frame r => krustSchedWaitpidFlags s c pid wnohang now frame r
  | .join c tid now frame r => krustSchedThreadJoin s c tid now frame r
  | .resume c now frame r => waitResume s c now frame r
  | .kill c pid sig => some (krustSchedKill s c pid sig)
  | .signals c r => some (deliver s c r)
  | .oomKill c => krustOomKill s c
  | .fault c => some (countPage s c)

/-- The static task table after `krust_sched_init` on CPU 0. -/
def boot : State where
  queues := ⟨fun _ => none, none, none, none, 0⟩
  family := ⟨fun _ => none, fun _ => none, fun _ => none, fun _ => none⟩
  ids := ⟨1, []⟩
  res := ⟨fun _ => none, fun _ => none, fun _ => none, 1, []⟩
  cpu := update (fun _ => none) 0 (some 0)
  halted := fun _ => false
  id := fun _ => 0
  state := update (fun _ => .ready) 0 .running
  sleepUntil := fun _ => 0
  rsp := fun _ => 0
  sig := fun _ => Sig.new
  uid := fun _ => 0
  pages := fun _ => 0
  oomScoreAdj := fun _ => 0
  waitFor := fun _ => none
  occupied := update (fun _ => false) 0 true

/-- The states reached from the boot state by steps that meet a condition. -/
inductive Reached (ok : State → Op → Prop) : State → Prop
  | start : Reached ok boot
  | step {s s' : State} (op : Op) : Reached ok s → ok s op → op.exec s = some s' → Reached ok s'

lemma Reached.invariant {ok : State → Op → Prop} {P : State → Prop} (hb : P boot)
    (hst : ∀ {s s' : State} {op : Op}, P s → ok s op → op.exec s = some s' → P s') {s : State}
    (h : Reached ok s) : P s := by
  induction h with
  | start => exact hb
  | step op _ hok hs ih => exact hst ih hok hs

/-- The parts of the state a step leaves alone when it only sets up or ends a task. -/
structure SameQueues (s s' : State) : Prop where
  queues : s'.queues = s.queues
  cpu : s'.cpu = s.cpu

lemma SameQueues.refl (s : State) : SameQueues s s := ⟨rfl, rfl⟩

lemma SameQueues.trans {s1 s2 s3 : State} (h : SameQueues s1 s2) (h' : SameQueues s2 s3) :
    SameQueues s1 s3 :=
  ⟨h'.queues.trans h.queues, h'.cpu.trans h.cpu⟩

lemma allocTaskId_queues (s : State) : SameQueues s (allocTaskId s).1 := by
  unfold allocTaskId
  split
  · dsimp only
    split <;> exact ⟨rfl, rfl⟩
  · exact ⟨rfl, rfl⟩

lemma newTask_queues (s : State) (parent : Option ℕ) (stack fpu : Bool) :
    SameQueues s (newTask s parent stack fpu).1 := by
  have h := allocTaskId_queues s
  unfold newTask
  split
  · rename_i s' hs
    rw [hs] at h
    exact h
  rename_i s' t hs
  rw [hs] at h
  split
  · exact h
  · exact h.trans ⟨rfl, rfl⟩

lemma newTask_slot {s s' : State} {parent : Option ℕ} {stack fpu : Bool} {t k : ℕ}
    (h : newTask s parent stack fpu = (s', some (t, k))) : (allocTaskId s).2 = some t := by
  unfold newTask at h
  split at h
  · simp at h
  rename_i s1 t1 hs
  rw [hs]
  split at h
  · simp at h
  simp only [Prod.mk.injEq, Option.some.injEq] at h
  rw [h.2.1]

lemma deliver_queues (s : State) (c : ℕ) (r : Regs) : SameQueues s (deliver s c r) := by
  unfold deliver
  split
  · exact .refl s
  dsimp only
  split <;> exact ⟨rfl, rfl⟩

lemma eagerCleanupTask_queues (s : State) (t : ℕ) : SameQueues s (eagerCleanupTask s t) := by
  unfold eagerCleanupTask
  dsimp only
  split <;> exact ⟨rfl, rfl⟩

lemma getCurrent_cpu {s : State} {c t : ℕ} (h : getCurrent s c = some t) : s.cpu c = some t := by
  unfold getCurrent at h
  split at h
  · simp at h
  · exact h

lemma sleepWakeAll_empty {s : State} (h : s.queues.sleepHead = none) (now : ℕ) :
    sleepWakeAll s now = some s := by
  unfold sleepWakeAll
  rw [h, wakeLoop]

end Elitra.Sched
