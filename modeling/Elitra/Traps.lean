import Elitra.ByteMem
import Elitra.SchedSignals

namespace Elitra.Traps
open ByteMem Function Option Sched Signals

def writeWords (m : Mem) (a : ℕ) : List ℕ → Mem
  | [] => m
  | w :: ws => writeWords (writeLE m a w 8) (a + 8) ws

def entryFrame (g : Sig) (r : Regs) : Regs :=
  match (deliverSignals g r).2 with
  | .enters sig => enterHandler g r sig
  | _ => r

def entryMem (g : Sig) (r : Regs) (m : Mem) : Mem :=
  match (deliverSignals g r).2 with
  | .enters sig => writeWords m (newUsp r) (sigframe r sig)
  | _ => m

def krustSchedSigreturn (g : Sig) (r : Regs) (m : Mem) : Sig × Regs :=
  let w := fun i => readLE m (r.userRsp + 8 * i) 8
  if w 1 < 0x1000 ∨ 0x00007FFFFFFFFFFF < w 1 then (g, r)
  else if w 2 ≠ 0x23 ∧ w 2 ≠ 0x1B then (g, r)
  else if w 5 ≠ 0x2B ∧ w 5 ≠ 0x23 then (g, r)
  else if w 4 < 0x1000 ∨ 0x00007FFFFFFFFFFF < w 4 then (g, r)
  else
    (if 0 < w 0 ∧ w 0 < nsig then g.clear (w 0) else g,
      { r with
        rip := w 1
        cs := w 2
        rflags := w 3 &&& 0xFFFFFFFFFFFFFCFF
        userRsp := w 4
        ss := w 5
        rax := w 0 })

/-- `krust_sched_sigaction`, without the old handler it writes back. -/
def krustSchedSigaction (g : Sig) (sig : ℤ) (handler : ℕ) : Sig :=
  if sig < 0 ∨ nsig ≤ sig.toNat then g
  else if sig.toNat = sigkill then g
  else if handler ≠ 0 ∧ handler ≠ 1 ∧ (0x00007FFFFFFFFFFF < handler ∨ handler < 0x1000) then g
  else { g with handler := update g.handler sig.toNat handler }

/-- How an `execve` ends: before anything was changed, after the old pages were freed, or with the
new program's entry, stack pointer and kernel frame. -/
inductive Exec where
  | early
  | late
  | done (entry rsp frame : ℕ)
  deriving DecidableEq, Repr

def ustackPages : ℕ := 16

/-- The signal state of a task after a successful `execve`. -/
def execSig (g : Sig) : Sig :=
  { g with
    pending := fun _ => false
    handler := fun i => if i < nsig ∧ g.handler i ≠ 1 then 0 else g.handler i }

def krustSchedExecve (s : State) (t : ℕ) : Exec → State
  | .early => s
  | .late => releaseFrame s (s.res.cr3 t)
  | .done _ _ frame =>
    let p := takeSpace (releaseFrame s (s.res.cr3 t))
    let s := setCr3 (setRsp p.1 t frame) t (some p.2)
    { s with
      pages := update s.pages t ustackPages
      sig := update s.sig t (execSig (s.sig t)) }

def execFrame (r : Regs) : Exec → Regs
  | .done entry rsp _ =>
    { r with rip := entry, userRsp := rsp, rax := 0, cs := 0x1B, ss := 0x23, rflags := 0x202 }
  | _ => r

/-- The system calls, as far as signals and the scheduler see them. `k` is the frame `yield_task`
builds on the kernel stack. -/
inductive Call where
  | sigreturn
  | sigaction (sig : ℤ) (handler : ℕ)
  | execve (result : Exec)
  | kill (pid sig : ℤ)
  | exit
  | clone (rsp ustack : ℕ) (vm stack fpu space : Bool)
  | waitpid (pid : ℤ) (wnohang : Bool) (now frame : ℕ) (k : Regs)
  | join (tid now frame : ℕ) (k : Regs)
  | sleep (target now frame : ℕ) (k : Regs)
  | yield (now frame : ℕ) (k : Regs)
  | other

/-- The scheduler and, for each task, the frame with which it goes back to user mode. -/
structure Machine where
  sched : State
  user : ℕ → Regs

/-- The calls that only the scheduler serves. -/
def Call.op (c : ℕ) : Call → Option Op
  | .kill pid sig => some (.kill c pid sig)
  | .exit => some (.exit c)
  | .clone rsp _ vm stack fpu space => some (.clone c rsp vm stack fpu space)
  | .waitpid pid wnohang now frame k => some (.waitpid c pid wnohang now frame k)
  | .join tid now frame k => some (.join c tid now frame k)
  | .sleep target now frame k => some (.sleep c target now frame k)
  | .yield now frame k => some (.yield c now frame k)
  | _ => none

/-- What follows the delivery in `syscall_handler_c`. The state, the frame `r` and the memory are
those after it. -/
def Call.exec (s : State) (c t : ℕ) (user : ℕ → Regs) (r : Regs) (m : Mem) : Call → Option Machine
  | .sigreturn =>
    let p := krustSchedSigreturn (s.sig t) r m
    some ⟨{ s with sig := update s.sig t p.1 }, update user t p.2⟩
  | .sigaction sig handler =>
    some ⟨{ s with sig := update s.sig t (krustSchedSigaction (s.sig t) sig handler) },
      update user t r⟩
  | .execve result => some ⟨krustSchedExecve s t result, update user t (execFrame r result)⟩
  | .clone rsp ustack vm stack fpu space =>
    -- The kernel stack is copied, so the child goes back to user mode as its parent does.
    let user := update user t r
    let child := { r with rax := 0, userRsp := if ustack = 0 then r.userRsp else ustack }
    some ⟨krustSchedClone s c rsp vm stack fpu space,
      (allocTaskId s).2.elim user fun u => update user u child⟩
  | call =>
    match call.op c with
    | none => some ⟨s, update user t r⟩
    | some op => (op.exec s).map fun s => ⟨s, update user t r⟩

/-- What can happen: the task on CPU `c` makes a system call or is interrupted by the timer in user
mode, with frame `r` and, at a system call, user memory `m`; or the kernel does a step of its own. -/
inductive Event where
  | syscall (c : ℕ) (r : Regs) (m : Mem) (call : Call)
  | preempt (c now frame : ℕ) (r : Regs)
  | kernel (op : Op)

def Event.exec (m : Machine) : Event → Option Machine
  | .syscall c r mem call =>
    match getCurrent m.sched c with
    | none => none
    | some t =>
      call.exec (deliver m.sched c r) c t m.user (entryFrame (m.sched.sig t) r)
        (entryMem (m.sched.sig t) r mem)
  | .preempt c now frame r =>
    match getCurrent m.sched c with
    | none => none
    | some t => (krustSchedPreempt m.sched c now frame r).map fun s =>
      ⟨s, update m.user t (entryFrame (m.sched.sig t) r)⟩
  | .kernel op => (op.exec m.sched).map fun s => ⟨s, m.user⟩

/-- The machine after boot; no task has been in user mode. -/
def start : Machine := ⟨boot, fun _ => ⟨0, 0, 0, 0, 0, 0, 0⟩⟩

inductive Reached (ok : Machine → Event → Prop) : Machine → Prop
  | start : Reached ok start
  | step {m m' : Machine} (e : Event) : Reached ok m → ok m e → e.exec m = some m' → Reached ok m'

def Event.runs (m : Machine) (t : ℕ) : Event → Prop
  | .syscall c .. => getCurrent m.sched c = some t
  | .preempt c .. => getCurrent m.sched c = some t
  | .kernel _ => False

def Event.makes (m : Machine) (t : ℕ) : Event → Prop
  | .syscall c r _ (.clone ..) => (allocTaskId (deliver m.sched c r)).2 = some t
  | _ => False

/-- Runs in which task `t` is not in user mode and its slot is not given away. -/
inductive Later (t : ℕ) : Machine → Machine → Prop
  | refl (m : Machine) : Later t m m
  | step {m m' m'' : Machine} (e : Event) : Later t m m' → ¬ e.runs m' t → ¬ e.makes m' t →
      e.exec m' = some m'' → Later t m m''

/-- A handled signal is pending for a task that has not exited. -/
def Waiting (m : Machine) (t sig : ℕ) : Prop :=
  m.sched.state t ≠ .exited ∧ Handled (m.sched.sig t) sig

/-- The task goes back to user mode at the handler of the signal. -/
structure Redirected (m m' : Machine) (t sig : ℕ) : Prop where
  rip : (m'.user t).rip = (m.sched.sig t).handler sig
  alive : m'.sched.state t ≠ .exited
  stays : ∀ m'', Later t m' m'' → m''.user t = m'.user t

/-- The calls after which the caller does not go straight back to user mode with its frame. -/
def Call.leaves (t : ℕ) : Call → Prop
  | .sigreturn | .exit | .join .. | .sleep .. | .yield .. => True
  | .execve result => ∃ entry rsp frame, result = .done entry rsp frame
  | .waitpid _ wnohang .. => wnohang = false
  | .kill pid sig => pid.toNat = t ∧ sig.toNat = sigkill
  | _ => False

/-- The condition under which handled signals are not lost. -/
def SignalSafe (m : Machine) : Event → Prop
  | .syscall c r mem call => ∀ t, getCurrent m.sched c = some t →
      (call.leaves t → ∀ sig, ¬ Handled (m.sched.sig t) sig) ∧
      ¬ Event.makes m t (.syscall c r mem call)
  | .preempt .. => True
  | .kernel (.preempt c _ _ _) | .kernel (.yield c _ _ _) | .kernel (.sleep c _ _ _ _)
  | .kernel (.waitpid c _ _ _ _ _) | .kernel (.join c _ _ _ _) | .kernel (.resume c _ _ _)
  | .kernel (.signals c _) => ∀ t sig, getCurrent m.sched c = some t → ¬ Handled (m.sched.sig t) sig
  | .kernel _ => True

section Steps

variable {m m' : Machine} {s : State} {c t u sig : ℕ} {r : Regs}

/-- No signal is raised for an id that was not handed out. -/
def FreshQuiet (s : State) : Prop :=
  ∀ u sig, (s.sig u).pending sig = true → u < s.ids.nextId

lemma FreshQuiet.step {s s' : State} {lost : ℕ → Prop} (h : FreshQuiet s)
    (hs : SigStep s s' lost) : FreshQuiet s' := by
  intro u sig hp
  rcases hs.low u sig hp with hp | hlt
  · exact (h u sig hp).trans_le hs.next
  · exact hlt

lemma Waiting.lt (h : Waiting m t sig) (hq : FreshQuiet m.sched) : t < m.sched.ids.nextId :=
  hq t sig h.2.pending

lemma not_handed_out (hs : s.state u ≠ .exited) (hlt : u < s.ids.nextId) :
    (allocTaskId s).2 ≠ some u := by
  intro hsl
  rcases allocTaskId_slot hsl with he | hge
  · exact hs he
  · omega

lemma deliver_current (s : State) (c c' : ℕ) (r : Regs) :
    getCurrent (deliver s c r) c' = getCurrent s c' := by
  have hs : (deliver s c r).cpu = s.cpu ∧ (deliver s c r).halted = s.halted := by
    unfold deliver
    split
    · exact ⟨rfl, rfl⟩
    dsimp only
    split <;> exact ⟨rfl, rfl⟩
  exact getCurrent_congr hs.1 hs.2 c'

lemma deliver_state_of_ne (ht : getCurrent s c = some t) (hne : u ≠ t) (r : Regs) :
    (deliver s c r).state u = s.state u := by
  unfold deliver
  rw [ht]
  dsimp only
  split
  · exact update_of_ne hne _ _
  · rfl

lemma deliver_handled (ht : getCurrent s c = some t) (h : Handled (s.sig t) sig) (r : Regs) :
    ((deliver s c r).sig t).pending sig = true ∨
      (entryFrame (s.sig t) r).rip = (s.sig t).handler sig ∧
        (deliver s c r).state t = s.state t := by
  have hsig : (deliver s c r).sig t = (deliverSignals (s.sig t) r).1 := by
    unfold deliver
    rw [ht]
    dsimp only
    split <;> exact update_self ..
  rw [hsig]
  rcases deliverLoop_kept (r := r) (l := List.range' 1 (nsig - 1)) h with hp | he
  · exact .inl hp
  have hd : (deliverSignals (s.sig t) r).2 = .enters sig := he
  refine .inr ⟨?_, ?_⟩
  · unfold entryFrame
    rw [hd]
    rfl
  unfold deliver
  rw [ht]
  dsimp only
  rw [hd]

lemma sigaction_pending (g : Sig) (x : ℤ) (handler sig : ℕ) :
    (krustSchedSigaction g x handler).pending sig = g.pending sig := by
  unfold krustSchedSigaction
  split_ifs <;> rfl

variable {mem : Mem}

lemma sigreturn_pending {g : Sig}
    (h : ((krustSchedSigreturn g r mem).1).pending sig = true) : g.pending sig = true := by
  unfold krustSchedSigreturn at h
  dsimp only at h
  split_ifs at h
  · exact h
  · exact h
  · exact h
  · exact h
  · exact pending_of_clear h
  · exact h

lemma sigStep_update {g : Sig} (hg : ∀ sig, g.pending sig = true → (s.sig t).pending sig = true) :
    SigStep s { s with sig := update s.sig t g } (· = t) :=
  .of_update rfl rfl rfl hg

lemma execve_sig (s : State) (t : ℕ) (result : Exec) :
    SigStep s (krustSchedExecve s t result) (· = t) := by
  cases result with
  | early => exact .of_eq rfl rfl
  | late =>
    unfold krustSchedExecve releaseFrame
    exact .of_eq rfl rfl
  | done entry rsp frame => exact .of_update rfl rfl rfl nofun

variable {call : Call}

/-- The part of a system call after the delivery loses no signal of another task that is alive. -/
lemma Call.sigStep {user : ℕ → Regs} (ht : getCurrent s c = some t)
    (h : call.exec s c t user r mem = some m') :
    SigStep s m'.sched fun u => u = t ∨ (allocTaskId s).2 = some u := by
  have hc : ∀ u, getCurrent s c = some u → u = t ∨ (allocTaskId s).2 = some u := by
    intro u hu
    rw [ht] at hu
    exact .inl (some.inj hu).symm
  cases call with
  | sigreturn =>
    cases h
    exact (sigStep_update fun sig hp => sigreturn_pending hp).mono fun u hu => .inl hu
  | sigaction x handler =>
    cases h
    refine (sigStep_update fun sig hp => ?_).mono fun u hu => .inl hu
    rwa [sigaction_pending] at hp
  | execve result =>
    cases h
    exact (execve_sig s t result).mono fun u hu => .inl hu
  | kill pid x =>
    cases h
    exact kill_sig s c pid x _
  | exit =>
    obtain ⟨s', hs, rfl⟩ := map_eq_some_iff.mp h
    exact .of_eq (exit_sig hs).1 (exit_sig hs).2
  | clone rsp ustack vm stack fpu space =>
    cases h
    exact (clone_sig s c rsp vm stack fpu space).1.mono fun u hu => .inr hu
  | waitpid pid wnohang now frame k =>
    obtain ⟨s', hs, rfl⟩ := map_eq_some_iff.mp h
    exact (waitpid_sig hs).mono fun u hu => hc u hu.2
  | join tid now frame k =>
    obtain ⟨s', hs, rfl⟩ := map_eq_some_iff.mp h
    exact (join_sig hs).mono hc
  | sleep target now frame k =>
    obtain ⟨s', hs, rfl⟩ := map_eq_some_iff.mp h
    exact (sleep_sig hs).mono hc
  | yield now frame k =>
    obtain ⟨s', hs, rfl⟩ := map_eq_some_iff.mp h
    exact (yield_sig hs).mono hc
  | other =>
    cases h
    exact .of_eq rfl rfl

lemma kill_state (s : State) (c : ℕ) {pid x : ℤ} (h : ¬ (pid.toNat = t ∧ x.toNat = sigkill)) :
    (krustSchedKill s c pid x).state t = s.state t := by
  unfold krustSchedKill
  dsimp only
  split_ifs with h1 h2 h3 h4 h5
  · rfl
  · rfl
  · rfl
  · rfl
  · exact update_of_ne (fun heq => h ⟨heq.symm, h5⟩) _ _
  · rfl

/-- What a call that goes straight back to user mode keeps of the caller. -/
structure Kept (s : State) (r : Regs) (t : ℕ) (m' : Machine) : Prop where
  user : m'.user t = r
  state : m'.sched.state t = s.state t
  pending : ∀ sig, (s.sig t).pending sig = true → (m'.sched.sig t).pending sig = true

lemma Call.kept {user : ℕ → Regs} (hl : ¬ call.leaves t)
    (hsl : (∃ a b c d e f, call = .clone a b c d e f) → (allocTaskId s).2 ≠ some t)
    (h : call.exec s c t user r mem = some m') : Kept s r t m' := by
  have hse : update user t r t = r := update_self ..
  cases call with
  | sigreturn => exact absurd trivial hl
  | sigaction x handler =>
    cases h
    refine ⟨hse, rfl, fun sig hp => ?_⟩
    dsimp only
    rw [update_self, sigaction_pending]
    exact hp
  | execve result =>
    cases h
    cases result with
    | early => exact ⟨hse, rfl, fun sig hp => hp⟩
    | late => exact ⟨hse, rfl, fun sig hp => hp⟩
    | done entry rsp frame => exact absurd ⟨entry, rsp, frame, rfl⟩ hl
  | kill pid x =>
    cases h
    exact ⟨hse, kill_state s c hl, fun sig hp =>
      (kill_sig s c pid x fun _ => False).kept t sig id hp⟩
  | exit => exact absurd trivial hl
  | clone rsp ustack vm stack fpu space =>
    cases h
    have hne := hsl ⟨_, _, _, _, _, _, rfl⟩
    obtain ⟨hsig, hst⟩ := clone_sig s c rsp vm stack fpu space
    refine ⟨?_, hst t hne, fun sig hp => hsig.kept t sig hne hp⟩
    cases hc : (allocTaskId s).2 with
    | none => exact hse
    | some v =>
      rw [hc] at hne
      dsimp only [Option.elim]
      rw [update_of_ne fun heq : t = v => hne (by rw [heq])]
      exact hse
  | waitpid pid wnohang now frame k =>
    obtain ⟨s', hs, rfl⟩ := Option.map_eq_some_iff.mp h
    have hf : wnohang = true := by
      cases wnohang
      · exact absurd rfl hl
      · rfl
    subst hf
    obtain ⟨hsig, -, hst⟩ := waitpid_wnohang hs
    exact ⟨hse, by rw [hst], fun sig hp => by rw [hsig]; exact hp⟩
  | join tid now frame k => exact absurd trivial hl
  | sleep target now frame k => exact absurd trivial hl
  | yield now frame k => exact absurd trivial hl
  | other =>
    cases h
    exact ⟨hse, rfl, fun sig hp => hp⟩

lemma syscall_exec
    (h : (Event.syscall c r mem call).exec m = some m') : ∃ t, getCurrent m.sched c = some t ∧
      call.exec (deliver m.sched c r) c t m.user (entryFrame (m.sched.sig t) r)
        (entryMem (m.sched.sig t) r mem) = some m' := by
  rw [Event.exec] at h
  cases hc : getCurrent m.sched c with
  | none =>
    rw [hc] at h
    cases h
  | some t =>
    rw [hc] at h
    exact ⟨t, rfl, h⟩

lemma preempt_exec {now frame : ℕ} (h : (Event.preempt c now frame r).exec m = some m') :
    ∃ t, getCurrent m.sched c = some t ∧
      krustSchedPreempt m.sched c now frame r = some m'.sched ∧
      m'.user = update m.user t (entryFrame (m.sched.sig t) r) := by
  rw [Event.exec] at h
  cases hc : getCurrent m.sched c with
  | none =>
    rw [hc] at h
    cases h
  | some t =>
    rw [hc] at h
    obtain ⟨s', hs, rfl⟩ := map_eq_some_iff.mp h
    exact ⟨t, rfl, hs, rfl⟩

lemma Event.user_eq {e : Event} (hr : ¬ e.runs m t) (hm : ¬ e.makes m t)
    (h : e.exec m = some m') : m'.user t = m.user t := by
  cases e with
  | syscall c r mem call =>
    obtain ⟨v, hc, h⟩ := syscall_exec h
    have hne : t ≠ v := fun heq => hr (by rw [heq]; exact hc)
    have hu : ∀ x, update m.user v x t = m.user t :=
      fun x => update_of_ne hne _ _
    cases call with
    | sigreturn => cases h; exact hu _
    | sigaction x handler => cases h; exact hu _
    | execve result => cases h; exact hu _
    | clone rsp ustack vm stack fpu space =>
      cases h
      have hsl : (allocTaskId (deliver m.sched c r)).2 ≠ some t := hm
      cases hch : (allocTaskId (deliver m.sched c r)).2 with
      | none => exact hu _
      | some w =>
        rw [hch] at hsl
        dsimp only [Option.elim]
        rw [update_of_ne fun heq : t = w => hsl (by rw [heq])]
        exact hu _
    | kill pid x => cases h; exact hu _
    | other => cases h; exact hu _
    | _ =>
      obtain ⟨s', hs, rfl⟩ := Option.map_eq_some_iff.mp h
      exact hu _
  | preempt c now frame r =>
    obtain ⟨v, hc, -, hus⟩ := preempt_exec h
    rw [hus]
    exact update_of_ne (fun heq => hr (by rw [heq]; exact hc)) _ _
  | kernel op =>
    obtain ⟨s', hs, rfl⟩ := Option.map_eq_some_iff.mp h
    rfl

lemma Later.user_eq {m m'' : Machine} (h : Later t m m'') : m''.user t = m.user t := by
  induction h with
  | refl => rfl
  | step e _ hr hm hs ih => rw [Event.user_eq hr hm hs, ih]

lemma Event.sigStep {e : Event} (h : e.exec m = some m') :
    ∃ lost, SigStep m.sched m'.sched lost := by
  cases e with
  | syscall c r mem call =>
    obtain ⟨t, hc, h⟩ := syscall_exec h
    rw [← deliver_current m.sched c c r] at hc
    have hca := call.sigStep hc h
    exact ⟨fun _ => True, ((deliver_sig m.sched c r).mono fun _ _ => trivial).trans
      (hca.mono fun _ _ => trivial)⟩
  | preempt c now frame r =>
    obtain ⟨t, hc, hs, -⟩ := preempt_exec h
    exact ⟨_, preempt_sig hs⟩
  | kernel op =>
    obtain ⟨s', hs, rfl⟩ := map_eq_some_iff.mp h
    exact ⟨_, Op.sigStep hs⟩

lemma Reached.quiet {ok : Machine → Event → Prop} (h : Reached ok m) : FreshQuiet m.sched := by
  induction h with
  | start =>
    intro u sig hp
    cases hp
  | step e _ _ hs ih =>
    obtain ⟨lost, hst⟩ := Event.sigStep hs
    exact ih.step hst

lemma kernel_kept {op : Op} (hq : FreshQuiet m.sched) (hs : SignalSafe m (.kernel op))
    (hw : Waiting m t sig) : ¬ op.loses m.sched t := by
  have hsl := not_handed_out hw.1 (hw.lt hq)
  cases op with
  | create | createElf | createInit | createIdle | clone => exact hsl
  | preempt c | yield c | sleep c | join c | resume c | signals c =>
    exact fun hc => hs t sig hc hw.2
  | waitpid c => exact fun hc => hs t sig hc.2 hw.2
  | exit | kill | oomKill | fault => exact id

lemma wakeLoop_alive {now fuel : ℕ} {prev curr : Option ℕ} {s s' : State}
    (h : wakeLoop now fuel prev curr s = some s') (hu : s.state u ≠ .exited) :
    s'.state u ≠ .exited := by
  induction fuel generalizing prev curr s with
  | zero =>
    cases curr with
    | none => cases h; exact hu
    | some t => cases h
  | succ fuel ih =>
    cases curr with
    | none => cases h; exact hu
    | some t =>
      rw [wakeLoop] at h
      split at h
      · apply ih h
        change update s.state t .ready u ≠ .exited
        by_cases hut : u = t
        · rw [hut, update_self]
          decide
        · rwa [update_of_ne hut]
      · exact ih h hu

lemma resumeTask_alive (s : State) (c : ℕ) {v : ℕ} (hu : s.state u ≠ .exited) :
    (resumeTask s c v).state u ≠ .exited := by
  unfold resumeTask
  dsimp only
  by_cases huv : u = v
  · rw [huv, update_self]
    decide
  · rwa [update_of_ne huv]

lemma switchAway_alive {prev frame : ℕ} {idle : Bool} (hu : s.state u ≠ .exited) :
    (switchAway s c prev frame idle).state u ≠ .exited := by
  unfold switchAway
  dsimp only
  split
  · split
    · exact hu
    · exact resumeTask_alive _ _ hu
  have hr : update s.state prev .ready u ≠ .exited := by
    by_cases hup : u = prev
    · rw [hup, update_self]
      decide
    · rwa [update_of_ne hup]
  split
  · exact resumeTask_alive _ _ hr
  · exact resumeTask_alive _ _ hr

/-- At a preemption in user mode a handled signal stays pending or the frame goes to its handler. -/
lemma preempt_handled {now frame : ℕ} {s' : State} (ht : getCurrent s c = some t)
    (hst : s.state t ≠ .exited) (hh : Handled (s.sig t) sig)
    (h : krustSchedPreempt s c now frame r = some s') : (s'.sig t).pending sig = true ∨
      (entryFrame (s.sig t) r).rip = (s.sig t).handler sig ∧ s'.state t ≠ .exited := by
  unfold krustSchedPreempt at h
  rw [ht] at h
  obtain ⟨s1, hs1, rfl⟩ := map_eq_some_iff.mp h
  obtain ⟨hsig, hcpu, hha⟩ := wakeLoop_sig hs1
  have ha := wakeLoop_alive hs1 hst
  rw [← getCurrent_congr hcpu hha] at ht
  rw [← hsig] at hh ⊢
  dsimp only
  rw [switchAway_sig]
  rcases deliver_handled ht hh r with hp | ⟨hrip, hsa⟩
  · exact .inl hp
  refine .inr ⟨hrip, switchAway_alive ?_⟩
  rw [hsa]
  exact ha

/-- At a system call a handled signal of any task stays pending, or it is the caller's and the
caller goes back to user mode at the handler. -/
lemma syscall_handled (hq : FreshQuiet m.sched)
    (hsa : SignalSafe m (.syscall c r mem call)) (hw : Waiting m t sig)
    (h : (Event.syscall c r mem call).exec m = some m') : (m'.sched.sig t).pending sig = true ∨
      (m'.user t).rip = (m.sched.sig t).handler sig ∧ m'.sched.state t ≠ .exited := by
  obtain ⟨v, hc, h⟩ := syscall_exec h
  obtain ⟨hle, hm⟩ := hsa v hc
  by_cases htv : t = v
  · subst htv
    have hk : Kept (deliver m.sched c r) (entryFrame (m.sched.sig t) r) t m' := by
      apply Call.kept (fun hl => hle hl sig hw.2) _ h
      rintro ⟨_, _, _, _, _, _, rfl⟩
      exact hm
    rcases deliver_handled hc hw.2 r with hp | ⟨hrip, hsm⟩
    · exact .inl (hk.pending sig hp)
    refine .inr ⟨?_, ?_⟩
    · rw [hk.user]
      exact hrip
    rw [hk.state, hsm]
    exact hw.1
  -- Another task's signal: neither the delivery nor the call touches it.
  have hs := deliver_state_of_ne hc htv r
  have hpe := (deliver_sig m.sched c r).kept t sig
    (fun ht => htv (some.inj (ht.symm.trans hc))) hw.2.pending
  have hids : (deliver m.sched c r).ids = m.sched.ids := (deliver_life m.sched c r).ids
  have hsl : (allocTaskId (deliver m.sched c r)).2 ≠ some t := by
    apply not_handed_out
    · rw [hs]
      exact hw.1
    rw [hids]
    exact hw.lt hq
  rw [← deliver_current m.sched c c r] at hc
  exact .inl ((call.sigStep hc h).kept t sig (fun hl => hl.elim htv hsl) hpe)

end Steps

/-- In every run in which no task makes a system call that leaves its frame behind (`sigreturn`,
`execve`, `exit`, a blocking wait) while a handled signal is pending for it, and none is delivered
to a kernel frame, a handled signal leaves the pending set only when its task goes back to user mode
at the handler. -/
theorem handled_signal_redirects {m m' : Machine} (h : Reached SignalSafe m) {e : Event}
    (hsafe : SignalSafe m e) (hs : e.exec m = some m') {t sig : ℕ} (hw : Waiting m t sig)
    (hgone : (m'.sched.sig t).pending sig = false) : Redirected m m' t sig := by
  have hq := h.quiet
  have hnot : (m'.sched.sig t).pending sig ≠ true := by
    rw [hgone]
    decide
  cases e with
  | syscall c r mem call =>
    obtain ⟨hrip, hst⟩ := (syscall_handled hq hsafe hw hs).resolve_left hnot
    exact ⟨hrip, hst, fun m'' hl => hl.user_eq⟩
  | preempt c now frame r =>
    obtain ⟨v, hc, hp, hu⟩ := preempt_exec hs
    by_cases htv : t = v
    · subst htv
      obtain ⟨hrip, hst⟩ := (preempt_handled hc hw.1 hw.2 hp).resolve_left hnot
      refine ⟨?_, hst, fun m'' hl => hl.user_eq⟩
      rw [hu, update_self]
      exact hrip
    have hk := (preempt_sig hp).kept t sig
      (fun ht => htv (some.inj (ht.symm.trans hc))) hw.2.pending
    exact absurd hk hnot
  | kernel op =>
    obtain ⟨s', hop, rfl⟩ := map_eq_some_iff.mp hs
    exact absurd ((Op.sigStep hop).kept t sig (kernel_kept hq hsafe hw) hw.2.pending) hnot

theorem handled_signal_redirects_getpid : ∃ m m', Reached SignalSafe m ∧ Waiting m 1 10 ∧
    Redirected m m' 1 10 := by
  have h1 : Reached SignalSafe _ :=
    .step (.kernel (.createElf 0x2000 true true none)) .start trivial rfl
  have h2 := h1.step (.kernel (.preempt 0 0 0x1000 ⟨0, 8, 0, 0, 0, 0, 0⟩)) (fun t sig ht hh => by
      obtain rfl : 0 = t := some.inj ht
      have hf : false = true := hh.pending
      cases hf) rfl
  have h3 : Reached SignalSafe _ :=
    .step (.syscall 0 ⟨0x401000, 0x1B, 0x202, 0x70000000, 0x23, 33, 0⟩ (fun _ => 0)
      (.sigaction 10 0x5000)) h2 (fun t _ => ⟨fun hl => hl.elim, id⟩) rfl
  have h4 : Reached SignalSafe _ :=
    .step (.syscall 0 ⟨0x401000, 0x1B, 0x202, 0x70000000, 0x23, 32, 0⟩ (fun _ => 0)
      (.kill 1 10)) h3 (fun t _ => ⟨fun hl => absurd hl.2 (by decide), id⟩) rfl
  have hg : ∀ m, Reached SignalSafe m → Waiting m 1 10 → (∃ m' : Machine, (Event.syscall 0
      ⟨0x401000, 0x1B, 0x202, 0x70000000, 0x23, 31, 0⟩ (fun _ => 0) .other).exec m = some m' ∧
        (m'.sched.sig 1).pending 10 = false) →
      ∃ m m', Reached SignalSafe m ∧ Waiting m 1 10 ∧ Redirected m m' 1 10 :=
    fun m h hw ⟨m', hs, hgo⟩ => ⟨m, m', h, hw,
      handled_signal_redirects (e := .syscall 0 _ _ .other) h
        (fun t _ => ⟨fun hl => hl.elim, id⟩) hs hw hgo⟩
  refine hg _ h4 ⟨?_, ?_⟩ ⟨_, rfl, ?_⟩
  · decide
  · exact ⟨by decide, by decide, rfl, rfl, by decide⟩
  · decide +kernel

/-- The signal is delivered at the entry of a `sigreturn`, which then undoes the delivery. -/
theorem sigreturn_discards_signal : ∃ (m m' : Machine) (e : Event), Reached (fun _ _ => True) m ∧
    e.exec m = some m' ∧ Waiting m 1 10 ∧ (m'.sched.sig 1).pending 10 = false ∧ ¬ Redirected m m' 1 10 := by
  have h1 : Reached (fun _ _ => True) _ :=
    .step (.kernel (.createElf 0x2000 true true none)) .start trivial rfl
  have h2 := h1.step (.kernel (.preempt 0 0 0x1000 ⟨0, 8, 0, 0, 0, 0, 0⟩)) trivial rfl
  have h3 : Reached (fun _ _ => True) _ :=
    .step (.syscall 0 ⟨0x401000, 0x1B, 0x202, 0x70000000, 0x23, 33, 0⟩ (fun _ => 0)
      (.sigaction 10 0x5000)) h2 trivial rfl
  have h4 : Reached (fun _ _ => True) _ :=
    .step (.syscall 0 ⟨0x401000, 0x1B, 0x202, 0x70000000, 0x23, 32, 0⟩ (fun _ => 0)
      (.kill 1 10)) h3 trivial rfl
  refine ⟨_, _, .syscall 0 ⟨0x401000, 0x1B, 0x202, 0x70000000, 0x23, 34, 0⟩ (fun _ => 0) .sigreturn,
    h4, rfl, ⟨?_, ?_⟩, ?_, fun hred => ?_⟩
  · decide
  · exact ⟨by decide, by decide, rfl, rfl, by decide⟩
  · decide +kernel
  · exact absurd hred.rip (by decide +kernel)

end Elitra.Traps
