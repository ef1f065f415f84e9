import Elitra.Sched

namespace Elitra.Sched
open Function Option Signals

/-- What leaving the CPU asks for: a task that is queued again has not exited and is not ended by
the delivery before, and the head of the ready queue has not exited. -/
def Switchable (s : State) (c : ℕ) (r : Regs) (idle : ℕ → Bool) : Prop :=
  ∀ t, getCurrent s c = some t → (idle t = false → (deliver s c r).state t ≠ .exited) ∧
    ∀ n, s.queues.head = some n → (deliver s c r).state n ≠ .exited

/-- What a wait loop asks for, which marks its own task `WAITING` or `RUNNING`. -/
def Waitable (s : State) (c : ℕ) (r : Regs) : Prop :=
  ∀ t, getCurrent s c = some t → s.state t ≠ .exited ∧
    Switchable { s with state := update s.state t .waiting } c r fun t => s.id t == 0

/-- What an exit asks for: the task that takes over has not exited. -/
def Replaceable (s : State) (c : ℕ) : Prop :=
  ∀ t, getCurrent s c = some t → s.id t ≠ 0 →
    (∀ n, s.queues.head = some n → s.state n ≠ .exited ∧ n ≠ t) ∧
      (s.queues.head = none → s.rsp 0 ≠ 0 → s.state 0 ≠ .exited ∧ 0 ≠ t)

/-- The condition under which a step brings no exited task back. -/
def Spares (s : State) : Op → Prop
  | .preempt c _ _ r => Switchable s c r fun t => (s.res.kstack t).isNone
  | .yield c _ _ r => Switchable s c r fun t => s.id t == 0
  | .sleep c _ _ _ _ => ∀ t, getCurrent s c = some t → s.id t = 0
  | .exit c => Replaceable s c
  | .waitpid c _ _ _ _ r => Waitable s c r
  | .join c _ _ _ r => Waitable s c r
  | .resume c _ _ r => Waitable s c r
  | _ => True

def Op.Reallocates (s : State) (t : ℕ) : Op → Prop
  | .create .. | .createElf .. | .createInit .. | .createIdle _ | .clone .. =>
    (allocTaskId s).2 = some t
  | _ => False

/-- Runs on from a given state, by steps that meet a condition and do not reuse slot `t`. -/
inductive Later (ok : State → Op → Prop) (t : ℕ) (s : State) : State → Prop
  | now : Later ok t s s
  | step {s₁ s₂ : State} (op : Op) : Later ok t s s₁ → ok s₁ op → ¬ op.Reallocates s₁ t →
      op.exec s₁ = some s₂ → Later ok t s s₂

section Steps

/-- Between the two states, task `t` did not come back, and nobody went to sleep or woke up. -/
structure Spared (t : ℕ) (s s' : State) : Prop where
  sleep : s'.queues.sleepHead = s.queues.sleepHead
  state : s.state t = .exited → s'.state t = .exited
  cpu : s.state t = .exited → ∀ c, s'.cpu c = some t → s.cpu c = some t

variable {s s' s₁ s₂ : State} {t c : ℕ}

lemma Spared.refl (t : ℕ) (s : State) : Spared t s s := ⟨rfl, id, fun _ _ => id⟩

lemma Spared.trans (h : Spared t s s₁) (h' : Spared t s₁ s₂) : Spared t s s₂ :=
  ⟨h'.sleep.trans h.sleep, fun he => h'.state (h.state he), fun he c hc =>
    h.cpu he c (h'.cpu (h.state he) c hc)⟩

lemma Spared.same (hs : SameQueues s s') (hst : s'.state t = s.state t) : Spared t s s' :=
  ⟨by rw [hs.queues], fun he => hst.trans he, fun _ c hc => by rwa [← hs.cpu]⟩

lemma Spared.ends (t : ℕ) (s : State) (u : ℕ) :
    Spared t s { s with state := update s.state u .exited } := by
  refine ⟨rfl, fun he => ?_, fun _ _ => id⟩
  by_cases htu : t = u
  · rw [htu]
    exact update_self u TaskState.exited s.state
  · exact (update_of_ne htu _ _).trans he

lemma enqueue_sleepHead (q : Queues) (t : ℕ) : (q.enqueue t).sleepHead = q.sleepHead := by
  unfold Queues.enqueue
  dsimp only
  split <;> rfl

lemma dequeue_sleepHead (q : Queues) : q.dequeue.1.sleepHead = q.sleepHead := by
  unfold Queues.dequeue
  split <;> rfl

lemma dequeue_snd (q : Queues) : q.dequeue.2 = q.head := by
  unfold Queues.dequeue
  split
  · rename_i h
    exact h.symm
  rename_i h
  exact h.symm

lemma enqueue_head (q : Queues) (t : ℕ) : (q.enqueue t).head = some (q.head.getD t) := by
  unfold Queues.enqueue
  dsimp only
  split <;> simp [*]

lemma Spared.enqueueTask (s : State) (t u : ℕ) : Spared t s (enqueueTask s u) :=
  ⟨enqueue_sleepHead s.queues u, id, fun _ _ => id⟩

lemma Spared.enqueued (hs : SameQueues s s') (hst : s'.state t = s.state t) (u : ℕ) :
    Spared t s (Sched.enqueueTask s' u) :=
  (Spared.same hs hst).trans (.enqueueTask s' t u)

lemma Spared.resumeTask {n : ℕ} (hn : s.state n ≠ .exited) (c : ℕ) : Spared t s (resumeTask s c n) := by
  have hne : s.state t = .exited → n ≠ t := fun he hnt => hn (hnt ▸ he)
  refine ⟨rfl, fun he => ?_, fun he c' hc' => ?_⟩
  · exact (update_of_ne (hne he).symm _ _).trans he
  by_cases hcc : c' = c
  · have hs : update s.cpu c (some n) c' = some t := hc'
    rw [hcc, update_self] at hs
    exact absurd (some.inj hs) (hne he)
  · exact (update_of_ne hcc _ _).symm.trans hc'

lemma deliver_spared (t : ℕ) (s : State) (c : ℕ) (r : Regs) : Spared t s (deliver s c r) := by
  have hs := deliver_queues s c r
  refine ⟨by rw [hs.queues], fun he => ?_, fun _ c' hc' => by rwa [← hs.cpu]⟩
  unfold deliver
  split
  · exact he
  rename_i u _
  dsimp only
  split
  · exact (Spared.ends t s u).state he
  · exact he

lemma allocTaskId_state (s : State) : (allocTaskId s).1.state = s.state := by
  unfold allocTaskId
  split
  · dsimp only
    split <;> rfl
  · rfl

lemma newTask_spared {parent : Option ℕ} {stack fpu : Bool} (ht : (allocTaskId s).2 ≠ some t) :
    Spared t s (newTask s parent stack fpu).1 := by
  refine Spared.same (newTask_queues s parent stack fpu) ?_
  have ha := allocTaskId_state s
  unfold newTask
  split
  · rename_i hs
    rw [hs] at ha
    exact congrFun ha t
  rename_i s₁ u hs
  rw [hs] at ha ht
  have hne : t ≠ u := fun h => ht (congrArg some h.symm)
  split
  · exact congrFun ha t
  · exact (update_of_ne hne _ _).trans (congrFun ha t)

/-- All creations start with `newTask` and then leave other tasks' states and the CPUs alone. -/
lemma Spared.created {parent : Option ℕ} {stack fpu : Bool} (ht : (allocTaskId s).2 ≠ some t)
    {o : Option (ℕ × ℕ)} (hnew : newTask s parent stack fpu = (s₁, o)) (h : Spared t s₁ s') :
    Spared t s s' := by
  have hs : Spared t s (newTask s parent stack fpu).1 := newTask_spared ht
  rw [hnew] at hs
  exact hs.trans h

lemma Spared.creates {stack fpu : Bool} (ht : (allocTaskId s).2 ≠ some t)
    (hc : Creates s stack fpu s') : Spared t s s' := by
  cases hc with
  | lost hn => exact .created ht hn (.refl t _)
  | stopped _ hn => exact .created ht hn (.same ⟨rfl, rfl⟩ rfl)
  | queued _ hn => exact .created ht hn (.enqueued (by exact ⟨rfl, rfl⟩) (by rfl) _)

lemma createIdle_spared (ht : (allocTaskId s).2 ≠ some t) (c : ℕ) :
    Spared t s (krustSchedCreateIdleForCpu s c) := by
  have ha := allocTaskId_state s
  have hsa := allocTaskId_queues s
  unfold krustSchedCreateIdleForCpu
  split
  · rename_i hs
    rw [hs] at ha hsa
    exact .same hsa (congrFun ha t)
  rename_i s₁ u hs
  rw [hs] at ha hsa ht
  have hne : t ≠ u := fun h => ht (congrArg some h.symm)
  refine ⟨congrArg Queues.sleepHead hsa.queues, fun he => ?_, fun _ c' hc' => ?_⟩
  · exact (update_of_ne hne _ _).trans ((congrFun ha t).trans he)
  rw [← hsa.cpu]
  dsimp only at hc'
  split at hc'
  · by_cases hcc : c' = c
    · rw [hcc, update_self] at hc'
      exact absurd (some.inj hc').symm hne
    · rwa [update_of_ne hcc] at hc'
  · exact hc'

/-- Leaving the CPU: nothing that is queued, and nothing that takes over, has exited. -/
lemma switchAway_spared {prev frame : ℕ} {idle : Bool} (hp : idle = false → s.state prev ≠ .exited)
    (hhe : ∀ n, s.queues.head = some n → s.state n ≠ .exited) :
    Spared t s (switchAway s c prev frame idle) := by
  unfold switchAway
  dsimp only
  cases idle with
  | true =>
    rw [if_pos rfl]
    have hsnd := dequeue_snd s.queues
    have hsleep := dequeue_sleepHead s.queues
    split
    · exact ⟨rfl, id, fun _ _ => id⟩
    rename_i q n hq
    have hq' : s.queues.dequeue = (q, some n) := hq
    rw [hq'] at hsnd hsleep
    have hd : Spared t s { setRsp s prev frame with queues := q } := ⟨hsleep, id, fun _ _ => id⟩
    refine hd.trans (.resumeTask ?_ c)
    exact hhe n hsnd.symm
  | false =>
    rw [if_neg (by simp)]
    have hr : Spared t s
        { setRsp s prev frame with state := update s.state prev .ready } := by
      refine ⟨rfl, fun he => ?_, fun _ _ => id⟩
      exact (update_of_ne (fun h : t = prev => hp rfl (h ▸ he)) _ _).trans he
    have hqu := hr.trans (.enqueueTask _ t prev)
    split
    · rename_i hq
      have hsnd := dequeue_snd (s.queues.enqueue prev)
      rw [show (s.queues.enqueue prev).dequeue = _ from hq, enqueue_head] at hsnd
      simp at hsnd
    rename_i q n hq
    have hsnd := dequeue_snd (s.queues.enqueue prev)
    have hsleep := dequeue_sleepHead (s.queues.enqueue prev)
    rw [show (s.queues.enqueue prev).dequeue = _ from hq] at hsnd hsleep
    rw [enqueue_head] at hsnd
    -- The task that takes over is the old head, or the task itself when the queue was empty.
    have hl : update s.state prev TaskState.ready n ≠ .exited := by
      by_cases hn : n = prev
      · rw [hn, update_self]
        simp
      rw [update_of_ne hn]
      cases hh : s.queues.head with
      | none =>
        rw [hh] at hsnd
        exact absurd (some.inj hsnd) hn
      | some m =>
        rw [hh] at hsnd
        rw [some.inj hsnd]
        exact hhe m hh
    have hd : Spared t s
        { enqueueTask { setRsp s prev frame with
            state := update s.state prev .ready } prev with queues := q } :=
      ⟨hsleep.trans (enqueue_sleepHead s.queues prev), hqu.state, hqu.cpu⟩
    refine hd.trans (.resumeTask ?_ c)
    exact hl

variable {r : Regs}

lemma Switchable.spared {idle : ℕ → Bool} (h : Switchable s c r idle) {prev frame : ℕ}
    (hp : getCurrent s c = some prev) :
    Spared t s (switchAway (deliver s c r) c prev frame (idle prev)) := by
  obtain ⟨hl, hh⟩ := h prev hp
  refine (deliver_spared t s c r).trans (switchAway_spared hl fun n hn => hh n ?_)
  rwa [← (deliver_queues s c r).queues]

lemma deliver_res (s : State) (c : ℕ) (r : Regs) : (deliver s c r).res = s.res := by
  unfold deliver
  split
  · rfl
  dsimp only
  split <;> rfl

lemma deliver_id (s : State) (c : ℕ) (r : Regs) : (deliver s c r).id = s.id := by
  unfold deliver
  split
  · rfl
  dsimp only
  split <;> rfl

variable {now frame : ℕ}

lemma preempt_spared (hsleep : s.queues.sleepHead = none)
    (h : Switchable s c r fun t => (s.res.kstack t).isNone)
    (hs : krustSchedPreempt s c now frame r = some s') : Spared t s s' := by
  unfold krustSchedPreempt at hs
  split at hs
  · cases hs
    exact .refl t s
  rename_i prev hp
  rw [sleepWakeAll_empty hsleep] at hs
  cases hs
  dsimp only
  rw [deliver_res]
  exact h.spared hp

lemma yield_spared (hsleep : s.queues.sleepHead = none) (h : Switchable s c r fun t => s.id t == 0)
    (hs : krustSchedYieldHandler s c now frame r = some s') : Spared t s s' := by
  unfold krustSchedYieldHandler at hs
  split at hs
  · cases hs
    exact .refl t s
  rename_i prev hp
  rw [sleepWakeAll_empty hsleep] at hs
  cases hs
  dsimp only
  rw [deliver_id]
  exact h.spared hp

lemma exit_spared (h : Replaceable s c) (hs : krustSchedExit s c = some s') : Spared t s s' := by
  unfold krustSchedExit at hs
  split at hs
  · cases hs
    exact .refl t s
  rename_i u hu
  split at hs
  · cases hs
    exact .refl t s
  rename_i hid
  obtain ⟨hh, hi⟩ := h u hu hid
  obtain ⟨children, -, rfl⟩ := map_eq_some_iff.mp hs
  have hend : Spared t s { s with
      state := update s.state u .exited
      family := (s.family.orphan children).dropChildren u } :=
    (Spared.ends t s u).trans (.same ⟨rfl, rfl⟩ rfl)
  have ho : ∀ n, s.state n ≠ .exited → n ≠ u → update s.state u TaskState.exited n ≠ .exited := by
    intro n hn hnu
    rwa [update_of_ne hnu]
  have hsnd := dequeue_snd s.queues
  have hsleep := dequeue_sleepHead s.queues
  dsimp only
  split
  · rename_i q n hq
    rw [hq] at hsnd hsleep
    obtain ⟨hn, hnu⟩ := hh n hsnd.symm
    have hd : Spared t s { s with
        queues := q
        state := update s.state u .exited
        family := (s.family.orphan children).dropChildren u } :=
      ⟨hsleep, hend.state, hend.cpu⟩
    exact hd.trans (.resumeTask (ho n hn hnu) c)
  rename_i hq
  rw [hq] at hsnd
  split
  · exact ⟨rfl, hend.state, hend.cpu⟩
  rename_i hrsp
  obtain ⟨hn, hnu⟩ := hi hsnd.symm hrsp
  exact hend.trans (.resumeTask (ho 0 hn hnu) c)

lemma reap_spared {parent child : ℕ} (hs : reap s parent child = some s') : Spared t s s' := by
  unfold reap at hs
  obtain ⟨f, -, rfl⟩ := map_eq_some_iff.mp hs
  exact .same ⟨rfl, rfl⟩ rfl

lemma Switchable.waitFor {idle : ℕ → Bool} (h : Switchable s c r idle)
    {w : ℕ → Option (ℕ × Bool)} : Switchable { s with waitFor := w } c r idle := by
  have hs : (deliver { s with waitFor := w } c r).state = (deliver s c r).state := by
    unfold deliver
    rw [show getCurrent { s with waitFor := w } c = getCurrent s c from rfl]
    cases getCurrent s c with
    | none => rfl
    | some u =>
      dsimp only
      cases (deliverSignals (s.sig u) r).2 <;> rfl
  intro t ht
  rw [hs]
  exact h t ht

section Spared

variable (hsleep : s.queues.sleepHead = none)
include hsleep

lemma waitStep_spared {u child : ℕ} {reaps : Bool} (hu : s.state u ≠ .exited)
    (h : Switchable { s with state := update s.state u .waiting } c r fun t => s.id t == 0)
    (hs : waitStep s c u child reaps now frame r = some s') : Spared t s s' := by
  unfold waitStep at hs
  split at hs
  · have hd : Spared t s { s with waitFor := update s.waitFor u none } :=
      .same ⟨rfl, rfl⟩ rfl
    dsimp only at hs
    split at hs
    · exact hd.trans (reap_spared hs)
    cases hs
    exact hd
  have hw : Spared t s { s with
      state := update s.state u .waiting
      waitFor := update s.waitFor u (some (child, reaps)) } := by
    refine ⟨rfl, fun he => ?_, fun _ _ => id⟩
    exact (update_of_ne (fun htu : t = u => hu (htu ▸ he)) _ _).trans he
  exact hw.trans (yield_spared hsleep h.waitFor hs)

lemma waitpid_spared {pid : ℤ} {wnohang : Bool} (h : Waitable s c r)
    (hs : krustSchedWaitpidFlags s c pid wnohang now frame r = some s') : Spared t s s' := by
  unfold krustSchedWaitpidFlags at hs
  split at hs
  · cases hs
    exact .refl t s
  rename_i u hu
  split at hs
  · cases hs
  · cases hs
    exact .refl t s
  split at hs
  · cases hs
    exact .refl t s
  · exact waitStep_spared hsleep (h u hu).1 (h u hu).2 hs

lemma join_spared {tid now frame : ℕ}
    (h : Waitable s c r) (hs : krustSchedThreadJoin s c tid now frame r = some s') :
    Spared t s s' := by
  unfold krustSchedThreadJoin at hs
  split at hs
  · cases hs
    exact .refl t s
  rename_i u hu
  split at hs
  · cases hs
    exact .refl t s
  · exact waitStep_spared hsleep (h u hu).1 (h u hu).2 hs

lemma resume_spared
    (h : Waitable s c r) (hs : waitResume s c now frame r = some s') : Spared t s s' := by
  unfold waitResume at hs
  split at hs
  · cases hs
    exact .refl t s
  rename_i u hu
  split at hs
  · cases hs
    exact .refl t s
  obtain ⟨hl, hsw⟩ := h u hu
  have hrun : Spared t s { s with state := update s.state u .running } := by
    refine ⟨rfl, fun he => ?_, fun _ _ => id⟩
    exact (update_of_ne (fun htu : t = u => hl (htu ▸ he)) _ _).trans he
  refine hrun.trans (waitStep_spared hsleep ?_ ?_ hs)
  · dsimp only
    rw [update_self]
    simp
  dsimp only
  rw [update_idem]
  exact hsw

end Spared

lemma kill_spared (t : ℕ) (s : State) (c : ℕ) (pid sig : ℤ) :
    Spared t s (krustSchedKill s c pid sig) := by
  unfold krustSchedKill
  dsimp only
  split_ifs
  · exact .refl t s
  · exact .refl t s
  · exact .refl t s
  · exact .refl t s
  · exact .ends t s _
  · exact .same ⟨rfl, rfl⟩ rfl

lemma eagerCleanupTask_state (s : State) (t : ℕ) : (eagerCleanupTask s t).state = s.state := by
  unfold eagerCleanupTask
  dsimp only
  split <;> rfl

lemma oomKill_spared (hs : krustOomKill s c = some s') : Spared t s s' := by
  unfold krustOomKill at hs
  split at hs
  · cases hs
    exact .refl t s
  rename_i v _
  obtain ⟨children, -, rfl⟩ := map_eq_some_iff.mp hs
  refine (Spared.ends t s v).trans (.same ?_ ?_)
  · exact ⟨(eagerCleanupTask_queues _ _).queues, (eagerCleanupTask_queues _ _).cpu⟩
  · rw [eagerCleanupTask_state]

lemma step_spared {op : Op} (hsleep : s.queues.sleepHead = none) (h : Spares s op)
    (ht : ¬ op.Reallocates s t) (hs : op.exec s = some s') : Spared t s s' := by
  cases op with
  | create => cases hs; exact .creates ht (create_creates ..)
  | createElf => cases hs; exact .creates ht (createElf_creates ..)
  | createInit => cases hs; exact .creates ht (createInit_creates ..)
  | createIdle c =>
    cases hs
    exact createIdle_spared ht c
  | clone c rsp vm stack fpu space =>
    cases hs
    unfold krustSchedClone
    split
    · exact .refl t s
    split
    · rename_i hnew
      exact .created ht hnew (.refl t _)
    rename_i u k hnew
    split
    · exact .created ht hnew (.same ⟨rfl, rfl⟩ rfl)
    · exact .created ht hnew (.enqueued (by exact ⟨rfl, rfl⟩) (by rfl) u)
  | preempt c now frame r => exact preempt_spared hsleep h hs
  | yield c now frame r => exact yield_spared hsleep h hs
  | sleep c target now frame r =>
    change krustSchedSleepTicks s c target now frame r = some s' at hs
    unfold krustSchedSleepTicks at hs
    split at hs
    · cases hs
      exact .refl t s
    rename_i u hu
    rw [if_pos (h u hu)] at hs
    cases hs
    exact .refl t s
  | exit c => exact exit_spared h hs
  | waitpid c pid wnohang now frame r => exact waitpid_spared hsleep h hs
  | join c tid now frame r => exact join_spared hsleep h hs
  | resume c now frame r => exact resume_spared hsleep h hs
  | kill c pid sig =>
    cases hs
    exact kill_spared t s c pid sig
  | signals c r =>
    cases hs
    exact deliver_spared t s c r
  | oomKill c => exact oomKill_spared hs
  | fault c =>
    cases hs
    unfold countPage
    split
    · exact .refl t s
    · exact .same ⟨rfl, rfl⟩ rfl

lemma step_sleepHead {op : Op} (hsleep : s.queues.sleepHead = none) (h : Spares s op)
    (hs : op.exec s = some s') : s'.queues.sleepHead = none := by
  -- Some slot is not the one that a creation takes.
  obtain ⟨t, ht⟩ : ∃ t, (allocTaskId s).2 ≠ some t := by
    cases hsl : (allocTaskId s).2 with
    | none => exact ⟨0, by simp⟩
    | some u => exact ⟨u + 1, by simp⟩
  have hre : ¬ op.Reallocates s t := by
    cases op <;> first | exact ht | exact id
  exact (step_spared hsleep h hre hs).sleep.trans hsleep

lemma Reached.sleepHead (h : Reached Spares s) : s.queues.sleepHead = none :=
  h.invariant (P := fun s => s.queues.sleepHead = none) rfl
    fun hsleep hok hs => step_sleepHead hsleep hok hs

end Steps

/-- From any reached state on, as long as the slot is not reused, an exited task stays exited and
becomes current on no CPU. -/
theorem exited_stays_exited {s s' : State} {t : ℕ} (h : Reached Spares s) (hexited : s.state t = .exited)
    (hlater : Later Spares t s s') :
    s'.state t = .exited ∧ ∀ c, s'.cpu c = some t → s.cpu c = some t := by
  have key : s'.queues.sleepHead = none ∧ Spared t s s' := by
    induction hlater with
    | now => exact ⟨h.sleepHead, .refl t s⟩
    | step op _ hok ht hs ih =>
      have hst := step_spared ih.1 hok ht hs
      exact ⟨hst.sleep.trans ih.1, ih.2.trans hst⟩
  exact ⟨key.2.state hexited, key.2.cpu hexited⟩

/-- Task 1 exits, another task is made, and the idle task is preempted for it. -/
theorem exited_stays_exited_preempted : ∃ s s', Reached Spares s ∧ s.state 1 = .exited ∧
    Later Spares 1 s s' ∧ s'.state 1 = .exited ∧ ∀ c, s'.cpu c = some 1 → s.cpu c = some 1 := by
  have h1 : Reached Spares _ := .step (.create 0x2000 true true) .start trivial rfl
  have h2 := h1.step (.preempt 0 0 0x1000 ⟨0, 8, 0, 0, 0, 0, 0⟩)
    (fun t ht => by
      obtain rfl : 0 = t := some.inj ht
      exact ⟨fun h => absurd h (by decide), fun n hn => by cases hn; decide⟩) rfl
  have h3 := h2.step (.exit 0)
    (fun t ht _ => by
      obtain rfl : 1 = t := some.inj ht
      exact ⟨fun n hn => absurd (show none = some n from hn) (by simp), fun _ _ => by decide⟩) rfl
  have hall : ∀ {s s' : State}, Reached Spares s → s.state 1 = .exited → Later Spares 1 s s' →
      ∃ s s', Reached Spares s ∧ s.state 1 = .exited ∧ Later Spares 1 s s' ∧ s'.state 1 = .exited ∧
        ∀ c, s'.cpu c = some 1 → s.cpu c = some 1 :=
    fun h hx hl => ⟨_, _, h, hx, hl, exited_stays_exited h hx hl⟩
  refine hall h3 rfl (.step (.preempt 0 0 0x1000 ⟨0, 8, 0, 0, 0, 0, 0⟩) (.step
    (.create 0x3000 true true) .now trivial (fun h => nomatch (show some 2 = some 1 from h)) rfl)
    (fun t ht => ?_) id rfl)
  obtain rfl : 0 = t := some.inj ht
  exact ⟨fun h => absurd h (by decide), fun n hn => by cases hn; decide⟩

/-- A task killed while it runs is queued and resumed by the next preemption. -/
theorem killed_task_runs_on : ∃ s s', Reached (fun _ _ => True) s ∧ s.state 1 = .exited ∧
    Op.exec s (.preempt 0 0 0x2000 ⟨0, 8, 0, 0, 0, 0, 0⟩) = some s' ∧ s'.state 1 = .running := by
  have h1 : Reached (fun _ _ => True) _ := .step (.create 0x2000 true true) .start trivial rfl
  have h2 := h1.step (.preempt 0 0 0x1000 ⟨0, 8, 0, 0, 0, 0, 0⟩) trivial rfl
  have h3 := h2.step (.kill 0 1 9) trivial rfl
  exact ⟨_, _, h3, rfl, rfl, rfl⟩

end Elitra.Sched
