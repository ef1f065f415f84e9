import Elitra.Sched

namespace Elitra.Sched
open Function LinkedList List Option Signals

/-- The two queues are the lists `ready` and `sleep`, and no task is in two places. -/
structure QueuesOk (s : State) (ready sleep : List ℕ) : Prop where
  readyList : Linked s.queues.next s.queues.head ready
  tail : s.queues.tail = ready.getLast?
  sleepList : Linked s.queues.next s.queues.sleepHead sleep
  count : s.queues.sleepCount = sleep.length
  once : (ready ++ sleep).Nodup
  current : ∀ c t, s.cpu c = some t → t ∉ ready ++ sleep
  oneCpu : ∀ c c' t, s.cpu c = some t → s.cpu c' = some t → c = c'
  asleep : ∀ t ∈ sleep, s.state t ≠ .ready

/-- The slot is neither in the ready queue nor current on a CPU. -/
def OffQueue (s : State) (t : ℕ) : Prop :=
  (∀ l, Linked s.queues.next s.queues.head l → t ∉ l) ∧ ∀ c, s.cpu c ≠ some t

/-- A creation is handed a slot whose last task has left the ready queue and the CPUs. -/
def FreshSlot (s : State) : Prop := ∀ t, (allocTaskId s).2 = some t → OffQueue s t

/-- The condition under which the queues stay intact. -/
def QueueSafe (s : State) : Op → Prop
  | .create .. | .createElf .. | .createInit .. | .createIdle _ | .clone .. => FreshSlot s
  | .sleep c _ _ _ _ => ∀ t, getCurrent s c = some t → s.id t = 0
  | .exit c => s.queues.head = none → s.rsp 0 ≠ 0 → ∀ c', s.cpu c' = some 0 → c' = c
  | _ => True

section Places

/-- The ready queue holds the tasks of the list. -/
structure Lined (q : Queues) (ready : List ℕ) : Prop where
  linked : Linked q.next q.head ready
  tail : q.tail = ready.getLast?

variable {q : Queues} {ready : List ℕ} {t : ℕ}

lemma Lined.enqueue (h : Lined q ready) (ht : t ∉ ready) :
    Lined (q.enqueue t) (ready ++ [t]) ∧ (q.enqueue t).sleepHead = q.sleepHead ∧
      (q.enqueue t).sleepCount = q.sleepCount := by
  have hli := h.linked.update ht none
  unfold Queues.enqueue
  dsimp only
  cases hh : q.head with
  | none =>
    rw [hh] at hli
    obtain rfl := linked_none hli
    refine ⟨⟨⟨rfl, ?_⟩, rfl⟩, rfl, rfl⟩
    simp [Linked]
  | some a =>
    rw [hh] at hli
    obtain ⟨rest, rfl, -⟩ := linked_some hli
    obtain ⟨l, hl⟩ : ∃ l, (a :: rest).getLast? = some l := ⟨_, getLast?_eq_some_getLast (by simp)⟩
    rw [h.tail, hl]
    exact ⟨⟨hli.snoc ht hl (update_self t none q.next), getLast?_concat.symm⟩, rfl, rfl⟩

lemma Lined.dequeue (h : Lined q (t :: ready)) : ∃ q', q.dequeue = (q', some t) ∧ Lined q' ready ∧
    q'.sleepHead = q.sleepHead ∧ q'.sleepCount = q.sleepCount := by
  refine ⟨{ q with
      head := q.next t
      tail := if q.next t = none then none else q.tail
      next := update q.next t none }, by rw [Queues.dequeue, h.linked.1],
    ⟨h.linked.cut_first none, ?_⟩, rfl, rfl⟩
  have hn := h.linked.2
  dsimp only
  cases ready with
  | nil => rw [if_pos (show q.next t = none from hn)]; rfl
  | cons a rest =>
    rw [if_neg (by rw [hn.1]; simp), h.tail]
    simp

/-- The invariant: nobody sleeps, and the ready queue and the CPUs share no task. -/
structure Places (q : Queues) (cpu : ℕ → Option ℕ) (ready : List ℕ) : Prop where
  linked : Linked q.next q.head ready
  tail : q.tail = ready.getLast?
  sleep : q.sleepHead = none
  count : q.sleepCount = 0
  current : ∀ c t, cpu c = some t → t ∉ ready
  oneCpu : ∀ c c' t, cpu c = some t → cpu c' = some t → c = c'

variable {cpu : ℕ → Option ℕ} {c : ℕ}

lemma Places.enqueue (h : Places q cpu ready) (ht : t ∉ ready) (hc : ∀ c, cpu c ≠ some t) :
    Places (q.enqueue t) cpu (ready ++ [t]) := by
  have hcu : ∀ c u, cpu c = some u → u ∉ ready ++ [t] := by
    intro c u hu hmem
    rcases mem_append.mp hmem with hmem | hmem
    · exact h.current c u hu hmem
    rw [mem_singleton.mp hmem] at hu
    exact hc c hu
  obtain ⟨hl, hs, hn⟩ := Lined.enqueue ⟨h.linked, h.tail⟩ ht
  exact ⟨hl.linked, hl.tail, hs.trans h.sleep, hn.trans h.count, hcu, h.oneCpu⟩

lemma Places.dequeue (h : Places q cpu (t :: ready)) :
    ∃ q', q.dequeue = (q', some t) ∧ Places q' cpu ready ∧ t ∉ ready ∧ ∀ c, cpu c ≠ some t := by
  have hno := nodup_cons.mp h.linked.nodup
  have hoff : ∀ c, cpu c ≠ some t := fun c hc => h.current c t hc (mem_cons_self ..)
  obtain ⟨q', hq, hl, hs, hn⟩ := Lined.dequeue ⟨h.linked, h.tail⟩
  exact ⟨q', hq, ⟨hl.linked, hl.tail, hs.trans h.sleep, hn.trans h.count,
    fun c u hu hmem => h.current c u hu (mem_cons_of_mem _ hmem), h.oneCpu⟩, hno.1, hoff⟩

lemma Places.dequeue_empty (h : Places q cpu []) : q.dequeue = (q, none) := by
  rw [Queues.dequeue, show q.head = none from h.linked]

lemma Places.resume (h : Places q cpu ready) (ht : t ∉ ready) (hc : ∀ c', cpu c' = some t → c' = c) :
    Places q (update cpu c (some t)) ready := by
  have hca : ∀ c' u, update cpu c (some t) c' = some u →
      c' = c ∧ u = t ∨ c' ≠ c ∧ cpu c' = some u := by
    intro c' u hu
    by_cases hcc : c' = c
    · subst hcc
      rw [update_self] at hu
      exact .inl ⟨rfl, (some.inj hu).symm⟩
    rw [update_of_ne hcc] at hu
    exact .inr ⟨hcc, hu⟩
  refine ⟨h.linked, h.tail, h.sleep, h.count, fun c' u hu => ?_, fun c1 c2 u h1 h2 => ?_⟩
  · rcases hca c' u hu with ⟨-, rfl⟩ | ⟨-, hu⟩
    · exact ht
    · exact h.current c' u hu
  rcases hca c1 u h1 with ⟨rfl, rfl⟩ | ⟨hne1, hu1⟩
  · rcases hca c2 u h2 with ⟨rfl, -⟩ | ⟨hne2, hu2⟩
    · rfl
    · exact absurd (hc c2 hu2) hne2
  rcases hca c2 u h2 with ⟨rfl, rfl⟩ | ⟨hne2, hu2⟩
  · exact absurd (hc c1 hu1) hne1
  · exact h.oneCpu c1 c2 u hu1 hu2

lemma Places.leave (h : Places q cpu ready) (c : ℕ) :
    Places q (update cpu c none) ready := by
  have hc : ∀ c' u, update cpu c none c' = some u → cpu c' = some u := by
    intro c' u hu
    by_cases hcc : c' = c
    · rw [hcc, update_self] at hu
      simp at hu
    · rwa [update_of_ne hcc] at hu
  exact ⟨h.linked, h.tail, h.sleep, h.count, fun c' u hu => h.current c' u (hc c' u hu),
    fun c1 c2 u h1 h2 => h.oneCpu c1 c2 u (hc c1 u h1) (hc c2 u h2)⟩

end Places

variable {t : ℕ} {parent : Option ℕ}

section Steps

/-- The invariant of a state. -/
def Placed (s : State) : Prop := ∃ ready, Places s.queues s.cpu ready

variable {s s' : State} {c : ℕ}

lemma Placed.same (h : Placed s) (hs : SameQueues s s') : Placed s' := by
  obtain ⟨ready, hr⟩ := h
  exact ⟨ready, by rw [hs.queues, hs.cpu]; exact hr⟩

lemma Placed.sleepHead (h : Placed s) : s.queues.sleepHead = none := by
  obtain ⟨ready, hr⟩ := h
  exact hr.sleep

lemma Placed.enqueueTask (h : Placed s) (ht : OffQueue s t) : Placed (enqueueTask s t) := by
  obtain ⟨ready, hr⟩ := h
  exact ⟨_, hr.enqueue (ht.1 ready hr.linked) ht.2⟩

lemma OffQueue.same (h : OffQueue s t) (hs : SameQueues s s') : OffQueue s' t := by
  unfold OffQueue
  rw [hs.queues, hs.cpu]
  exact h

section Moves

variable (h : Placed s)
include h

/-- All creations end like this: either nothing was enqueued, or the new task was. -/
lemma Placed.created {stack fpu : Bool} (hf : FreshSlot s)
    {s1 : State} {k : ℕ} (hnew : newTask s parent stack fpu = (s1, some (t, k)))
    (hs : SameQueues s1 s') : Placed s' ∧ Placed (Sched.enqueueTask s' t) := by
  have hsa : SameQueues s s' := by
    have := newTask_queues s parent stack fpu
    rw [hnew] at this
    exact this.trans hs
  have hsl : OffQueue s' t := (hf t (newTask_slot hnew)).same hsa
  exact ⟨h.same hsa, (h.same hsa).enqueueTask hsl⟩

lemma Placed.notCreated {stack fpu : Bool}
    (hnew : newTask s parent stack fpu = (s', none)) : Placed s' := by
  have := newTask_queues s parent stack fpu
  rw [hnew] at this
  exact h.same this

section

variable (hf : FreshSlot s)
include hf

lemma Placed.creates {stack fpu : Bool} (hc : Creates s stack fpu s') : Placed s' := by
  cases hc with
  | lost hn => exact h.notCreated hn
  | stopped _ hn => exact (h.created hf hn ⟨rfl, rfl⟩).1
  | queued _ hn => exact (h.created hf hn ⟨rfl, rfl⟩).2

lemma Placed.clone (rsp : ℕ) (vm stack fpu space : Bool) :
    Placed (krustSchedClone s c rsp vm stack fpu space) := by
  unfold krustSchedClone
  split
  · exact h
  split
  · rename_i hnew
    exact h.notCreated hnew
  rename_i hnew
  split
  · exact (h.created hf hnew ⟨rfl, rfl⟩).1
  · exact (h.created hf hnew ⟨rfl, rfl⟩).2

lemma Placed.createIdle (c : ℕ) : Placed (krustSchedCreateIdleForCpu s c) := by
  have hsa := allocTaskId_queues s
  unfold krustSchedCreateIdleForCpu
  split
  · rename_i hs
    rw [hs] at hsa
    exact h.same hsa
  rename_i s1 t hs
  rw [hs] at hsa
  have hsl := hf t (by rw [hs])
  obtain ⟨ready, hr⟩ := h
  have hr1 : Places s1.queues s1.cpu ready := by
    rw [hsa.queues, hsa.cpu]
    exact hr
  refine ⟨ready, ?_⟩
  dsimp only
  split
  · refine hr1.resume (hsl.1 ready hr.linked) fun c' hc' => ?_
    rw [hsa.cpu] at hc'
    exact absurd hc' (hsl.2 c')
  · exact hr1

end

lemma Placed.switchAway {prev : ℕ} (hp : s.cpu c = some prev) (frame : ℕ)
    (idle : Bool) : Placed (switchAway s c prev frame idle) := by
  obtain ⟨ready, hr⟩ := h
  unfold Sched.switchAway
  dsimp only
  split
  · -- The idle task is in no queue; a waiting task takes over its CPU.
    cases ready with
    | nil =>
      rw [show (setRsp s prev frame).queues = s.queues from rfl, hr.dequeue_empty]
      exact ⟨[], hr⟩
    | cons t rest =>
      obtain ⟨q', hq, hr', ht, hoff⟩ := hr.dequeue
      rw [show (setRsp s prev frame).queues = s.queues from rfl, hq]
      exact ⟨rest, hr'.resume ht fun c' hc' => absurd hc' (hoff c')⟩
  -- The task leaves the CPU, joins the queue, and the head of the queue takes over.
  have hl := hr.leave c
  have hqu : Places (s.queues.enqueue prev) (update s.cpu c none) (ready ++ [prev]) := by
    refine hl.enqueue (hr.current c prev hp) fun c' hc' => ?_
    by_cases hcc : c' = c
    · rw [hcc, update_self] at hc'
      simp at hc'
    rw [update_of_ne hcc] at hc'
    exact hcc (hr.oneCpu c' c prev hc' hp)
  obtain ⟨t, rest, hco⟩ : ∃ t rest, ready ++ [prev] = t :: rest := by
    cases ready with
    | nil => exact ⟨prev, [], rfl⟩
    | cons a l => exact ⟨a, l ++ [prev], rfl⟩
  rw [hco] at hqu
  obtain ⟨q', hq, hr', ht, hoff⟩ := hqu.dequeue
  have hre := hr'.resume ht (c := c) fun c' hc' => absurd hc' (hoff c')
  rw [update_idem] at hre
  unfold Sched.enqueueTask
  dsimp only
  rw [show (setRsp s prev frame).queues = s.queues from rfl, hq]
  exact ⟨rest, hre⟩

end Moves

variable {r : Regs}

/-- `krust_sched_preempt` and `krust_sched_yield_handler` differ only in the test for idle. -/
lemma Placed.switched (h : Placed s) {prev frame : ℕ} (idle : State → Bool)
    (hp : getCurrent s c = some prev) :
    Placed (Sched.switchAway (deliver s c r) c prev frame (idle (deliver s c r))) := by
  have hs := deliver_queues s c r
  refine (h.same hs).switchAway ?_ frame _
  rw [hs.cpu]
  exact getCurrent_cpu hp

variable {now frame : ℕ}

lemma Placed.preempt (h : Placed s)
    (hs : krustSchedPreempt s c now frame r = some s') : Placed s' := by
  unfold krustSchedPreempt at hs
  split at hs
  · cases hs
    exact h
  rename_i prev hp
  rw [sleepWakeAll_empty h.sleepHead] at hs
  cases hs
  exact h.switched (fun s => (s.res.kstack prev).isNone) hp

lemma Placed.yield (h : Placed s)
    (hs : krustSchedYieldHandler s c now frame r = some s') : Placed s' := by
  unfold krustSchedYieldHandler at hs
  split at hs
  · cases hs
    exact h
  rename_i prev hp
  rw [sleepWakeAll_empty h.sleepHead] at hs
  cases hs
  exact h.switched (fun s => s.id prev == 0) hp

lemma Placed.exit (h : Placed s) (hs : krustSchedExit s c = some s')
    (hsa : s.queues.head = none → s.rsp 0 ≠ 0 → ∀ c', s.cpu c' = some 0 → c' = c) :
    Placed s' := by
  unfold krustSchedExit at hs
  split at hs
  · cases hs
    exact h
  split at hs
  · cases hs
    exact h
  obtain ⟨children, -, rfl⟩ := map_eq_some_iff.mp hs
  obtain ⟨ready, hr⟩ := h
  dsimp only
  cases ready with
  | nil =>
    rw [hr.dequeue_empty]
    dsimp only
    split
    · exact ⟨[], hr⟩
    rename_i hrsp
    exact ⟨[], hr.resume (by simp) (hsa hr.linked hrsp)⟩
  | cons t rest =>
    obtain ⟨q', hq, hr', ht, hoff⟩ := hr.dequeue
    rw [hq]
    exact ⟨rest, hr'.resume ht fun c' hc' => absurd hc' (hoff c')⟩

lemma reap_queues {parent child : ℕ} (hs : reap s parent child = some s') : SameQueues s s' := by
  unfold reap at hs
  obtain ⟨f, -, rfl⟩ := map_eq_some_iff.mp hs
  exact ⟨rfl, rfl⟩

lemma Placed.waitStep (h : Placed s) {child : ℕ} {reaps : Bool}
    (hs : waitStep s c t child reaps now frame r = some s') : Placed s' := by
  unfold Sched.waitStep at hs
  split at hs
  · dsimp only at hs
    split at hs
    · have hr := reap_queues hs
      exact h.same ⟨hr.queues, hr.cpu⟩
    cases hs
    exact h.same ⟨rfl, rfl⟩
  refine Placed.yield ?_ hs
  exact h.same ⟨rfl, rfl⟩

lemma Placed.waitpid (h : Placed s) {pid : ℤ} {wnohang : Bool}
    (hs : krustSchedWaitpidFlags s c pid wnohang now frame r = some s') : Placed s' := by
  unfold krustSchedWaitpidFlags at hs
  split at hs
  · cases hs
    exact h
  split at hs
  · cases hs
  · cases hs
    exact h
  split at hs
  · cases hs
    exact h
  · exact h.waitStep hs

lemma Placed.join (h : Placed s) {tid now frame : ℕ}
    (hs : krustSchedThreadJoin s c tid now frame r = some s') : Placed s' := by
  unfold krustSchedThreadJoin at hs
  split at hs
  · cases hs
    exact h
  split at hs
  · cases hs
    exact h
  · exact h.waitStep hs

lemma Placed.resumeWait (h : Placed s) (hs : waitResume s c now frame r = some s') : Placed s' := by
  unfold waitResume at hs
  split at hs
  · cases hs
    exact h
  split at hs
  · cases hs
    exact h
  refine Placed.waitStep ?_ hs
  exact h.same ⟨rfl, rfl⟩

lemma kill_queues (s : State) (c : ℕ) (pid sig : ℤ) : SameQueues s (krustSchedKill s c pid sig) := by
  unfold krustSchedKill
  dsimp only
  split_ifs <;> exact ⟨rfl, rfl⟩

lemma oomKill_queues (hs : krustOomKill s c = some s') : SameQueues s s' := by
  unfold krustOomKill at hs
  split at hs
  · cases hs
    exact .refl s
  obtain ⟨children, -, rfl⟩ := map_eq_some_iff.mp hs
  have hc := eagerCleanupTask_queues
  exact ⟨(hc _ _).queues, (hc _ _).cpu⟩

lemma sleep_idle {target now frame : ℕ} (hsa : ∀ t, getCurrent s c = some t → s.id t = 0)
    (hs : krustSchedSleepTicks s c target now frame r = some s') : s' = s := by
  unfold krustSchedSleepTicks at hs
  split at hs
  · exact (some.inj hs).symm
  rename_i t ht
  rw [if_pos (hsa t ht)] at hs
  exact (some.inj hs).symm

lemma Placed.step (h : Placed s) {op : Op} (hsa : QueueSafe s op) (hs : op.exec s = some s') :
    Placed s' := by
  cases op with
  | create => cases hs; exact h.creates hsa (create_creates ..)
  | createElf => cases hs; exact h.creates hsa (createElf_creates ..)
  | createInit => cases hs; exact h.creates hsa (createInit_creates ..)
  | createIdle c => cases hs; exact h.createIdle hsa c
  | clone c rsp vm stack fpu space => cases hs; exact h.clone hsa rsp vm stack fpu space
  | preempt c now frame r => exact h.preempt hs
  | yield c now frame r => exact h.yield hs
  | sleep c target now frame r => rw [sleep_idle hsa hs]; exact h
  | exit c => exact h.exit hs hsa
  | waitpid c pid wnohang now frame r => exact h.waitpid hs
  | join c tid now frame r => exact h.join hs
  | resume c now frame r => exact h.resumeWait hs
  | kill c pid sig => cases hs; exact h.same (kill_queues s c pid sig)
  | signals c r => cases hs; exact h.same (deliver_queues s c r)
  | oomKill c => exact h.same (oomKill_queues hs)
  | fault c =>
    cases hs
    unfold countPage
    split <;> exact h

lemma boot_cpu {c : ℕ} (h : boot.cpu c = some t) : c = 0 ∧ t = 0 := by
  by_cases hc : c = 0
  · subst hc
    exact ⟨rfl, (some.inj h).symm⟩
  have hn : boot.cpu c = none := by simp [boot, hc]
  rw [hn] at h
  cases h

lemma Placed.boot : Placed boot := by
  refine ⟨[], rfl, rfl, rfl, rfl, by simp, fun c c' t hc hc' => ?_⟩
  rw [(boot_cpu hc).1, (boot_cpu hc').1]

lemma Placed.ok (h : Placed s) : ∃ ready sleep, QueuesOk s ready sleep := by
  obtain ⟨ready, hr⟩ := h
  refine ⟨ready, [], hr.linked, hr.tail, hr.sleep, hr.count, ?_, ?_, hr.oneCpu, by simp⟩
  · rw [append_nil]
    exact hr.linked.nodup
  rw [append_nil]
  exact hr.current

end Steps

/-- In every run without sleeps of a task, in which a slot is handed out only when its last task has
left the queue and the CPUs and no second CPU falls back to the idle task, the queues are intact. -/
theorem safe_run_queues {s : State} (h : Reached QueueSafe s) :
    ∃ ready sleep, QueuesOk s ready sleep :=
  (h.invariant Placed.boot fun hp hsa hs => hp.step hsa hs).ok

theorem safe_run_queues_switch : ∃ s, Reached QueueSafe s ∧ s.cpu 0 = some 1 ∧
    ∃ ready sleep, QueuesOk s ready sleep := by
  have h1 : Reached QueueSafe _ := .step (.create 0x2000 true true) .start
    (fun t ht => by
      obtain rfl : 1 = t := some.inj ht
      refine ⟨fun l hl => ?_, fun c hc => absurd (boot_cpu hc).2 (by decide)⟩
      rw [linked_none hl]
      simp) rfl
  have h2 := h1.step (.preempt 0 0 0x1000 ⟨0, 8, 0, 0, 0, 0, 0⟩) trivial rfl
  exact ⟨_, h2, rfl, safe_run_queues h2⟩

/-- A task that sleeps is queued a second time by its own yield: here the only task is in the sleep
queue and runs. -/
theorem sleep_breaks_queues : ∃ s, Reached (fun _ _ => True) s ∧
    ¬ ∃ ready sleep, QueuesOk s ready sleep := by
  have h1 : Reached (fun _ _ => True) _ := .step (.create 0x2000 true true) .start trivial rfl
  have h2 := h1.step (.preempt 0 0 0x1000 ⟨0, 8, 0, 0, 0, 0, 0⟩) trivial rfl
  have h3 := h2.step (.sleep 0 5 0 0x2000 ⟨0, 8, 0, 0, 0, 0, 0⟩) trivial rfl
  refine ⟨_, h3, ?_⟩
  rintro ⟨ready, sleep, hok⟩
  obtain ⟨rest, rfl, -⟩ := linked_some (a := 1) hok.sleepList
  exact hok.current 0 1 rfl (by simp)

end Elitra.Sched
