import Elitra.SchedLife

namespace Elitra.Sched
open Function Signals

/-- A step keeps the pending signals of all tasks but those in `lost`, and raises signals only for
tasks whose id was handed out. -/
structure SigStep (s s' : State) (lost : ℕ → Prop) : Prop where
  next : s.ids.nextId ≤ s'.ids.nextId
  kept : ∀ u sig, ¬ lost u → (s.sig u).pending sig = true → (s'.sig u).pending sig = true
  low : ∀ u sig, (s'.sig u).pending sig = true →
    (s.sig u).pending sig = true ∨ u < s'.ids.nextId

/-- The tasks that can lose a pending signal in a step: the one it delivers to, and the one that had
the slot of a new task. -/
def Op.loses (s : State) : Op → ℕ → Prop
  | .create .. | .createElf .. | .createInit .. | .createIdle _ | .clone .. =>
    fun u => (allocTaskId s).2 = some u
  | .preempt c .. | .yield c .. | .sleep c .. | .join c .. | .resume c .. | .signals c _ =>
    fun u => getCurrent s c = some u
  | .waitpid c _ wnohang .. => fun u => wnohang = false ∧ getCurrent s c = some u
  | _ => fun _ => False

variable {l : List ℕ}

section Delivery

variable {g : Sig} {r : Regs} {sig x : ℕ}

/-- A signal with a user handler that can be delivered. -/
structure Handled (g : Sig) (sig : ℕ) : Prop where
  pos : 0 < sig
  lt : sig < nsig
  pending : g.pending sig = true
  unblocked : g.blocked sig = false
  handler : 2 ≤ g.handler sig

lemma clear_pending_of_ne (h : sig ≠ x) : (g.clear x).pending sig = g.pending sig := by
  unfold Sig.clear
  exact update_of_ne h _ _

lemma pending_of_clear (h : (g.clear x).pending sig = true) : g.pending sig = true := by
  by_cases hsig : sig = x
  · have hs : (g.clear x).pending x = false := by
      unfold Sig.clear
      exact update_self ..
    rw [hsig, hs] at h
    cases h
  · rwa [clear_pending_of_ne hsig] at h

lemma deliverLoop_pending (h : ((deliverLoop r l g).1).pending sig = true) :
    g.pending sig = true := by
  induction l generalizing g with
  | nil => exact h
  | cons x l ih =>
    rw [deliverLoop] at h
    split at h
    · exact ih h
    split at h
    · exact ih h
    split at h
    · exact pending_of_clear (ih h)
    split at h
    · split at h
      · exact h
      · exact pending_of_clear (ih h)
    split at h
    · exact h
    · exact pending_of_clear h

/-- A handled signal stays pending unless it is the one whose handler is entered. -/
lemma deliverLoop_kept (h : Handled g sig) :
    ((deliverLoop r l g).1).pending sig = true ∨ (deliverLoop r l g).2 = .enters sig := by
  induction l generalizing g with
  | nil => exact .inl h.pending
  | cons x l ih =>
    -- Clearing an ignored signal leaves a handled one as it is.
    have hc : g.handler x < 2 → Handled (g.clear x) sig := by
      intro hx
      have hne : sig ≠ x := fun heq => by
        have := h.handler
        rw [heq] at this
        omega
      refine ⟨h.pos, h.lt, ?_, h.unblocked, h.handler⟩
      rw [clear_pending_of_ne hne]
      exact h.pending
    rw [deliverLoop]
    split
    · exact ih h
    split
    · exact ih h
    split
    · rename_i hone
      exact ih (hc (by omega))
    split
    · rename_i hz
      split
      · exact .inl h.pending
      · exact ih (hc (by omega))
    split
    · exact .inl h.pending
    by_cases hne : sig = x
    · exact .inr (by rw [hne])
    refine .inl ?_
    rw [clear_pending_of_ne hne]
    exact h.pending

end Delivery

variable {reaps : Bool} {pid : ℤ}

section Steps

variable {s s' s₁ : State} {lost : ℕ → Prop} {c : ℕ}

lemma SigStep.of_eq (hsig : s'.sig = s.sig) (hids : s'.ids.nextId = s.ids.nextId) :
    SigStep s s' lost := by
  refine ⟨hids.ge, fun u sig _ h => ?_, fun u sig h => .inl ?_⟩
  · rw [hsig]
    exact h
  · rwa [hsig] at h

lemma SigStep.of_update {t : ℕ} {g : Sig} (hsig : s'.sig = update s.sig t g)
    (hids : s'.ids.nextId = s.ids.nextId) (hl : lost t)
    (hg : ∀ sig, g.pending sig = true → (s.sig t).pending sig = true) : SigStep s s' lost := by
  refine ⟨hids.ge, fun u sig hu hp => ?_, fun u sig hp => .inl ?_⟩
  · rwa [hsig, update_of_ne fun heq : u = t => hu (heq ▸ hl)]
  rw [hsig] at hp
  by_cases hut : u = t
  · rw [hut, update_self] at hp
    exact hut ▸ hg sig hp
  · rwa [update_of_ne hut] at hp

lemma SigStep.mono {lost' : ℕ → Prop} (h : SigStep s s' lost) (hlo : ∀ u, lost u → lost' u) :
    SigStep s s' lost' :=
  ⟨h.next, fun u sig hu => h.kept u sig fun hl => hu (hlo u hl), h.low⟩

lemma SigStep.trans (h : SigStep s s₁ lost) (h' : SigStep s₁ s' lost) : SigStep s s' lost := by
  refine ⟨h.next.trans h'.next, fun u sig hu hp => h'.kept u sig hu (h.kept u sig hu hp),
    fun u sig hp => ?_⟩
  rcases h'.low u sig hp with hp | hlt
  · exact (h.low u sig hp).imp_right fun hlt => hlt.trans_le h'.next
  · exact .inr hlt

lemma deliver_sig (s : State) (c : ℕ) (r : Regs) :
    SigStep s (deliver s c r) fun u => getCurrent s c = some u := by
  unfold deliver
  split
  · exact .of_eq rfl rfl
  rename_i t ht
  have hs : ∀ st, SigStep s { s with
      sig := update s.sig t (deliverSignals (s.sig t) r).1, state := st }
      fun u => getCurrent s c = some u :=
    fun st => .of_update rfl rfl ht fun _ => deliverLoop_pending
  dsimp only
  split <;> exact hs _

lemma switchAway_sig (s : State) (c prev frame : ℕ) (idle : Bool) :
    (switchAway s c prev frame idle).sig = s.sig := by
  unfold switchAway
  dsimp only
  split
  · split <;> rfl
  · split <;> rfl

lemma wakeLoop_sig {now fuel : ℕ} {prev curr : Option ℕ}
    (h : wakeLoop now fuel prev curr s = some s') :
    s'.sig = s.sig ∧ s'.cpu = s.cpu ∧ s'.halted = s.halted := by
  induction fuel generalizing prev curr s with
  | zero =>
    cases curr with
    | none => cases h; exact ⟨rfl, rfl, rfl⟩
    | some t => cases h
  | succ fuel ih =>
    cases curr with
    | none => cases h; exact ⟨rfl, rfl, rfl⟩
    | some t =>
      rw [wakeLoop] at h
      split at h
      · obtain ⟨hsig, hcpu, hh⟩ := ih h
        exact ⟨hsig, hcpu, hh⟩
      · exact ih h

lemma getCurrent_congr (hcpu : s'.cpu = s.cpu) (hh : s'.halted = s.halted) (c : ℕ) :
    getCurrent s' c = getCurrent s c := by
  unfold getCurrent
  rw [hcpu, hh]

variable {r : Regs}

lemma wakeDeliverSwitch_sig {now prev frame : ℕ} (idle : State → Bool)
    (h : (sleepWakeAll s now).map (fun s => switchAway (deliver s c r) c prev frame
      (idle (deliver s c r))) = some s') : SigStep s s' fun u => getCurrent s c = some u := by
  obtain ⟨s₁, hs1, rfl⟩ := Option.map_eq_some_iff.mp h
  obtain ⟨hsig, hcpu, hh⟩ := wakeLoop_sig hs1
  have hw : SigStep s s₁ fun u => getCurrent s c = some u :=
    .of_eq hsig (by rw [(wakeLoop_life hs1).ids])
  have hd := deliver_sig s₁ c r
  rw [getCurrent_congr hcpu hh] at hd
  refine (hw.trans hd).trans (.of_eq (switchAway_sig _ _ _ _ _) ?_)
  rw [(switchAway_life _ _ _ _ _).ids]

variable {now frame : ℕ}

lemma yield_sig (h : krustSchedYieldHandler s c now frame r = some s') :
    SigStep s s' fun u => getCurrent s c = some u := by
  unfold krustSchedYieldHandler at h
  split at h
  · cases h
    exact .of_eq rfl rfl
  rename_i prev _
  exact wakeDeliverSwitch_sig (fun s => s.id prev == 0) h

lemma preempt_sig (h : krustSchedPreempt s c now frame r = some s') :
    SigStep s s' fun u => getCurrent s c = some u := by
  unfold krustSchedPreempt at h
  split at h
  · cases h
    exact .of_eq rfl rfl
  rename_i prev _
  exact wakeDeliverSwitch_sig (fun s => (s.res.kstack prev).isNone) h

lemma sleep_sig {target now frame : ℕ} (h : krustSchedSleepTicks s c target now frame r = some s') :
    SigStep s s' fun u => getCurrent s c = some u := by
  unfold krustSchedSleepTicks at h
  split at h
  · cases h
    exact .of_eq rfl rfl
  split at h
  · cases h
    exact .of_eq rfl rfl
  rename_i t ht hid
  have hs : SigStep s (sleepEnqueue s t target) fun u => getCurrent s c = some u :=
    .of_eq rfl rfl
  exact hs.trans (yield_sig h)

lemma reap_sig {p child : ℕ} (h : reap s p child = some s') : s'.sig = s.sig ∧
    s'.ids.nextId = s.ids.nextId ∧ s'.state = s.state := by
  unfold reap at h
  obtain ⟨f, hf, rfl⟩ := Option.map_eq_some_iff.mp h
  refine ⟨rfl, ?_, rfl⟩
  dsimp only
  unfold Ids.recycle
  split
  · rfl
  · split <;> rfl

lemma waitStep_exited {t child : ℕ}
    (he : s.state child = .exited) (h : waitStep s c t child reaps now frame r = some s') :
    s'.sig = s.sig ∧ s'.ids.nextId = s.ids.nextId ∧ s'.state = s.state := by
  unfold waitStep at h
  rw [if_pos he] at h
  dsimp only at h
  split at h
  · obtain ⟨hsig, hids, hs⟩ := reap_sig h
    exact ⟨hsig, hids, hs⟩
  cases h
  exact ⟨rfl, rfl, rfl⟩

lemma waitStep_sig {t child : ℕ} (h : waitStep s c t child reaps now frame r = some s') :
    SigStep s s' fun u => getCurrent s c = some u := by
  by_cases he : s.state child = .exited
  · obtain ⟨hsig, hids, -⟩ := waitStep_exited he h
    exact .of_eq hsig hids
  unfold waitStep at h
  rw [if_neg he] at h
  have hw : SigStep s { s with
      state := update s.state t .waiting
      waitFor := update s.waitFor t (some (child, reaps)) }
      fun u => getCurrent s c = some u := .of_eq rfl rfl
  exact hw.trans (yield_sig h)

lemma waitpid_wnohang (h : krustSchedWaitpidFlags s c pid true now frame r = some s') :
    s'.sig = s.sig ∧ s'.ids.nextId = s.ids.nextId ∧ s'.state = s.state := by
  unfold krustSchedWaitpidFlags at h
  split at h
  · cases h
    exact ⟨rfl, rfl, rfl⟩
  split at h
  · cases h
  · cases h
    exact ⟨rfl, rfl, rfl⟩
  split at h
  · cases h
    exact ⟨rfl, rfl, rfl⟩
  rename_i hnot
  have he := not_not.mp fun hne => hnot ⟨hne, rfl⟩
  exact waitStep_exited he h

lemma waitpid_sig {wnohang : Bool}
    (h : krustSchedWaitpidFlags s c pid wnohang now frame r = some s') :
    SigStep s s' fun u => wnohang = false ∧ getCurrent s c = some u := by
  cases wnohang with
  | true =>
    obtain ⟨hsig, hids, -⟩ := waitpid_wnohang h
    exact .of_eq hsig hids
  | false =>
    unfold krustSchedWaitpidFlags at h
    split at h
    · cases h
      exact .of_eq rfl rfl
    split at h
    · cases h
    · cases h
      exact .of_eq rfl rfl
    rw [if_neg (by simp)] at h
    exact (waitStep_sig h).mono fun u hu => ⟨rfl, hu⟩

lemma join_sig {tid now frame : ℕ} (h : krustSchedThreadJoin s c tid now frame r = some s') :
    SigStep s s' fun u => getCurrent s c = some u := by
  unfold krustSchedThreadJoin at h
  split at h
  · cases h
    exact .of_eq rfl rfl
  split at h
  · cases h
    exact .of_eq rfl rfl
  · exact waitStep_sig h

lemma resume_sig (h : waitResume s c now frame r = some s') :
    SigStep s s' fun u => getCurrent s c = some u := by
  unfold waitResume at h
  split at h
  · cases h
    exact .of_eq rfl rfl
  rename_i t ht
  split at h
  · cases h
    exact .of_eq rfl rfl
  have hrun : SigStep s { s with state := update s.state t .running }
      fun u => getCurrent s c = some u := .of_eq rfl rfl
  exact hrun.trans (waitStep_sig h)

lemma exit_sig (h : krustSchedExit s c = some s') :
    s'.sig = s.sig ∧ s'.ids.nextId = s.ids.nextId := by
  unfold krustSchedExit at h
  split at h
  · cases h
    exact ⟨rfl, rfl⟩
  split at h
  · cases h
    exact ⟨rfl, rfl⟩
  obtain ⟨children, hc, rfl⟩ := Option.map_eq_some_iff.mp h
  dsimp only
  split
  · exact ⟨rfl, rfl⟩
  · split <;> exact ⟨rfl, rfl⟩

lemma oomKill_sig (h : krustOomKill s c = some s') :
    s'.sig = s.sig ∧ s'.ids.nextId = s.ids.nextId := by
  rcases oomKill_life h with rfl | ⟨v, children, hv, hc, rfl⟩
  · exact ⟨rfl, rfl⟩
  unfold eagerCleanupTask
  dsimp only
  split <;> exact ⟨rfl, rfl⟩

lemma kill_sig (s : State) (c : ℕ) (pid sig : ℤ) (lost : ℕ → Prop) :
    SigStep s (krustSchedKill s c pid sig) lost := by
  unfold krustSchedKill
  split
  · exact .of_eq rfl rfl
  split
  · exact .of_eq rfl rfl
  rename_i hpid
  dsimp only
  split
  · exact .of_eq rfl rfl
  split
  · exact .of_eq rfl rfl
  split
  · exact .of_eq rfl rfl
  have hlt : pid.toNat < s.ids.nextId := by
    by_contra hge
    exact hpid (.inr (Nat.not_lt.mp hge))
  refine ⟨le_rfl, fun u x _ hp => ?_, fun u x hp => ?_⟩
  · dsimp only
    by_cases hu : u = pid.toNat
    · rw [hu, update_self]
      unfold Sig.raise
      dsimp only
      by_cases hx : x = sig.toNat
      · rw [hx, update_self]
      rw [update_of_ne hx, ← hu]
      exact hp
    · rwa [update_of_ne hu]
  by_cases hu : u = pid.toNat
  · exact .inr (by rw [hu]; exact hlt)
  dsimp only at hp
  rw [update_of_ne hu] at hp
  exact .inl hp

end Steps

section Births

variable {s s' : State} {parent : Option ℕ} {stack fpu : Bool} {t k : ℕ}

lemma allocTaskId_sig (s : State) : (allocTaskId s).1.sig = s.sig ∧
    (allocTaskId s).1.state = s.state ∧ s.ids.nextId ≤ (allocTaskId s).1.ids.nextId := by
  have hf : ∀ i : Ids, i.nextId ≤ i.fetch.1.nextId := by
    intro i
    unfold Ids.fetch
    split
    · exact le_rfl
    · exact Nat.le_succ _
  unfold allocTaskId
  split
  · rename_i rest _
    dsimp only
    split
    · exact ⟨rfl, rfl, le_rfl⟩
    · exact ⟨rfl, rfl, hf ⟨s.ids.nextId, rest⟩⟩
  · exact ⟨rfl, rfl, hf s.ids⟩

lemma allocTaskId_slot (h : (allocTaskId s).2 = some t) :
    s.state t = .exited ∨ s.ids.nextId ≤ t := by
  have hf : ∀ i : Ids, i.fetch.2 = some t → i.nextId ≤ t := by
    intro i hi
    unfold Ids.fetch at hi
    split at hi
    · cases hi
    · exact (Option.some.inj hi).le
  unfold allocTaskId at h
  split at h
  · rename_i rest _
    dsimp only at h
    split at h
    · rename_i hid
      cases h
      exact .inl hid.2
    · exact .inr (hf ⟨s.ids.nextId, rest⟩ h)
  · exact .inr (hf s.ids h)

lemma allocTaskId_step (s : State) :
    SigStep s (allocTaskId s).1 fun u => (allocTaskId s).2 = some u := by
  obtain ⟨hsig, -, hn⟩ := allocTaskId_sig s
  refine ⟨hn, fun u sig _ hp => ?_, fun u sig hp => .inl ?_⟩
  · rwa [hsig]
  · rwa [hsig] at hp

lemma newTask_sig (s : State) (parent : Option ℕ) (stack fpu : Bool) :
    SigStep s (newTask s parent stack fpu).1 (fun u => (allocTaskId s).2 = some u) ∧
      ∀ u, (allocTaskId s).2 ≠ some u →
        (newTask s parent stack fpu).1.state u = s.state u := by
  have hst := (allocTaskId_sig s).2.1
  have ha := allocTaskId_step s
  unfold newTask
  cases hs : allocTaskId s with
  | mk s₁ slot =>
    rw [hs] at ha hst
    cases slot with
    | none => exact ⟨ha, fun u _ => by rw [hst]⟩
    | some t =>
      dsimp only
      split
      · exact ⟨ha, fun u _ => by rw [hst]⟩
      refine ⟨ha.trans (.of_update rfl rfl rfl nofun), fun u hu => ?_⟩
      have hne : u ≠ t := fun heq => hu (by rw [heq])
      unfold setupTaskCommon
      dsimp only
      rw [update_of_ne hne, hst]

lemma creates_sig {s s' : State} {stack fpu : Bool} (hc : Creates s stack fpu s') :
    SigStep s s' fun u => (allocTaskId s).2 = some u := by
  have hs := (newTask_sig s none stack fpu).1
  cases hc with
  | lost hn => rwa [hn] at hs
  | stopped _ hn =>
    rw [hn] at hs
    exact hs.trans (.of_eq rfl rfl)
  | queued _ hn =>
    rw [hn] at hs
    exact hs.trans (.of_eq rfl rfl)

lemma createIdle_sig (s : State) (c : ℕ) :
    SigStep s (krustSchedCreateIdleForCpu s c) fun u => (allocTaskId s).2 = some u := by
  have ha := allocTaskId_step s
  unfold krustSchedCreateIdleForCpu
  split
  · rename_i hs
    rw [hs] at ha ⊢
    exact ha
  rename_i t hs
  rw [hs] at ha ⊢
  exact ha.trans (.of_update rfl rfl rfl nofun)

lemma clone_sig (s : State) (c rsp : ℕ) (vm stack fpu space : Bool) :
    SigStep s (krustSchedClone s c rsp vm stack fpu space) (fun u => (allocTaskId s).2 = some u) ∧
      ∀ u, (allocTaskId s).2 ≠ some u →
        (krustSchedClone s c rsp vm stack fpu space).state u = s.state u := by
  unfold krustSchedClone
  split
  · exact ⟨.of_eq rfl rfl, fun _ _ => rfl⟩
  rename_i p hp
  obtain ⟨hnew, hst⟩ := newTask_sig s (some p) stack fpu
  split
  · rename_i hs
    rw [hs] at hnew hst
    exact ⟨hnew, hst⟩
  rename_i s₁ t k hs
  have hsl := newTask_slot hs
  rw [hs] at hnew hst
  split
  · exact ⟨hnew.trans (.of_eq rfl rfl), hst⟩
  exact ⟨hnew.trans (.of_update rfl rfl hsl nofun), hst⟩

end Births

lemma Op.sigStep {s s' : State} {op : Op} (h : op.exec s = some s') :
    SigStep s s' (op.loses s) := by
  cases op with
  | create => cases h; exact creates_sig (create_creates ..)
  | createElf => cases h; exact creates_sig (createElf_creates ..)
  | createInit => cases h; exact creates_sig (createInit_creates ..)
  | createIdle c => cases h; exact createIdle_sig s c
  | clone c rsp vm stack fpu space => cases h; exact (clone_sig s c rsp vm stack fpu space).1
  | preempt c now frame r => exact preempt_sig h
  | yield c now frame r => exact yield_sig h
  | sleep c target now frame r => exact sleep_sig h
  | exit c => exact .of_eq (exit_sig h).1 (exit_sig h).2
  | waitpid c pid wnohang now frame r => exact waitpid_sig h
  | join c tid now frame r => exact join_sig h
  | resume c now frame r => exact resume_sig h
  | kill c pid sig => cases h; exact kill_sig s c pid sig _
  | signals c r => cases h; exact deliver_sig s c r
  | oomKill c => exact .of_eq (oomKill_sig h).1 (oomKill_sig h).2
  | fault c =>
    cases h
    unfold countPage
    split <;> exact .of_eq rfl rfl

end Elitra.Sched
