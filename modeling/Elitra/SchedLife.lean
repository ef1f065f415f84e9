import Elitra.SchedFamily

namespace Elitra.Sched
open Function LinkedList List Option Signals

/-- The parts of the state that only the life cycle of tasks changes. -/
structure SameLife (s s' : State) : Prop where
  family : s'.family = s.family
  ids : s'.ids = s.ids
  res : s'.res = s.res
  id : s'.id = s.id
  occupied : s'.occupied = s.occupied

variable {curr : Option ℕ} {pid : ℤ}

section Same

variable {s s' s₁ : State} {c : ℕ}

lemma SameLife.refl (s : State) : SameLife s s := ⟨rfl, rfl, rfl, rfl, rfl⟩

lemma SameLife.trans (h : SameLife s s₁) (h' : SameLife s₁ s') : SameLife s s' :=
  ⟨h'.family.trans h.family, h'.ids.trans h.ids, h'.res.trans h.res, h'.id.trans h.id,
    h'.occupied.trans h.occupied⟩

lemma deliver_life (s : State) (c : ℕ) (r : Regs) : SameLife s (deliver s c r) := by
  unfold deliver
  split
  · exact .refl s
  dsimp only
  split <;> exact ⟨rfl, rfl, rfl, rfl, rfl⟩

lemma switchAway_life (s : State) (c prev frame : ℕ) (idle : Bool) :
    SameLife s (switchAway s c prev frame idle) := by
  unfold switchAway
  dsimp only
  split
  · split <;> exact ⟨rfl, rfl, rfl, rfl, rfl⟩
  · split <;> exact ⟨rfl, rfl, rfl, rfl, rfl⟩

lemma wakeLoop_life {now fuel : ℕ} {prev : Option ℕ}
    (h : wakeLoop now fuel prev curr s = some s') : SameLife s s' := by
  induction fuel generalizing prev curr s with
  | zero =>
    cases curr with
    | none => cases h; exact .refl _
    | some t => cases h
  | succ fuel ih =>
    cases curr with
    | none => cases h; exact .refl _
    | some t =>
      rw [wakeLoop] at h
      split at h
      · have hw : SameLife s (wake s prev t) := ⟨rfl, rfl, rfl, rfl, rfl⟩
        exact hw.trans (ih h)
      · exact ih h

variable {now frame : ℕ} {r : Regs}

lemma yield_life (h : krustSchedYieldHandler s c now frame r = some s') :
    SameLife s s' := by
  unfold krustSchedYieldHandler at h
  split at h
  · cases h
    exact .refl s
  obtain ⟨s₁, hs1, rfl⟩ := map_eq_some_iff.mp h
  exact ((wakeLoop_life hs1).trans (deliver_life s₁ c r)).trans (switchAway_life _ _ _ _ _)

lemma preempt_life (h : krustSchedPreempt s c now frame r = some s') :
    SameLife s s' := by
  unfold krustSchedPreempt at h
  split at h
  · cases h
    exact .refl s
  obtain ⟨s₁, hs1, rfl⟩ := map_eq_some_iff.mp h
  exact ((wakeLoop_life hs1).trans (deliver_life s₁ c r)).trans (switchAway_life _ _ _ _ _)

lemma sleep_life {target now frame : ℕ}
    (h : krustSchedSleepTicks s c target now frame r = some s') : SameLife s s' := by
  unfold krustSchedSleepTicks at h
  split at h
  · cases h
    exact .refl s
  split at h
  · cases h
    exact .refl s
  have hs : ∀ t, SameLife s (sleepEnqueue s t target) := fun t => ⟨rfl, rfl, rfl, rfl, rfl⟩
  exact (hs _).trans (yield_life h)

lemma kill_life (s : State) (c : ℕ) (pid sig : ℤ) : SameLife s (krustSchedKill s c pid sig) := by
  unfold krustSchedKill
  dsimp only
  split_ifs <;> exact ⟨rfl, rfl, rfl, rfl, rfl⟩

lemma waitStep_life {t child : ℕ} {reaps : Bool}
    (h : waitStep s c t child reaps now frame r = some s') :
    SameLife s s' ∨ reaps = true ∧ s.state child = .exited ∧
      ∃ s₁, SameLife s s₁ ∧ reap s₁ t child = some s' := by
  unfold waitStep at h
  split at h
  · rename_i he
    dsimp only at h
    split at h
    · rename_i hr
      refine .inr ⟨hr, he, _, ?_, h⟩
      exact ⟨rfl, rfl, rfl, rfl, rfl⟩
    cases h
    exact .inl ⟨rfl, rfl, rfl, rfl, rfl⟩
  have hw : SameLife s { s with
      state := update s.state t .waiting
      waitFor := update s.waitFor t (some (child, reaps)) } := ⟨rfl, rfl, rfl, rfl, rfl⟩
  exact .inl (hw.trans (yield_life h))

lemma waitpid_life {wnohang : Bool}
    (h : krustSchedWaitpidFlags s c pid wnohang now frame r = some s') :
    SameLife s s' ∨ ∃ t child, getCurrent s c = some t ∧ waitTarget s t pid = some (some child) ∧
      s.state child = .exited ∧ ∃ s₁, SameLife s s₁ ∧ reap s₁ t child = some s' := by
  unfold krustSchedWaitpidFlags at h
  split at h
  · cases h
    exact .inl (.refl s)
  rename_i t ht
  split at h
  · cases h
  · cases h
    exact .inl (.refl s)
  rename_i child hc
  split at h
  · cases h
    exact .inl (.refl s)
  rcases waitStep_life h with hs | ⟨-, he, hr⟩
  · exact .inl hs
  · exact .inr ⟨t, child, ht, hc, he, hr⟩

lemma join_life {tid now frame : ℕ}
    (h : krustSchedThreadJoin s c tid now frame r = some s') : SameLife s s' := by
  unfold krustSchedThreadJoin at h
  split at h
  · cases h
    exact .refl s
  split at h
  · cases h
    exact .refl s
  rcases waitStep_life h with hs | ⟨hr, -⟩
  · exact hs
  · cases hr

lemma resume_life (h : waitResume s c now frame r = some s') :
    SameLife s s' ∨ ∃ t child, getCurrent s c = some t ∧ s.waitFor t = some (child, true) ∧
      s.state child = .exited ∧ ∃ s₁, SameLife s s₁ ∧ reap s₁ t child = some s' := by
  unfold waitResume at h
  split at h
  · cases h
    exact .inl (.refl s)
  rename_i t ht
  split at h
  · cases h
    exact .inl (.refl s)
  rename_i child reaps hw
  have hrun : SameLife s { s with state := update s.state t .running } :=
    ⟨rfl, rfl, rfl, rfl, rfl⟩
  rcases waitStep_life h with hsa | ⟨rfl, he, s₁, hs1, hr⟩
  · exact .inl (hrun.trans hsa)
  refine .inr ⟨t, child, ht, hw, ?_, s₁, hrun.trans hs1, hr⟩
  dsimp only at he
  by_cases hct : child = t
  · rw [hct, update_self] at he
    cases he
  · rwa [update_of_ne hct] at he

end Same

section Ids

/-- Ids in the pool, and ids not handed out yet, belong to slots without a task. -/
structure IdsOk (i : Ids) (occ : ℕ → Bool) (id : ℕ → ℕ) : Prop where
  nodup : i.freeIds.Nodup
  free : ∀ t ∈ i.freeIds, occ t = false ∧ t < i.nextId
  unused : ∀ t, i.nextId ≤ t → occ t = false
  own : ∀ t, occ t = true → id t = t

variable {s s' : State} {i : Ids} {occ : ℕ → Bool} {id : ℕ → ℕ} {t : ℕ}

/-- The slot an allocation hands out has no task and is then in no pool. -/
structure Handed (i' : Ids) (occ : ℕ → Bool) (id : ℕ → ℕ) (t : ℕ) : Prop where
  ids : IdsOk i' occ id
  slot : occ t = false
  out : t ∉ i'.freeIds
  used : t < i'.nextId

lemma IdsOk.fetch (h : IdsOk i occ id) : IdsOk i.fetch.1 occ id ∧
    ∀ t, i.fetch.2 = some t → Handed i.fetch.1 occ id t := by
  unfold Ids.fetch
  split
  · exact ⟨h, fun t ht => by cases ht⟩
  have hn : IdsOk { i with nextId := i.nextId + 1 } occ id := by
    refine ⟨h.nodup, fun t ht => ?_, fun t ht => h.unused t (by dsimp only at ht; omega), h.own⟩
    obtain ⟨hocc, hlt⟩ := h.free t ht
    exact ⟨hocc, by dsimp only; omega⟩
  refine ⟨hn, fun t ht => ?_⟩
  obtain rfl : i.nextId = t := some.inj ht
  refine ⟨hn, h.unused i.nextId le_rfl, fun hmem => ?_, by simp⟩
  have := (h.free _ hmem).2
  omega

lemma IdsOk.tail {rest : List ℕ} (h : IdsOk i occ id) (hp : i.freeIds = t :: rest) :
    IdsOk { i with freeIds := rest } occ id := by
  have hn := h.nodup
  rw [hp] at hn
  refine ⟨(nodup_cons.mp hn).2, fun u hu => h.free u ?_, h.unused, h.own⟩
  rw [hp]
  exact mem_cons_of_mem _ hu

lemma IdsOk.alloc (h : IdsOk s.ids s.occupied s.id) :
    IdsOk (allocTaskId s).1.ids s.occupied s.id ∧
      ∀ t, (allocTaskId s).2 = some t → Handed (allocTaskId s).1.ids s.occupied s.id t := by
  unfold allocTaskId
  split
  · rename_i t rest hp
    have hr := h.tail hp
    dsimp only
    split
    · refine ⟨hr, fun u hu => ?_⟩
      obtain rfl : t = u := some.inj hu
      have hn := h.nodup
      rw [hp] at hn
      obtain ⟨hocc, hlt⟩ := h.free t (by rw [hp]; exact mem_cons_self ..)
      exact ⟨hr, hocc, (nodup_cons.mp hn).1, hlt⟩
    · exact hr.fetch
  · exact h.fetch

lemma Handed.setup (h : Handed i occ id t) :
    IdsOk i (update occ t true) (update id t t) := by
  have hne : ∀ u ∈ i.freeIds, u ≠ t := fun u hu hut => h.out (hut ▸ hu)
  refine ⟨h.ids.nodup, fun u hu => ?_, fun u hu => ?_, fun u hu => ?_⟩
  · rw [update_of_ne (hne u hu)]
    exact h.ids.free u hu
  · have hut : u ≠ t := fun hut => by
      have := h.used
      omega
    rw [update_of_ne hut]
    exact h.ids.unused u hu
  by_cases hut : u = t
  · rw [hut, update_self]
  rw [update_of_ne hut] at hu ⊢
  exact h.ids.own u hu

lemma IdsOk.recycle (h : IdsOk i occ id) (ht : occ t = true) :
    IdsOk (i.recycle (id t)) (update occ t false) id := by
  have hlt : t < i.nextId := by
    by_contra hge
    rw [h.unused t (Nat.not_lt.mp hge)] at ht
    cases ht
  have hout : t ∉ i.freeIds := fun hmem => by
    rw [(h.free t hmem).1] at ht
    cases ht
  have hd : IdsOk i (update occ t false) id := by
    refine ⟨h.nodup, fun u hu => ?_, fun u hu => ?_, fun u hu => ?_⟩
    · rw [update_of_ne fun hut : u = t => hout (hut ▸ hu)]
      exact h.free u hu
    · rw [update_of_ne fun hut : u = t => by omega]
      exact h.unused u hu
    by_cases hut : u = t
    · rw [hut, update_self] at hu
      cases hu
    rw [update_of_ne hut] at hu
    exact h.own u hu
  rw [h.own t ht]
  unfold Ids.recycle
  split
  · exact hd
  split
  · refine ⟨nodup_cons.mpr ⟨hout, h.nodup⟩, fun u hu => ?_, hd.unused, hd.own⟩
    rcases mem_cons.mp hu with rfl | hu
    · exact ⟨update_self u false occ, hlt⟩
    · exact hd.free u hu
  · exact hd

end Ids

variable {c : ℕ} {l : List ℕ}

section Births

variable {s s' : State} {parent : Option ℕ} {stack fpu : Bool} {t k : ℕ}

lemma allocTaskId_rest (s : State) :
    (allocTaskId s).1.family = s.family ∧ (allocTaskId s).1.res = s.res ∧
      (allocTaskId s).1.id = s.id ∧ (allocTaskId s).1.occupied = s.occupied := by
  unfold allocTaskId
  split
  · dsimp only
    split <;> exact ⟨rfl, rfl, rfl, rfl⟩
  · exact ⟨rfl, rfl, rfl, rfl⟩

/-- A creation that got no id or no kernel stack has lost an id at most. -/
structure IdLost (s s' : State) : Prop where
  family : s'.family = s.family
  res : s'.res = s.res
  id : s'.id = s.id
  occupied : s'.occupied = s.occupied
  ids : IdsOk s.ids s.occupied s.id → IdsOk s'.ids s.occupied s.id

lemma newTask_none (h : newTask s parent stack fpu = (s', none)) : IdLost s s' := by
  obtain ⟨hf, hres, hid, hocc⟩ := allocTaskId_rest s
  have hids : IdsOk s.ids s.occupied s.id → IdsOk (allocTaskId s).1.ids s.occupied s.id :=
    fun h => h.alloc.1
  unfold newTask at h
  split at h
  · rename_i s₁ hs
    rw [hs] at hf hres hid hocc hids
    cases h
    exact ⟨hf, hres, hid, hocc, hids⟩
  rename_i s₁ t hs
  rw [hs] at hf hres hid hocc hids
  split at h
  · cases h
    exact ⟨hf, hres, hid, hocc, hids⟩
  · cases h

/-- The resources after the kernel stack and, if there is one, the FPU frame were taken. -/
def Resources.equip (r : Resources) (t : ℕ) (fpu : Bool) : Resources :=
  { r with
    kstack := update r.kstack t (some r.fresh)
    fpuState := if fpu then update r.fpuState t (some (r.fresh + 1)) else r.fpuState
    fresh := r.fresh + (if fpu then 2 else 1) }

/-- A creation that got both has set up the task. -/
structure Born (s s' : State) (parent : Option ℕ) (fpu : Bool) (t k : ℕ) : Prop where
  family : s'.family = s.family.fresh t parent
  res : s'.res = s.res.equip t fpu
  stack : k = s.res.fresh
  id : s'.id = update s.id t t
  occupied : s'.occupied = update s.occupied t true
  handed : IdsOk s.ids s.occupied s.id → Handed s'.ids s.occupied s.id t

lemma newTask_some (h : newTask s parent stack fpu = (s', some (t, k))) :
    Born s s' parent fpu t k ∧ stack = true := by
  obtain ⟨hf, hres, hid, hocc⟩ := allocTaskId_rest s
  have hids : IdsOk s.ids s.occupied s.id → ∀ t, (allocTaskId s).2 = some t →
      Handed (allocTaskId s).1.ids s.occupied s.id t := fun h => h.alloc.2
  unfold newTask at h
  split at h
  · cases h
  rename_i s₁ u hs
  rw [hs] at hf hres hid hocc hids
  cases hst : stack with
  | false =>
    rw [hst, if_pos (by rfl)] at h
    cases h
  | true =>
    rw [hst, if_neg (by simp)] at h
    simp only [Prod.mk.injEq, some.injEq] at h
    obtain ⟨rfl, rfl, rfl⟩ := h
    dsimp only at hf hres hid hocc hids
    refine ⟨⟨?_, ?_, ?_, ?_, ?_, fun hok => hids hok u rfl⟩, rfl⟩
    · unfold setupTaskCommon Family.fresh
      rw [← hf]
    · unfold setupTaskCommon Resources.equip Resources.take
      rw [← hres]
      cases fpu <;> rfl
    · rw [← hres]
      rfl
    · unfold setupTaskCommon
      rw [← hid]
    unfold setupTaskCommon
    rw [← hocc]

lemma eagerCleanupTask_life (s : State) (v : ℕ) :
    (eagerCleanupTask s v).family = s.family ∧ (eagerCleanupTask s v).ids = s.ids ∧
      (eagerCleanupTask s v).id = s.id ∧ (eagerCleanupTask s v).occupied = s.occupied := by
  unfold eagerCleanupTask
  dsimp only
  split <;> exact ⟨rfl, rfl, rfl, rfl⟩

lemma oomKill_life (h : krustOomKill s c = some s') : s' = s ∨
    ∃ v children, oomVictim s c = some v ∧ s.family.children v = some children ∧
      s' = eagerCleanupTask { s with
        state := update s.state v .exited
        family := (s.family.adopt children).dropChildren v } v := by
  unfold krustOomKill at h
  split at h
  · cases h
    exact .inl rfl
  rename_i v hv
  obtain ⟨children, hc, rfl⟩ := map_eq_some_iff.mp h
  exact .inr ⟨v, children, hv, hc, rfl⟩

lemma exit_life (h : krustSchedExit s c = some s') : SameLife s s' ∨
    ∃ t children, getCurrent s c = some t ∧ s.id t ≠ 0 ∧ s.family.children t = some children ∧
      SameLife { s with family := (s.family.orphan children).dropChildren t } s' := by
  unfold krustSchedExit at h
  split at h
  · cases h
    exact .inl (.refl s)
  rename_i t ht
  split at h
  · cases h
    exact .inl (.refl s)
  rename_i hid
  obtain ⟨children, hc, rfl⟩ := map_eq_some_iff.mp h
  refine .inr ⟨t, children, ht, hid, hc, ?_⟩
  dsimp only
  split
  · exact ⟨rfl, rfl, rfl, rfl, rfl⟩
  · split <;> exact ⟨rfl, rfl, rfl, rfl, rfl⟩

lemma findExited_mem {fuel x : ℕ}
    (hl : Linked s.family.siblingNext curr l) (h : findExited s fuel curr = some (some x)) : x ∈ l := by
  induction fuel generalizing curr l with
  | zero => cases curr <;> cases h
  | succ fuel ih =>
    cases curr with
    | none => cases h
    | some a =>
      obtain ⟨l', rfl, hl'⟩ := linked_some hl
      rw [findExited] at h
      split at h
      · cases h
        exact mem_cons_self ..
      · exact mem_cons_of_mem _ (ih hl' h)

/-- A `waitpid` is about a child that names the caller as its parent, or about one in its list. -/
lemma waitTarget_child {child : ℕ} (hl : Linked s.family.siblingNext (s.family.childHead t) l)
    (h : waitTarget s t pid = some (some child)) : s.family.parent child = some t ∨ child ∈ l := by
  unfold waitTarget at h
  split at h
  · split at h
    · cases h
    split at h
    · cases h
    rename_i hp
    cases h
    exact .inl (not_not.mp hp)
  split at h
  · obtain ⟨found, hf, hor⟩ := map_eq_some_iff.mp h
    refine .inr ?_
    cases found with
    | some x =>
      cases hor
      exact findExited_mem hl hf
    | none =>
      have hh : s.family.childHead t = some child := hor
      rw [hh] at hl
      obtain ⟨l', rfl, -⟩ := linked_some hl
      exact mem_cons_self ..
  · cases h

end Births

end Elitra.Sched
