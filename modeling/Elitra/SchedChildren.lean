import Elitra.SchedLife

namespace Elitra.Sched
open Function LinkedList Signals

/-- The child list of `p` is the list `l`, which ends at the tail pointer and has as members the
tasks whose parent is `p` and that were not reaped. -/
structure ChildList (s : State) (p : ℕ) (l : List ℕ) : Prop where
  linked : Linked s.family.siblingNext (s.family.childHead p) l
  tail : s.family.childTail p = l.getLast?
  members : ∀ t, t ∈ l ↔ s.family.parent t = some p ∧ s.occupied t = true

/-- The condition under which the child lists stay intact. -/
def FamilySafe (s : State) : Op → Prop
  | .clone c _ _ stack _ space => (stack = true → space = true) ∧
      ∀ p, getCurrent s c = some p → s.occupied p = true
  | .exit c => ∀ t, getCurrent s c = some t → s.id t ≠ 0 → s.family.childHead t = none
  | .oomKill c => ∀ v, oomVictim s c = some v →
      s.family.childHead v = none ∨ v ≠ 1 ∧ s.family.childHead 1 ≠ none
  | .waitpid c pid _ _ _ _ => ∀ t child, getCurrent s c = some t →
      waitTarget s t pid = some (some child) → s.state child = .exited →
      s.family.childHead child = none
  | .resume c _ _ _ => ∀ t child, getCurrent s c = some t → s.waitFor t = some (child, true) →
      s.state child = .exited →
      s.family.parent child = some t ∧ s.family.childHead child = none
  | _ => True

section Steps

/-- The invariant: complete child lists, and ids of free slots only in the pool. -/
def Related (s : State) : Prop :=
  (∃ kids, Kin True (fun _ => True) s.family s.occupied kids) ∧ IdsOk s.ids s.occupied s.id

variable {s s' : State} {t c : ℕ}

section Calls

variable (h : Related s)
include h

lemma Related.same (hs : SameLife s s') : Related s' := by
  unfold Related
  rw [hs.family, hs.ids, hs.id, hs.occupied]
  exact h

lemma Related.lost (hs : IdLost s s') : Related s' := by
  unfold Related
  rw [hs.family, hs.id, hs.occupied]
  exact ⟨h.1, hs.ids h.2⟩

lemma Related.born {fpu : Bool} {k : ℕ} {s1 : State} (hb : Born s s1 none fpu t k)
    (hf : s'.family = s1.family) (hids : s'.ids = s1.ids) (hid : s'.id = s1.id)
    (hocc : s'.occupied = s1.occupied) : Related s' := by
  obtain ⟨⟨kids, hkin⟩, hok⟩ := h
  have hh := hb.handed hok
  unfold Related
  rw [hf, hids, hid, hocc, hb.family, hb.id, hb.occupied]
  exact ⟨⟨_, hkin.born hh.slot none fun _ => rfl⟩, hh.setup⟩

lemma Related.creates {stack fpu : Bool} (hc : Creates s stack fpu s') : Related s' := by
  cases hc with
  | lost hn => exact h.lost (newTask_none hn)
  | stopped _ hn => exact h.born (newTask_some hn).1 rfl rfl rfl rfl
  | queued _ hn => exact h.born (newTask_some hn).1 rfl rfl rfl rfl

lemma Related.createIdle (c : ℕ) : Related (krustSchedCreateIdleForCpu s c) := by
  obtain ⟨⟨kids, hkin⟩, hok⟩ := h
  obtain ⟨hf, -, hid, hocc⟩ := allocTaskId_rest s
  obtain ⟨hids, hsl⟩ := hok.alloc
  unfold krustSchedCreateIdleForCpu
  split
  · rename_i hs
    rw [hs] at hf hid hocc hids
    unfold Related
    rw [hf, hid, hocc]
    exact ⟨⟨kids, hkin⟩, hids⟩
  rename_i s1 t hs
  rw [hs] at hf hid hocc hids hsl
  have hh := hsl t rfl
  unfold Related
  dsimp only at hf hid hocc hh ⊢
  rw [hf, hid, hocc]
  exact ⟨⟨_, hkin.born hh.slot none fun _ => rfl⟩, hh.setup⟩

lemma Related.clone {rsp : ℕ} {vm stack fpu space : Bool}
    (hsp : stack = true → space = true) (hocc : ∀ p, getCurrent s c = some p → s.occupied p = true) :
    Related (krustSchedClone s c rsp vm stack fpu space) := by
  unfold krustSchedClone
  split
  · exact h
  rename_i p hp
  split
  · rename_i hnew
    exact h.lost (newTask_none hnew)
  rename_i s1 t k hnew
  obtain ⟨hb, hst⟩ := newTask_some hnew
  rw [hsp hst, if_neg (by simp)]
  obtain ⟨⟨kids, hkin⟩, hok⟩ := h
  have hh := hb.handed hok
  have hset := hkin.born hh.slot none fun _ => rfl
  have hadd : Kin True (fun _ => True) ((s.family.fresh t none).addChild p t) _ _ := hset.addChild
    (fun q hmem => by
      by_cases hqt : q = t
      · rw [hqt, update_self] at hmem
        cases hmem
      rw [update_of_ne hqt] at hmem
      exact hkin.not_mem hh.slot trivial hmem)
    (update_self t true s.occupied)
    (fun _ => by
      by_cases hpt : p = t
      · rw [hpt, update_self]
      rw [update_of_ne hpt]
      exact hocc p hp)
  rw [← addChild_fresh s.family t p (some p), ← hb.family, ← hb.occupied] at hadd
  refine ⟨⟨_, hadd⟩, ?_⟩
  have hs := hh.setup
  rw [← hb.id, ← hb.occupied] at hs
  exact hs

lemma Related.exit (hs : krustSchedExit s c = some s')
    (hsf : ∀ t, getCurrent s c = some t → s.id t ≠ 0 → s.family.childHead t = none) :
    Related s' := by
  rcases exit_life hs with hsa | ⟨t, children, ht, hid, hc, hsa⟩
  · exact h.same hsa
  obtain ⟨⟨kids, hkin⟩, hok⟩ := h
  refine Related.same ?_ hsa
  exact ⟨⟨_, hkin.exit hc fun _ => hsf t ht hid⟩, hok⟩

end Calls

lemma Related.reap {p child : ℕ} {kids : ℕ → List ℕ}
    (hkin : Kin True (fun _ => True) s.family s.occupied kids) (hok : IdsOk s.ids s.occupied s.id)
    (hmem : child ∈ kids p) (hb : s.family.childHead child = none)
    (hs : reap s p child = some s') : Related s' := by
  unfold Sched.reap at hs
  obtain ⟨f, hf, rfl⟩ := Option.map_eq_some_iff.mp hs
  have hnil : kids child = [] := linked_none (hb ▸ hkin.linked child trivial)
  exact ⟨⟨_, hkin.removeChild hmem hf fun _ => hnil⟩, hok.recycle (hkin.occupied p child trivial hmem)⟩

lemma Related.reapSame {s1 : State} {child : ℕ} (h : Related s) (hsa : SameLife s s1)
    (hp : ∀ kids, Kin True (fun _ => True) s.family s.occupied kids → child ∈ kids t)
    (hb : s.family.childHead child = none) (hs : Sched.reap s1 t child = some s') : Related s' := by
  obtain ⟨⟨kids, hkin⟩, hok⟩ := h
  have hmem := hp kids hkin
  rw [← hsa.family, ← hsa.occupied] at hkin
  rw [← hsa.ids, ← hsa.occupied, ← hsa.id] at hok
  rw [← hsa.family] at hb
  exact Related.reap hkin hok hmem hb hs

lemma Related.oomKill (h : Related s) (hs : krustOomKill s c = some s')
    (hsa : ∀ v, oomVictim s c = some v →
      s.family.childHead v = none ∨ v ≠ 1 ∧ s.family.childHead 1 ≠ none) : Related s' := by
  rcases oomKill_life hs with rfl | ⟨v, children, hv, hc, rfl⟩
  · exact h
  obtain ⟨⟨kids, hkin⟩, hok⟩ := h
  obtain ⟨kids', hkin', -⟩ := hkin.oom hc (hsa v hv)
  obtain ⟨hf, hids, hid, hocc⟩ := eagerCleanupTask_life { s with
    state := update s.state v .exited
    family := (s.family.adopt children).dropChildren v } v
  unfold Related
  rw [hf, hids, hid, hocc]
  exact ⟨⟨kids', hkin'⟩, hok⟩

lemma Related.step (h : Related s) {op : Op} (hsf : FamilySafe s op) (hs : op.exec s = some s') :
    Related s' := by
  cases op with
  | create => cases hs; exact h.creates (create_creates ..)
  | createElf => cases hs; exact h.creates (createElf_creates ..)
  | createInit => cases hs; exact h.creates (createInit_creates ..)
  | createIdle c => cases hs; exact h.createIdle c
  | clone c rsp vm stack fpu space => cases hs; exact h.clone hsf.1 hsf.2
  | preempt c now frame r => exact h.same (preempt_life hs)
  | yield c now frame r => exact h.same (yield_life hs)
  | sleep c target now frame r => exact h.same (sleep_life hs)
  | exit c => exact h.exit hs hsf
  | waitpid c pid wnohang now frame r =>
    rcases waitpid_life hs with hsa | ⟨t, child, ht, hta, he, s1, hsa, hr⟩
    · exact h.same hsa
    refine h.reapSame hsa (fun kids hkin => ?_) (hsf t child ht hta he) hr
    rcases waitTarget_child (hkin.linked t trivial) hta with hp | hmem
    · exact hkin.complete trivial t child trivial hp
    · exact hmem
  | join c tid now frame r => exact h.same (join_life hs)
  | resume c now frame r =>
    rcases resume_life hs with hsa | ⟨t, child, ht, hw, he, s1, hsa, hr⟩
    · exact h.same hsa
    obtain ⟨hp, hb⟩ := hsf t child ht hw he
    exact h.reapSame hsa (fun kids hkin => hkin.complete trivial t child trivial hp) hb
      hr
  | kill c pid sig => cases hs; exact h.same (kill_life s c pid sig)
  | signals c r => cases hs; exact h.same (deliver_life s c r)
  | oomKill c => exact h.oomKill hs hsf
  | fault c =>
    cases hs
    unfold countPage
    split <;> exact h

lemma boot_occupied {t : ℕ} (h : boot.occupied t = true) : t = 0 := by
  by_contra hne
  have hf : boot.occupied t = false := by simp [boot, hne]
  rw [hf] at h
  cases h

lemma boot_ids : IdsOk boot.ids boot.occupied boot.id := by
  refine ⟨List.nodup_nil, fun t ht => ?_, fun t ht => ?_, fun t ht => ?_⟩
  · cases ht
  · by_contra hne
    rw [Bool.not_eq_false] at hne
    have hpos : 1 ≤ t := ht
    rw [boot_occupied hne] at hpos
    omega
  rw [boot_occupied ht]
  rfl

lemma boot_kin (full : Prop) : Kin full (fun _ => True) boot.family boot.occupied fun _ => [] :=
  ⟨fun _ _ => rfl, fun _ _ => rfl, fun _ _ _ h => (by cases h), fun _ _ _ h => (by cases h),
    fun _ _ _ _ h => (by cases h), fun _ _ _ _ => rfl⟩

end Steps

/-- In every run in which a fork completes, a task exits without children, and what the OOM killer
and `waitpid` take apart is whole, every child list is intact. -/
theorem safe_run_children {s : State} (h : Reached FamilySafe s) (p : ℕ) : ∃ l, ChildList s p l := by
  have hr : Related s :=
    h.invariant ⟨⟨_, boot_kin True⟩, boot_ids⟩ fun hp hsa hs => hp.step hsa hs
  obtain ⟨⟨kids, hkin⟩, -⟩ := hr
  refine ⟨kids p, hkin.linked p trivial, hkin.tail p trivial, fun t => ⟨fun ht => ?_, fun ht => ?_⟩⟩
  · exact ⟨hkin.parent p t trivial ht, hkin.occupied p t trivial ht⟩
  · exact hkin.complete trivial p t trivial ht.1

theorem safe_run_children_fork : ∃ s, Reached FamilySafe s ∧ s.family.parent 2 = some 1 ∧
    ∃ l, ChildList s 1 l := by
  have h1 : Reached FamilySafe _ := .step (.createElf 0x2000 true true none) .start trivial rfl
  have h2 := h1.step (.preempt 0 0 0x1000 ⟨0, 8, 0, 0, 0, 0, 0⟩) trivial rfl
  have h3 := h2.step (.clone 0 0x3000 false true true true)
    ⟨fun _ => rfl, fun p hp => by
      obtain rfl : 1 = p := Option.some.inj hp
      rfl⟩ rfl
  exact ⟨_, h3, rfl, safe_run_children h3 1⟩

/-- The child of an exiting task names the idle task as its parent and is in no list. -/
theorem exit_loses_child : ∃ s, Reached (fun _ _ => True) s ∧ ¬ ∃ l, ChildList s 0 l := by
  have h1 : Reached (fun _ _ => True) _ :=
    .step (.createElf 0x2000 true true none) .start trivial rfl
  have h2 := h1.step (.preempt 0 0 0x1000 ⟨0, 8, 0, 0, 0, 0, 0⟩) trivial rfl
  have h3 := h2.step (.clone 0 0x3000 false true true true) trivial rfl
  have h4 := h3.step (.exit 0) trivial rfl
  refine ⟨_, h4, ?_⟩
  rintro ⟨l, hl⟩
  have hnil : l = [] := linked_none hl.linked
  have hmem := (hl.members 2).mpr ⟨rfl, rfl⟩
  rw [hnil] at hmem
  cases hmem

end Elitra.Sched
