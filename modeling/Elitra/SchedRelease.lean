import Elitra.Ledger
import Elitra.SchedChildren

namespace Elitra.Sched
open Function Ledger LinkedList Option Signals

/-- What a task is given and `waitpid` takes back. -/
inductive Kind where
  | stack | fpu | space
  deriving DecidableEq, Repr

def Resources.holds (r : Resources) : Kind → ℕ → Option ℕ
  | .stack => r.kstack
  | .fpu => r.fpuState
  | .space => r.cr3

/-- Ids and resources are accounted for: an id that would be handed out is the id of no task that
was not reaped, and everything allocated for tasks is with one of them or was released once. -/
structure Accounted (s : State) : Prop where
  pool : s.ids.freeIds.Nodup
  handed : ∀ id, (allocTaskId s).2 = some id → ∀ t, s.occupied t = true → s.id t ≠ id
  once : s.res.released.Nodup
  kernel : 0 ∉ s.res.released
  live : ∀ k t x, s.occupied t = true → s.res.holds k t = some x → x ≠ 0 →
    x ∉ s.res.released ∧ ∀ k' t', s.occupied t' = true → s.res.holds k' t' = some x → k' = k ∧ t' = t
  covered : ∀ x, 0 < x → x < s.res.fresh →
    x ∈ s.res.released ∨ ∃ k t, s.occupied t = true ∧ s.res.holds k t = some x

/-- The condition under which they stay accounted for. -/
def ReleaseSafe (s : State) : Op → Prop
  | .createElf _ stack _ failure => stack = true → failure = none
  | .createInit _ stack _ failure => stack = true → failure = none
  | .clone _ _ vm stack _ space => vm = false ∧ (stack = true → space = true)
  | .oomKill c => ∀ v, oomVictim s c = some v → s.occupied v = true ∧ s.res.cr3 v ≠ some 0 ∧
      (s.family.childHead v = none ∨ v ≠ 1 ∧ s.family.childHead 1 ≠ none)
  | .waitpid c pid _ _ _ _ => ∀ t child l, getCurrent s c = some t →
      waitTarget s t pid = some (some child) → s.state child = .exited →
      Linked s.family.siblingNext (s.family.childHead t) l → child ∈ l
  | .resume c _ _ _ => ∀ t child l, getCurrent s c = some t → s.waitFor t = some (child, true) →
      s.state child = .exited →
      Linked s.family.siblingNext (s.family.childHead t) l → child ∈ l
  | _ => True

variable {t' : ℕ} {k' : Kind}

section Owners

variable {r : Resources} {occ : ℕ → Bool} {k : Kind} {t : ℕ}

/-- What the task in slot `i.2` owns; the kernel's own directory is nobody's. -/
def Resources.owner (r : Resources) (occ : ℕ → Bool) (i : Kind × ℕ) : Option ℕ :=
  if occ i.2 then (r.holds i.1 i.2).filter (· ≠ 0) else none

def Resources.put (r : Resources) (k : Kind) (t : ℕ) (x : Option ℕ) : Resources :=
  match k with
  | .stack => { r with kstack := update r.kstack t x }
  | .fpu => { r with fpuState := update r.fpuState t x }
  | .space => { r with cr3 := update r.cr3 t x }

/-- Takes the next token. -/
def Resources.grant (r : Resources) (k : Kind) (t : ℕ) : Resources :=
  r.take.1.put k t (some r.take.2)

def Resources.drop (r : Resources) (k : Kind) (t : ℕ) : Resources :=
  (r.release (r.holds k t)).put k t none

@[simp] lemma holds_put_self (r : Resources) (k : Kind) (t : ℕ) (x : Option ℕ) :
    (r.put k t x).holds k t = x := by
  cases k <;> exact update_self ..

@[simp] lemma put_fresh (r : Resources) (k : Kind) (t : ℕ) (x : Option ℕ) :
    (r.put k t x).fresh = r.fresh := by
  cases k <;> rfl

@[simp] lemma put_released (r : Resources) (k : Kind) (t : ℕ) (x : Option ℕ) :
    (r.put k t x).released = r.released := by
  cases k <;> rfl

lemma holds_put_of_ne (h : (k', t') ≠ (k, t)) (x : Option ℕ) :
    (r.put k t x).holds k' t' = r.holds k' t' := by
  have hc : k' ≠ k ∨ t' ≠ t := by
    by_contra hnot
    rw [not_or, not_not, not_not] at hnot
    exact h (by rw [hnot.1, hnot.2])
  cases k <;> cases k' <;>
    first
    | exact update_of_ne (hc.resolve_left fun hne => hne rfl) _ _
    | rfl

lemma release_eq (r : Resources) (x : Option ℕ) :
    r.release x = { r with released := x.toList ++ r.released } := by
  cases x <;> rfl

lemma holds_drop_of_ne (h : (k', t') ≠ (k, t)) : (r.drop k t).holds k' t' = r.holds k' t' := by
  unfold Resources.drop
  rw [holds_put_of_ne h, release_eq]
  cases k' <;> rfl

lemma owner_eq_none (h : occ t = false) (r : Resources) (k : Kind) : r.owner occ (k, t) = none := by
  unfold Resources.owner
  rw [h]
  rfl

lemma owner_eq_some {x : ℕ} :
    r.owner occ (k, t) = some x ↔ occ t = true ∧ r.holds k t = some x ∧ x ≠ 0 := by
  unfold Resources.owner
  cases occ t <;> simp [filter_eq_some_iff]

lemma owner_put (ht : occ t = true) (x : Option ℕ) :
    (r.put k t x).owner occ = update (r.owner occ) (k, t) (x.filter (· ≠ 0)) := by
  funext i
  by_cases hi : i = (k, t)
  · rw [hi, update_self]
    unfold Resources.owner
    rw [holds_put_self, if_pos ht]
  rw [update_of_ne hi]
  unfold Resources.owner
  rw [holds_put_of_ne hi]

lemma owner_occ (hn : ∀ k, (r.holds k t).filter (· ≠ 0) = none) (b : Bool) :
    r.owner (update occ t b) = r.owner (update occ t false) := by
  funext ⟨k, u⟩
  unfold Resources.owner
  dsimp only
  by_cases hu : u = t
  · rw [hu, hn, ite_self, ite_self]
  · rw [update_of_ne hu, update_of_ne hu]

/-- Stacks and frames are never the kernel directory, and a free slot has none. -/
def Shaped (r : Resources) (occ : ℕ → Bool) : Prop :=
  ∀ k t, k ≠ .space → r.holds k t ≠ some 0 ∧ (occ t = false → r.holds k t = none)

lemma Shaped.put (h : Shaped r occ) {x : Option ℕ} (hx : k = .space ∨ x ≠ some 0 ∧ occ t = true) :
    Shaped (r.put k t x) occ := by
  intro k' t' hk'
  by_cases hi : (k', t') = (k, t)
  · obtain ⟨rfl, rfl⟩ := Prod.mk.inj hi
    obtain ⟨hz, hocc⟩ := hx.resolve_left hk'
    rw [holds_put_self]
    exact ⟨hz, fun hf => by rw [hocc] at hf; cases hf⟩
  rw [holds_put_of_ne hi]
  exact h k' t' hk'

/-- The ledger of the tasks' resources is balanced. -/
structure ResOk (r : Resources) (occ : ℕ → Bool) : Prop where
  balanced : Balanced (r.owner occ) r.fresh r.released
  shaped : Shaped r occ

section Kept

variable (h : ResOk r occ)
include h

lemma ResOk.grant (ht : occ t = true)
    (hk : (r.holds k t).filter (· ≠ 0) = none) : ResOk (r.grant k t) occ := by
  have hpos := h.balanced.pos
  have hn : r.owner occ (k, t) = none := by
    unfold Resources.owner
    rw [hk, ite_self]
  have hf : (some r.fresh).filter (· ≠ 0) = some r.fresh := by
    simp [hpos.ne']
  have ho : (r.grant k t).owner occ = update (r.owner occ) (k, t) (some r.fresh) := by
    rw [← hf]
    exact owner_put ht _
  refine ⟨?_, ?_⟩
  · rw [ho]
    unfold Resources.grant
    rw [put_fresh, put_released]
    exact h.balanced.grant hn
  have hta : Shaped r.take.1 occ := h.shaped
  exact hta.put (.inr ⟨fun hz => hpos.ne' (some.inj hz), ht⟩)

lemma ResOk.drop (ht : occ t = true) (hk : r.holds k t ≠ some 0) :
    ResOk (r.drop k t) occ := by
  have ho : r.owner occ (k, t) = r.holds k t := by
    unfold Resources.owner
    rw [if_pos ht]
    cases hx : r.holds k t with
    | none => rfl
    | some x => simp [show x ≠ 0 from fun hz => hk (by rw [hx, hz])]
  have hd := h.balanced.drop (k, t)
  rw [ho] at hd
  unfold Resources.drop
  rw [release_eq]
  have hr : Shaped { r with released := (r.holds k t).toList ++ r.released } occ := h.shaped
  refine ⟨?_, hr.put (.inr ⟨by simp, ht⟩)⟩
  rw [owner_put ht, put_fresh, put_released]
  exact hd

lemma ResOk.stale (ht : occ t = false) (x : Option ℕ) :
    ResOk (r.put .space t x) occ := by
  refine ⟨?_, h.shaped.put (.inl rfl)⟩
  have ho : (r.put .space t x).owner occ = r.owner occ := by
    funext i
    by_cases hi : i = (.space, t)
    · rw [hi, owner_eq_none ht, owner_eq_none ht]
    unfold Resources.owner
    rw [holds_put_of_ne hi]
  rw [ho]
  exact h.balanced

lemma ResOk.occupy (ht : occ t = false)
    (hs : (r.cr3 t).filter (· ≠ 0) = none) : ResOk r (update occ t true) := by
  have hn : ∀ k, (r.holds k t).filter (· ≠ 0) = none := by
    intro k
    by_cases hk : k = .space
    · rw [hk]
      exact hs
    rw [(h.shaped k t hk).2 ht]
    rfl
  have hocc : update occ t false = occ := by rw [← ht, update_eq_self]
  refine ⟨?_, fun k u hk => ⟨(h.shaped k u hk).1, fun hu => ?_⟩⟩
  · rw [owner_occ hn true, hocc]
    exact h.balanced
  by_cases hut : u = t
  · rw [hut, update_self] at hu
    cases hu
  rw [update_of_ne hut] at hu
  exact (h.shaped k u hk).2 hu

lemma ResOk.vacate (ht : occ t = true) (hn : ∀ k, r.holds k t = none) :
    ResOk r (update occ t false) := by
  have hocc : update occ t true = occ := by rw [← ht, update_eq_self]
  refine ⟨?_, fun k u hk => ⟨(h.shaped k u hk).1, fun hu => ?_⟩⟩
  · rw [← owner_occ (fun k => by rw [hn k]; rfl) true, hocc]
    exact h.balanced
  by_cases hut : u = t
  · rw [hut]
    exact hn k
  rw [update_of_ne hut] at hu
  exact (h.shaped k u hk).2 hu

lemma ResOk.frame_ne_zero (hk : k ≠ .space) (t : ℕ) : r.holds k t ≠ some 0 :=
  (h.shaped k t hk).1

/-- What `waitpid` does to the resources of the child; the directory pointer stays behind. -/
lemma ResOk.reap (ht : occ t = true) (hs : r.cr3 t ≠ some 0) :
    let res := ((r.release (r.cr3 t)).release (r.kstack t)).release (r.fpuState t)
    ResOk { res with
      kstack := update res.kstack t none
      fpuState := update res.fpuState t none } (update occ t false) := by
  have h1 : ResOk (r.drop .space t) occ := h.drop ht hs
  have h2 := h1.drop ht (h1.frame_ne_zero (k := .stack) (by decide) t)
  have h3 := h2.drop ht (h2.frame_ne_zero (k := .fpu) (by decide) t)
  have hn : ∀ k, (((r.drop .space t).drop .stack t).drop .fpu t).holds k t = none := by
    intro k
    cases k with
    | fpu => exact holds_put_self ..
    | stack =>
      rw [holds_drop_of_ne (by simp)]
      exact holds_put_self ..
    | space =>
      rw [holds_drop_of_ne (by simp), holds_drop_of_ne (by simp)]
      exact holds_put_self ..
  have h4 := (h3.vacate ht hn).stale (update_self ..) (r.cr3 t)
  simp only [Resources.drop, release_eq, Resources.put, Resources.holds, update_idem,
    update_eq_self] at h4 ⊢
  exact h4

lemma ResOk.cleanup (ht : occ t = true) (hs : r.cr3 t ≠ some 0) (running : Bool) :
    ResOk (((if running then r else r.drop .stack t).drop .fpu t).drop .space t) occ := by
  have hst : ∀ r', ResOk r' occ → r'.holds .space t ≠ some 0 →
      ResOk ((r'.drop .fpu t).drop .space t) occ := by
    intro r' h' hs'
    apply (h'.drop ht (h'.frame_ne_zero (by decide) t)).drop ht
    rw [holds_drop_of_ne (by simp)]
    exact hs'
  cases running with
  | true => exact hst r h hs
  | false =>
    apply hst _ (h.drop ht (h.frame_ne_zero (by decide) t))
    rw [holds_drop_of_ne (by simp)]
    exact hs

lemma ResOk.equip (ht : occ t = false) (fpu : Bool) :
    ResOk ((r.equip t fpu).put .space t (some 0)) (update occ t true) := by
  have hse : update occ t true t = true := update_self ..
  have hin : ResOk (r.put .space t (some 0)) (update occ t true) :=
    (h.stale ht (some 0)).occupy ht (by
      change (update r.cr3 t (some 0) t).filter (· ≠ 0) = none
      rw [update_self]
      rfl)
  have he : ∀ k, k ≠ .space → ((r.put .space t (some 0)).holds k t).filter (· ≠ 0) = none := by
    intro k hk
    rw [holds_put_of_ne (by simpa using hk), (h.shaped k t hk).2 ht]
    rfl
  have hs := hin.grant hse (he .stack (by decide))
  cases fpu with
  | false => exact hs
  | true =>
    refine hs.grant (k := .fpu) hse ?_
    exact he .fpu (by decide)

end Kept

lemma ResOk.space (h : ResOk (r.put .space t (some 0)) occ) (ht : occ t = true) :
    ResOk (r.grant .space t) occ := by
  have hg := h.grant (k := .space) ht (by rw [holds_put_self]; rfl)
  have heq : (r.put .space t (some 0)).grant .space t = r.grant .space t := by
    unfold Resources.grant Resources.put Resources.take
    simp
  rwa [heq] at hg

end Owners

variable {fpu : Bool} {failure : Option Failure} {rsp : ℕ}

section Steps

variable {s s' s₁ : State} {c t k : ℕ}

/-- The invariant. The tasks in child lists were forked, so they have directories of their own. -/
structure Sound (s : State) : Prop where
  kin : ∃ kids, Kin False (fun _ => True) s.family s.occupied kids ∧
    ∀ p child, child ∈ kids p → s.res.cr3 child ≠ some 0
  ids : IdsOk s.ids s.occupied s.id
  res : ResOk s.res s.occupied

lemma mem_of_update_nil {kids : ℕ → List ℕ} {p u : ℕ} (h : u ∈ update kids t [] p) :
    u ∈ kids p := by
  by_cases hp : p = t
  · rw [hp, update_self] at h
    cases h
  · rwa [update_of_ne hp] at h

section Calls

variable (h : Sound s)
include h

lemma Sound.same (hs : SameLife s s') : Sound s' := by
  obtain ⟨hkin, hids, hres⟩ := h
  refine ⟨?_, ?_, ?_⟩
  · rw [hs.family, hs.occupied, hs.res]
    exact hkin
  · rw [hs.ids, hs.occupied, hs.id]
    exact hids
  rw [hs.occupied, hs.res]
  exact hres

lemma Sound.lost (hs : IdLost s s') : Sound s' := by
  obtain ⟨hkin, hids, hres⟩ := h
  refine ⟨?_, ?_, ?_⟩
  · rw [hs.family, hs.occupied, hs.res]
    exact hkin
  · rw [hs.occupied, hs.id]
    exact hs.ids hids
  rw [hs.occupied, hs.res]
  exact hres

lemma Sound.born {parent : Option ℕ} (own : Bool)
    (hb : Born s s₁ parent fpu t k) (hfa : s'.family = s₁.family) (hids : s'.ids = s₁.ids)
    (hid : s'.id = s₁.id) (hocc : s'.occupied = s₁.occupied)
    (hres : s'.res = if own then s₁.res.grant .space t else s₁.res.put .space t (some 0)) :
    Sound s' ∧ ∃ kids, Kin False (fun _ => True) s'.family s'.occupied kids ∧
      (∀ p, t ∉ kids p) ∧ ∀ p child, child ∈ kids p → s'.res.cr3 child ≠ some 0 := by
  obtain ⟨⟨kids, hkin, hs⟩, hok, hl⟩ := h
  have hh := hb.handed hok
  have hsl := hh.slot
  have hkin' : Kin False (fun _ => True) s'.family s'.occupied (update kids t []) := by
    rw [hfa, hocc, hb.family, hb.occupied]
    exact hkin.born hsl parent fun hf => hf.elim
  have hout : ∀ p, t ∉ update kids t [] p := fun p hmem =>
    hkin.not_mem hsl trivial (mem_of_update_nil hmem)
  have hcr3 : ∀ u, u ≠ t → s'.res.cr3 u = s.res.cr3 u := by
    intro u hu
    rw [hres, hb.res]
    cases own <;> exact update_of_ne hu _ _
  have hs' : ∀ p child, child ∈ update kids t [] p → s'.res.cr3 child ≠ some 0 := by
    intro p child hmem
    have hne : child ≠ t := fun heq => hout p (heq ▸ hmem)
    rw [hcr3 child hne]
    exact hs p child (mem_of_update_nil hmem)
  refine ⟨⟨⟨_, hkin', hs'⟩, ?_, ?_⟩, _, hkin', hout, hs'⟩
  · rw [hids, hocc, hid, hb.occupied, hb.id]
    exact hh.setup
  rw [hocc, hres, hb.occupied, hb.res]
  have he := hl.equip hsl fpu
  cases own with
  | false => exact he
  | true => exact he.space (update_self ..)

lemma Sound.create (rsp : ℕ) (stack fpu : Bool) :
    Sound (krustSchedCreate s rsp stack fpu) := by
  unfold krustSchedCreate
  split
  · rename_i hnew
    exact h.lost (newTask_none hnew)
  rename_i hnew
  exact (h.born false (newTask_some hnew).1 (by rfl) (by rfl) (by rfl) (by rfl) (by rfl)).1

lemma Sound.createElf {stack : Bool} (hsa : stack = true → failure = none) :
    Sound (krustSchedCreateElf s rsp stack fpu failure) := by
  unfold krustSchedCreateElf
  split
  · rename_i hnew
    exact h.lost (newTask_none hnew)
  rename_i hnew
  obtain ⟨hb, hs⟩ := newTask_some hnew
  rw [hsa hs]
  exact (h.born true hb (by rfl) (by rfl) (by rfl) (by rfl) (by rfl)).1

lemma Sound.createInit {stack : Bool} (hsa : stack = true → failure = none) :
    Sound (krustSchedCreateInit s rsp stack fpu failure) := by
  unfold krustSchedCreateInit
  split
  · rename_i hnew
    exact h.lost (newTask_none hnew)
  rename_i hnew
  obtain ⟨hb, hs⟩ := newTask_some hnew
  rw [hsa hs]
  exact (h.born true hb (by rfl) (by rfl) (by rfl) (by rfl) (by rfl)).1

lemma Sound.createIdle (c : ℕ) : Sound (krustSchedCreateIdleForCpu s c) := by
  obtain ⟨⟨kids, hkin, hsp⟩, hok, hl⟩ := h
  obtain ⟨hfa, hres, hid, hocc⟩ := allocTaskId_rest s
  obtain ⟨hids, hsl⟩ := hok.alloc
  unfold krustSchedCreateIdleForCpu
  split
  · rename_i hs
    rw [hs] at hfa hres hid hocc hids
    rw [← hfa, ← hocc] at hkin
    rw [← hres] at hsp hl
    rw [← hocc] at hl hids
    rw [← hid] at hids
    exact ⟨⟨kids, hkin, hsp⟩, hids, hl⟩
  rename_i s₁ t hs
  rw [hs] at hfa hres hid hocc hids hsl
  have hh := hsl t rfl
  have hfr := hh.slot
  dsimp only at hfa hres hid hocc hh
  have hst : update s.res.kstack t none = s.res.kstack := by
    rw [← (hl.shaped .stack t (by decide)).2 hfr]
    exact update_eq_self ..
  have hfpu : update s.res.fpuState t none = s.res.fpuState := by
    rw [← (hl.shaped .fpu t (by decide)).2 hfr]
    exact update_eq_self ..
  have hn : (update s.res.cr3 t none t).filter (· ≠ 0) = none := by
    rw [update_self]
    rfl
  refine ⟨⟨update kids t [], ?_, fun p child hmem => ?_⟩, ?_, ?_⟩
  · dsimp only
    rw [hfa, hocc]
    exact hkin.born hfr none fun hf => hf.elim
  · dsimp only
    have hin := mem_of_update_nil hmem
    have hne : child ≠ t := fun heq => hkin.not_mem hfr trivial (heq ▸ hin)
    rw [update_of_ne hne, hres]
    exact hsp p child hin
  · dsimp only
    rw [hid, hocc]
    exact hh.setup
  dsimp only
  rw [hres, hocc, hst, hfpu]
  exact (hl.stale hfr none).occupy hfr hn

/-- Forks only: a thread would share its parent's directory. -/
lemma Sound.clone {stack space : Bool}
    (hsp : stack = true → space = true) : Sound (krustSchedClone s c rsp false stack fpu space) := by
  unfold krustSchedClone
  split
  · exact h
  rename_i p hp
  split
  · rename_i hnew
    exact h.lost (newTask_none hnew)
  rename_i s₁ t k hnew
  obtain ⟨hb, hst⟩ := newTask_some hnew
  rw [hsp hst, if_neg (by simp)]
  have hres : ({ s₁ with res := s₁.res.grant .space t } : State).res =
      if true then s₁.res.grant .space t else s₁.res.put .space t (some 0) := rfl
  obtain ⟨hso, kids, hkin, hout, hs⟩ :=
    h.born true hb (by rfl) (by rfl) (by rfl) (by rfl) hres
  have hocc : s₁.occupied t = true := by
    rw [hb.occupied, update_self]
  have hfr : 0 < s₁.res.fresh := by
    rw [hb.res]
    exact Nat.add_pos_left h.res.balanced.pos _
  have hadd : Kin False (fun _ => True) (s₁.family.addChild p t) s₁.occupied _ :=
    hkin.addChild hout hocc fun hf => hf.elim
  refine ⟨⟨_, hadd, fun q child hmem => ?_⟩, hso.ids, hso.res⟩
  by_cases hct : child = t
  · rw [hct]
    change update s₁.res.cr3 t (some s₁.res.fresh) t ≠ some 0
    rw [update_self]
    exact fun hz => hfr.ne' (some.inj hz)
  by_cases hq : q = p
  · rw [hq, update_self, List.mem_append, List.mem_singleton] at hmem
    exact hs p child (hmem.resolve_right hct)
  rw [update_of_ne hq] at hmem
  exact hs q child hmem

lemma Sound.exit (hs : krustSchedExit s c = some s') : Sound s' := by
  rcases exit_life hs with hsa | ⟨t, children, ht, hid, hc, hsa⟩
  · exact h.same hsa
  obtain ⟨⟨kids, hkin, hsp⟩, hok, hl⟩ := h
  apply Sound.same _ hsa
  exact ⟨⟨_, hkin.exit hc fun hf => hf.elim, fun p child hmem =>
    hsp p child (mem_of_update_nil hmem)⟩, hok, hl⟩

lemma Sound.reap {p child : ℕ}
    (hmem : ∀ l, Linked s.family.siblingNext (s.family.childHead p) l → child ∈ l)
    (hs : Sched.reap s p child = some s') : Sound s' := by
  obtain ⟨⟨kids, hkin, hsp⟩, hok, hl⟩ := h
  unfold Sched.reap at hs
  obtain ⟨f, hf, rfl⟩ := map_eq_some_iff.mp hs
  have hin := hmem (kids p) (hkin.linked p trivial)
  have hocc := hkin.occupied p child trivial hin
  have hsc := hsp p child hin
  refine ⟨⟨_, hkin.removeChild hin hf fun hf => hf.elim, fun q u hu => ?_⟩, hok.recycle hocc,
    hl.reap hocc hsc⟩
  simp only [release_eq]
  by_cases hq : q = p
  · rw [hq, update_self] at hu
    exact hsp p u (List.mem_of_mem_erase hu)
  rw [update_of_ne hq] at hu
  exact hsp q u hu

lemma Sound.reapSame {p child : ℕ} (hsa : SameLife s s₁)
    (hmem : ∀ l, Linked s.family.siblingNext (s.family.childHead p) l → child ∈ l)
    (hs : Sched.reap s₁ p child = some s') : Sound s' := by
  rw [← hsa.family] at hmem
  exact (h.same hsa).reap hmem hs

end Calls

lemma eagerCleanupTask_res (s : State) (v : ℕ) :
    (eagerCleanupTask s v).res = (((if (List.range 256).any fun c => s.cpu c = some v then s.res
      else s.res.drop .stack v).drop .fpu v).drop .space v) := by
  unfold eagerCleanupTask
  dsimp only
  split <;> rfl

lemma Sound.oomKill (h : Sound s) (hs : krustOomKill s c = some s')
    (hsa : ∀ v, oomVictim s c = some v → s.occupied v = true ∧ s.res.cr3 v ≠ some 0 ∧
      (s.family.childHead v = none ∨ v ≠ 1 ∧ s.family.childHead 1 ≠ none)) : Sound s' := by
  rcases oomKill_life hs with rfl | ⟨v, children, hv, hc, rfl⟩
  · exact h
  obtain ⟨⟨kids, hkin, hsp⟩, hok, hl⟩ := h
  obtain ⟨hocc, hsc, hli⟩ := hsa v hv
  obtain ⟨kids', hkin', hold⟩ := hkin.oom hc hli
  have hres := eagerCleanupTask_res { s with
    state := update s.state v .exited
    family := (s.family.adopt children).dropChildren v } v
  obtain ⟨hf, hids, hid, ho⟩ := eagerCleanupTask_life { s with
    state := update s.state v .exited
    family := (s.family.adopt children).dropChildren v } v
  refine ⟨⟨kids', ?_, fun p child hmem => ?_⟩, ?_, ?_⟩
  · rw [hf, ho]
    exact hkin'
  · obtain ⟨q, hq⟩ := hold p child hmem
    rw [hres]
    change Resources.holds _ .space child ≠ some 0
    by_cases hcv : child = v
    · rw [hcv]
      unfold Resources.drop
      rw [holds_put_self]
      simp
    rw [holds_drop_of_ne (by simp [hcv]), holds_drop_of_ne (by simp)]
    split
    · exact hsp q child hq
    rw [holds_drop_of_ne (by simp)]
    exact hsp q child hq
  · rw [hids, ho, hid]
    exact hok
  rw [hres, ho]
  exact hl.cleanup hocc hsc _

lemma Sound.step (h : Sound s) {op : Op} (hsa : ReleaseSafe s op) (hs : op.exec s = some s') :
    Sound s' := by
  cases op with
  | create rsp stack fpu => cases hs; exact h.create rsp stack fpu
  | createElf rsp stack fpu failure => cases hs; exact h.createElf hsa
  | createInit rsp stack fpu failure => cases hs; exact h.createInit hsa
  | createIdle c => cases hs; exact h.createIdle c
  | clone c rsp vm stack fpu space =>
    cases hs
    rw [hsa.1]
    exact h.clone hsa.2
  | preempt c now frame r => exact h.same (preempt_life hs)
  | yield c now frame r => exact h.same (yield_life hs)
  | sleep c target now frame r => exact h.same (sleep_life hs)
  | exit c => exact h.exit hs
  | waitpid c pid wnohang now frame r =>
    rcases waitpid_life hs with hsm | ⟨t, child, ht, hta, he, s₁, hsm, hr⟩
    · exact h.same hsm
    · exact h.reapSame hsm (fun l hl => hsa t child l ht hta he hl) hr
  | join c tid now frame r => exact h.same (join_life hs)
  | resume c now frame r =>
    rcases resume_life hs with hsm | ⟨t, child, ht, hw, he, s₁, hsm, hr⟩
    · exact h.same hsm
    · exact h.reapSame hsm (fun l hl => hsa t child l ht hw he hl) hr
  | kill c pid sig => cases hs; exact h.same (kill_life s c pid sig)
  | signals c r => cases hs; exact h.same (deliver_life s c r)
  | oomKill c => exact h.oomKill hs hsa
  | fault c =>
    cases hs
    unfold countPage
    split <;> exact ⟨h.kin, h.ids, h.res⟩

lemma boot_sound : Sound boot := by
  refine ⟨⟨_, boot_kin False, fun p child hmem => ?_⟩, boot_ids, ?_, fun k t hk => ?_⟩
  · cases hmem
  · have ho : boot.res.owner boot.occupied = fun _ => none := by
      funext ⟨k, t⟩
      unfold Resources.owner
      cases k <;> exact ite_self _
    rw [ho]
    exact balanced_empty
  cases k with
  | stack => exact ⟨(nofun), fun _ => rfl⟩
  | fpu => exact ⟨(nofun), fun _ => rfl⟩
  | space => exact absurd rfl hk

lemma Sound.accounted (h : Sound s) : Accounted s := by
  have hb := h.res.balanced
  refine ⟨h.ids.nodup, fun id hid t ht heq => ?_, hb.nodup, fun hz => ?_,
    fun k t x ht hx hne => ?_, fun x hpos hlt => ?_⟩
  · have hf := (h.ids.alloc.2 id hid).slot
    rw [← heq, h.ids.own t ht, ht] at hf
    cases hf
  · exact absurd (hb.past 0 hz).1 (by omega)
  · have ho := owner_eq_some.mpr ⟨ht, hx, hne⟩
    refine ⟨(hb.live _ x ho).2.2, fun k' t' ht' hx' => ?_⟩
    exact Prod.mk.inj (hb.apart (k', t') (k, t) x (owner_eq_some.mpr ⟨ht', hx', hne⟩) ho)
  refine (hb.covered x hpos hlt).imp_right fun ⟨⟨k, t⟩, hi⟩ => ?_
  obtain ⟨ht, hx, -⟩ := owner_eq_some.mp hi
  exact ⟨k, t, ht, hx⟩

end Steps

/-- In every run without threads and failed creations, in which the OOM killer takes user tasks that
were not reaped and `waitpid` finds the child in the caller's list, ids and resources are
accounted for. -/
theorem safe_run_accounted {s : State} (h : Reached ReleaseSafe s) : Accounted s := by
  have hso : Sound s := h.invariant boot_sound fun hp hsa hs => hp.step hsa hs
  exact hso.accounted

theorem safe_run_accounted_fork : ∃ s, Reached ReleaseSafe s ∧ s.res.released = [5, 4, 6] ∧
    Accounted s := by
  have h1 : Reached ReleaseSafe _ := .step (.createElf 0x2000 true true none) .start (fun _ => rfl) rfl
  have h2 := h1.step (.preempt 0 0 0x1000 ⟨0, 8, 0, 0, 0, 0, 0⟩) trivial rfl
  have h3 := h2.step (.clone 0 0x3000 false true true true)
    ⟨rfl, fun _ => rfl⟩ rfl
  have h4 := h3.step (.kill 0 2 9) trivial rfl
  have h5 := h4.step (.waitpid 0 2 false 0 0x1000 ⟨0, 8, 0, 0, 0, 0, 0⟩)
    (fun t child l ht hta _ hl => by
      obtain rfl : 1 = t := some.inj ht
      obtain rfl : 2 = child := some.inj (some.inj hta)
      obtain ⟨l', rfl, -⟩ := linked_some (a := 2) hl
      exact List.mem_cons_self ..) rfl
  exact ⟨_, h5, rfl, safe_run_accounted h5⟩

/-- A thread's directory is its parent's: reaping both releases it twice. -/
theorem thread_directory_released_twice :
    ∃ s, Reached (fun _ _ => True) s ∧ ¬ Accounted s := by
  have h1 : Reached (fun _ _ => True) _ :=
    .step (.createElf 0x2000 true true none) .start trivial rfl
  have h2 := h1.step (.preempt 0 0 0x1000 ⟨0, 8, 0, 0, 0, 0, 0⟩) trivial rfl
  have h3 := h2.step (.clone 0 0x3000 false true true true) trivial rfl
  have h4 := h3.step (.preempt 0 1 0x4000 ⟨0, 8, 0, 0, 0, 0, 0⟩) trivial rfl
  have h5 := h4.step (.clone 0 0x5000 true true true true) trivial rfl
  have h6 := h5.step (.kill 0 3 9) trivial rfl
  have h7 := h6.step (.waitpid 0 3 false 2 0x6000 ⟨0, 8, 0, 0, 0, 0, 0⟩) trivial rfl
  have h8 := h7.step (.exit 0) trivial rfl
  have h9 := h8.step (.waitpid 0 2 false 3 0x7000 ⟨0, 8, 0, 0, 0, 0, 0⟩) trivial rfl
  refine ⟨_, h9, fun hacc => ?_⟩
  exact absurd hacc.once (by decide)

end Elitra.Sched
