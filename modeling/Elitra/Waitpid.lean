import Mathlib.Algebra.Ring.Int.Defs
import Mathlib.Data.List.Count
import Mathlib.Data.List.Nodup

namespace Elitra.Wait
open Function List Option

inductive TaskState where
  | ready | running | waiting | exited
  deriving DecidableEq, Repr

/-- Where the scheduler has a task: in the run queue, on a CPU, in the sleep queue or another wait,
or nowhere after its own exit. -/
inductive Place where
  | queue | cpu | asleep | gone
  deriving DecidableEq, Repr

structure Child where
  state : TaskState
  place : Place
  exitCode : BitVec 32
  deriving DecidableEq, Repr

/-- A child that was reaped: its status, whether the caller gave a usable status pointer, and what
the system call returned and stored. -/
structure Reaped where
  child : ℕ
  code : BitVec 32
  pointer : Bool
  rax : ℕ
  stored : Option ℤ
  deriving DecidableEq, Repr

/-- A `waitpid` that has yielded: the child it waits for, whether it was called for any child, and
the status pointer. -/
structure Waiting where
  child : ℕ
  any : Bool
  pointer : Bool
  deriving DecidableEq, Repr

/-- A parent with its children. `children` is the list from `child_head` on; `born` are the children
it ever had, `log` those it has reaped. -/
structure State where
  children : List ℕ
  task : ℕ → Child
  waiting : Option Waiting
  born : List ℕ
  log : List Reaped

def State.start : State := ⟨[], fun _ => ⟨.exited, .gone, 0⟩, none, [], []⟩

def State.exited (s : State) (c : ℕ) : Bool := (s.task c).state == .exited

def State.set (s : State) (c : ℕ) (t : Child) : State := { s with task := update s.task c t }

/-- System call 30 with the result of `krust_sched_waitpid_flags`, which is the exit code. -/
def Reaped.of (child : ℕ) (code : BitVec 32) (pointer : Bool) : Reaped where
  child := child
  code := code
  pointer := pointer
  rax := if 0 ≤ code.toInt then code.toNat else 0xFFFFFFFF
  stored := if 0 ≤ code.toInt ∧ pointer then some code.toInt else none

/-- The end of `krust_sched_waitpid_flags`, once the child has exited. -/
def State.reap (s : State) (child : ℕ) (pointer : Bool) : State :=
  { s with
    children := s.children.erase child
    waiting := none
    log := s.log ++ [.of child (s.task child).exitCode pointer] }

def State.look (s : State) (w : Waiting) (wnohang : Bool) : State :=
  if s.exited w.child then s.reap w.child w.pointer
  else if wnohang then s
  else { s with waiting := some w }

/-- Which child a `waitpid` is about: the one with the id, or for -1 the first that has exited, or
else the first. -/
def State.waitTarget (s : State) (pid : ℤ) : Option ℕ :=
  if 0 < pid then if pid.toNat ∈ s.children then some pid.toNat else none
  else if pid = -1 then (s.children.find? s.exited).or s.children.head?
  else none

/-- `krust_sched_waitpid_flags` up to its return or its first yield. -/
def State.waitpid (s : State) (pid : ℤ) (pointer wnohang : Bool) : State :=
  (s.waitTarget pid).elim s fun c => s.look ⟨c, pid == -1, pointer⟩ wnohang

/-- What the parent, its children and the scheduler do. -/
inductive Op where
  | fork (c : ℕ)
  | dispatch (c : ℕ)
  | preempt (c : ℕ)
  | sleep (c : ℕ)
  | wake (c : ℕ)
  | exit (c : ℕ) (code : BitVec 32)
  | kill (c : ℕ)
  | waitpid (pid : ℤ) (pointer wnohang : Bool)
  | resume
  deriving DecidableEq, Repr

/-- A step; one that is not possible does nothing. The parent forks and waits only when it is not
suspended itself. The scheduler sets the state of a task that it moves without looking at it, so a
task that was killed in the run queue or on a CPU runs on. -/
def Op.exec (s : State) : Op → State
  | .fork c =>
    if s.waiting = none ∧ c ∉ s.children then
      { s with
        children := s.children ++ [c]
        task := update s.task c ⟨.ready, .queue, 0⟩
        born := s.born ++ [c] }
    else s
  | .dispatch c =>
    if (s.task c).place = .queue then s.set c { s.task c with state := .running, place := .cpu } else s
  | .preempt c =>
    if (s.task c).place = .cpu then s.set c { s.task c with state := .ready, place := .queue } else s
  | .sleep c =>
    if (s.task c).place = .cpu then s.set c { s.task c with state := .waiting, place := .asleep } else s
  | .wake c =>
    if (s.task c).place = .asleep then s.set c { s.task c with state := .ready, place := .queue } else s
  | .exit c code =>
    if (s.task c).place = .cpu then s.set c ⟨.exited, .gone, code⟩ else s
  | .kill c =>
    if s.exited c then s else s.set c { s.task c with state := .exited, exitCode := 0x109#32 }
  | .waitpid pid pointer wnohang => if s.waiting = none then s.waitpid pid pointer wnohang else s
  | .resume => s.waiting.elim s fun w => s.look w false

/-- The states reached by steps that meet a condition. -/
inductive Reached (ok : State → Op → Prop) : State → Prop
  | start : Reached ok .start
  | step {s : State} (op : Op) : Reached ok s → ok s op → Reached ok (op.exec s)

lemma Reached.invariant {ok : State → Op → Prop} {P : State → Prop} (hs : P .start)
    (hst : ∀ {s : State} {op : Op}, P s → ok s op → P (op.exec s)) {s : State} (h : Reached ok s) :
    P s := by
  induction h with
  | start => exact hs
  | step op _ hok ih => exact hst ih hok

section Accounting

/-- Every child that was ever born is waited for still, or was reaped, once. -/
structure Accounted (s : State) : Prop where
  count : ∀ c, s.born.count c = (s.log.map Reaped.child).count c + s.children.count c
  nodup : s.children.Nodup
  waits : ∀ w, s.waiting = some w → w.child ∈ s.children
  of : ∀ e ∈ s.log, e = .of e.child e.code e.pointer

variable {s : State}

lemma Accounted.set (h : Accounted s) (c : ℕ) (t : Child) : Accounted (s.set c t) :=
  ⟨h.count, h.nodup, h.waits, h.of⟩

lemma Accounted.reap (h : Accounted s) {c : ℕ} (hc : c ∈ s.children) (pointer : Bool) :
    Accounted (s.reap c pointer) := by
  refine ⟨fun x => ?_, h.nodup.erase c, fun w hw => (nomatch hw), fun e he => ?_⟩
  · have hco := h.count x
    have hpos : 0 < s.children.count c := count_pos_iff.mpr hc
    change s.born.count x = ((s.log ++ [Reaped.of c _ pointer]).map Reaped.child).count x +
      (s.children.erase c).count x
    rw [map_append, count_append, map_singleton, count_singleton]
    by_cases hx : x = c
    · subst hx
      rw [count_erase_self, show ((Reaped.of x (s.task x).exitCode pointer).child == x) = true
        from beq_self_eq_true x, if_pos rfl]
      omega
    rw [count_erase_of_ne hx, if_neg (by simpa [Reaped.of] using Ne.symm hx)]
    omega
  rcases mem_append.mp he with he | he
  · exact h.of e he
  rw [mem_singleton] at he
  rw [he]
  rfl

lemma Accounted.look (h : Accounted s) {w : Waiting} (hw : w.child ∈ s.children) (wnohang : Bool) :
    Accounted (s.look w wnohang) := by
  unfold State.look
  split_ifs
  · exact h.reap hw w.pointer
  · exact h
  refine ⟨h.count, h.nodup, fun w' hw' => ?_, h.of⟩
  rw [← some.inj hw']
  exact hw

lemma waitTarget_mem {pid : ℤ} {c : ℕ} (h : s.waitTarget pid = some c) : c ∈ s.children := by
  unfold State.waitTarget at h
  split_ifs at h with hpos hmem
  · rw [← some.inj h]
    exact hmem
  rw [or_eq_some_iff] at h
  rcases h with h | ⟨-, h⟩
  · exact mem_of_find?_eq_some h
  · exact mem_of_head? h

lemma Accounted.step (h : Accounted s) (op : Op) : Accounted (op.exec s) := by
  cases op with
  | fork c =>
    unfold Op.exec
    dsimp only
    split_ifs with hf
    · refine ⟨fun x => ?_, ?_, fun w hw => ?_, h.of⟩
      · dsimp only
        rw [count_append, count_append, h.count x]
        omega
      · exact List.Nodup.append h.nodup (nodup_singleton c)
          (disjoint_singleton.mpr hf.2)
      · exact absurd (hf.1.symm.trans hw) nofun
    · exact h
  | waitpid pid pointer wnohang =>
    unfold Op.exec State.waitpid
    dsimp only
    split_ifs
    · cases ht : s.waitTarget pid with
      | none => exact h
      | some c => exact h.look (waitTarget_mem ht) wnohang
    · exact h
  | resume =>
    unfold Op.exec
    cases hw : s.waiting with
    | none => exact h
    | some w => exact h.look (h.waits w hw) false
  | kill c =>
    unfold Op.exec
    dsimp only
    split_ifs
    · exact h
    · exact h.set c _
  | dispatch c | preempt c | sleep c | wake c | exit c code =>
    unfold Op.exec
    dsimp only
    split_ifs
    · exact h.set c _
    · exact h

lemma accounted_of_reached {ok : State → Op → Prop} (h : Reached ok s) : Accounted s := by
  refine h.invariant ⟨fun _ => rfl, nodup_nil, fun _ hw => (nomatch hw), fun _ he => ?_⟩
    fun hs _ => hs.step _
  exact absurd he not_mem_nil

end Accounting

section Delivered

/-- The system call has returned the child's id and stored its status. -/
def Reaped.Right (e : Reaped) : Prop := e.rax = e.child ∧ e.stored = some e.code.toInt

/-- What the parent is promised: each reaped child by its id with its status, each child once, and a
wait for any child that ends at the next look when a child has exited. -/
structure Delivered (s : State) : Prop where
  right : ∀ e ∈ s.log, e.Right
  once : ∀ c, s.born.count c = (s.log.map Reaped.child).count c + s.children.count c
  awake : ∀ w, s.waiting = some w → w.any = true → ∀ c ∈ s.children, s.exited c → s.exited w.child

/-- The steps for which this holds: children exit with their own ids for a status, `waitpid` has a
usable status pointer, and where it is for any child and none has exited, there is only one. -/
def Fine (s : State) : Op → Prop
  | .exit c code => code.toInt = c
  | .kill c => c = 0x109
  | .waitpid pid pointer _ =>
    pointer = true ∧ (pid = -1 → (∃ c ∈ s.children, s.exited c) ∨ s.children.length ≤ 1)
  | _ => True

/-- The invariant behind it: exited children have their ids for a status, and a wait for any child
is about the only one. -/
structure Sole (s : State) : Prop where
  code : ∀ c ∈ s.children, s.exited c → (s.task c).exitCode.toInt = c
  right : ∀ e ∈ s.log, e.Right
  pointer : ∀ w, s.waiting = some w → w.pointer = true
  only : ∀ w, s.waiting = some w → w.any = true → ∀ c ∈ s.children, c = w.child

variable {s : State}

variable {c : ℕ}

lemma Reaped.right_of {code : BitVec 32} (h : code.toInt = c) : (Reaped.of c code true).Right := by
  have hpos : 0 ≤ code.toInt := by omega
  have hnat : (code.toNat : ℤ) = code.toInt := by
    rw [BitVec.toInt_eq_toNat_cond] at hpos ⊢
    split_ifs at hpos ⊢
    · rfl
    have := code.isLt
    omega
  constructor
  · change (if 0 ≤ code.toInt then code.toNat else 0xFFFFFFFF) = c
    rw [if_pos hpos]
    omega
  change (if 0 ≤ code.toInt ∧ true = true then some code.toInt else none) = some code.toInt
  rw [if_pos ⟨hpos, rfl⟩]

lemma Sole.reap (h : Sole s) (hc : c ∈ s.children) (het : s.exited c = true) :
    Sole (s.reap c true) := by
  refine ⟨fun x hx hex => h.code x (mem_of_mem_erase hx) hex, fun e he => ?_,
    fun w hw => (nomatch hw), fun w hw => (nomatch hw)⟩
  rcases mem_append.mp he with he | he
  · exact h.right e he
  rw [mem_singleton] at he
  rw [he]
  exact Reaped.right_of (h.code c hc het)

lemma Sole.look (h : Sole s) {w : Waiting} (hw : w.child ∈ s.children) (hp : w.pointer = true)
    (ho : w.any = true → s.exited w.child = false → ∀ c ∈ s.children, c = w.child)
    (wnohang : Bool) : Sole (s.look w wnohang) := by
  unfold State.look
  split_ifs with he
  · rw [hp]
    exact h.reap hw he
  · exact h
  refine ⟨h.code, h.right, fun w' hw' => ?_, fun w' hw' hany => ?_⟩
  · rw [← some.inj hw']
    exact hp
  rw [← some.inj hw'] at hany ⊢
  exact ho hany (Bool.eq_false_iff.mpr he)

lemma Sole.set (h : Sole s) {t : Child} (ht : t.state = .exited → t.exitCode.toInt = c) :
    Sole (s.set c t) := by
  refine ⟨fun x hx hex => ?_, h.right, h.pointer, h.only⟩
  unfold State.exited State.set at hex
  unfold State.set
  dsimp only at hex ⊢
  by_cases hxc : x = c
  · subst hxc
    rw [update_self] at hex ⊢
    exact ht (beq_iff_eq.mp hex)
  rw [update_of_ne hxc] at hex ⊢
  exact h.code x hx hex

lemma waitTarget_any (h : s.waitTarget (-1) = some c) (hc : s.exited c = false) :
    ∀ x ∈ s.children, s.exited x = false := by
  unfold State.waitTarget at h
  rw [if_neg (by decide), if_pos rfl, or_eq_some_iff] at h
  rcases h with h | ⟨h, -⟩
  · have := find?_some h
    rw [hc] at this
    cases this
  intro x hx
  exact Bool.eq_false_iff.mpr (find?_eq_none.mp h x hx)

lemma Sole.step (hs : Accounted s) (h : Sole s) {op : Op} (hop : Fine s op) : Sole (op.exec s) := by
  cases op with
  | fork c =>
    unfold Op.exec
    dsimp only
    split_ifs with hf
    · refine ⟨fun x hx hex => ?_, h.right, h.pointer, fun w hw => ?_⟩
      · unfold State.exited at hex
        dsimp only at hx hex ⊢
        by_cases hxc : x = c
        · subst hxc
          rw [update_self] at hex
          cases hex
        rw [update_of_ne hxc] at hex ⊢
        refine h.code x ?_ hex
        rcases mem_append.mp hx with hx | hx
        · exact hx
        · exact absurd (mem_singleton.mp hx) hxc
      · exact absurd (hf.1.symm.trans hw) nofun
    · exact h
  | waitpid pid pointer wnohang =>
    obtain ⟨hp, hany⟩ := hop
    unfold Op.exec State.waitpid
    dsimp only
    split_ifs
    · cases ht : s.waitTarget pid with
      | none => exact h
      | some c =>
        have hmem := waitTarget_mem ht
        refine h.look hmem hp (fun hpid hnot x hx => ?_) wnohang
        have hpid' : pid = -1 := beq_iff_eq.mp hpid
        rw [hpid'] at ht
        rcases hany hpid' with ⟨y, hy, hyex⟩ | hone
        · rw [waitTarget_any ht hnot y hy] at hyex
          cases hyex
        -- a list of at most one element, which has both
        obtain ⟨y, hy⟩ := length_eq_one_iff.mp
          (Nat.le_antisymm hone (length_pos_of_mem hmem))
        rw [hy, mem_singleton] at hx hmem
        exact hx.trans hmem.symm
    · exact h
  | resume =>
    unfold Op.exec
    cases hw : s.waiting with
    | none => exact h
    | some w =>
      exact h.look (hs.waits w hw) (h.pointer w hw) (fun hany _ => h.only w hw hany) false
  | exit c code =>
    unfold Op.exec
    dsimp only
    split_ifs
    · exact h.set fun _ => hop
    · exact h
  | kill c =>
    unfold Op.exec
    dsimp only
    split_ifs
    · exact h
    have hc : (0x109#32).toInt = ((0x109 : ℕ) : ℤ) := by decide
    rw [show c = 0x109 from hop]
    exact h.set fun _ => hc
  | dispatch c | preempt c | sleep c | wake c =>
    unfold Op.exec
    dsimp only
    split_ifs
    · exact h.set nofun
    · exact h

/-- Over any run of fine steps `waitpid` keeps its promises. -/
theorem waitpid_delivered (h : Reached Fine s) : Delivered s := by
  have hb : Accounted s ∧ Sole s := by
    refine h.invariant (P := fun s => Accounted s ∧ Sole s)
      ⟨accounted_of_reached (.start : Reached Fine .start), ?_⟩
      fun hs hop => ⟨hs.1.step _, Sole.step hs.1 hs.2 hop⟩
    exact ⟨fun _ hc => absurd hc not_mem_nil, fun _ he => absurd he not_mem_nil,
      fun _ hw => (nomatch hw), fun _ hw => (nomatch hw)⟩
  obtain ⟨hco, hso⟩ := hb
  refine ⟨hso.right, hco.count, fun w hw hany c hc hex => ?_⟩
  rw [← hso.only w hw hany c hc]
  exact hex

end Delivered

def run (ops : List Op) : State := ops.foldl Op.exec .start

/-- Every step of the run meets the condition. -/
def Along (ok : State → Op → Prop) : State → List Op → Prop
  | _, [] => True
  | s, op :: ops => ok s op ∧ Along ok (op.exec s) ops

lemma Reached.along {ok : State → Op → Prop} {s : State} {ops : List Op} (h : Reached ok s)
    (hops : Along ok s ops) : Reached ok (ops.foldl Op.exec s) := by
  induction ops generalizing s with
  | nil => exact h
  | cons op ops ih => exact ih (.step op h hops.1) hops.2

/-- Two children, of which the second exits with its id while the parent is in a `waitpid` for the
first; it is reaped by a wait for any child. -/
def sampleRun : List Op :=
  [.fork 3, .fork 4, .dispatch 3, .dispatch 4, .waitpid 3 true false, .exit 4 4, .exit 3 3, .resume,
    .waitpid (-1) true false]

lemma sampleRun_fine : Along Fine .start sampleRun := by
  refine ⟨trivial, trivial, trivial, trivial, ⟨rfl, nofun⟩, ?_, ?_, trivial, ⟨rfl, fun _ => .inl ?_⟩,
    trivial⟩
  · change (4#32).toInt = ((4 : ℕ) : ℤ)
    decide
  · change (3#32).toInt = ((3 : ℕ) : ℤ)
    decide
  · exact ⟨4, by decide, by decide⟩

theorem waitpid_delivered_two : Delivered (run sampleRun) ∧
    (run sampleRun).log.map (fun e => (e.child, e.rax, e.stored)) = [(3, 3, some 3), (4, 4, some 4)] :=
  ⟨waitpid_delivered (.along .start sampleRun_fine), by decide⟩

/-- The id is not what is returned; a wait for any child stays on the first one while the second has
exited; and a status with its top bit set is reaped without being stored. -/
theorem waitpid_undelivered :
    (run [.fork 3, .dispatch 3, .exit 3 7, .waitpid (-1) true false]).log =
        [⟨3, 7, true, 7, some 7⟩] ∧
      (run [.fork 3, .fork 4, .dispatch 4, .waitpid (-1) true false, .exit 4 0, .resume]).waiting =
        some ⟨3, true, true⟩ ∧
      (run [.fork 3, .fork 4, .dispatch 4, .waitpid (-1) true false, .exit 4 0, .resume]).exited 4 =
        true ∧
      (run [.fork 3, .dispatch 3, .exit 3 0x80000000, .waitpid (-1) true false]).log =
        [⟨3, 0x80000000, true, 0xFFFFFFFF, none⟩] ∧
      (run [.fork 3, .dispatch 3, .exit 3 0x80000000, .waitpid (-1) true false]).children = [] := by
  decide

end Elitra.Wait
