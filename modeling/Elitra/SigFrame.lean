import Elitra.Syscalls
import Mathlib.Tactic.IntervalCases

namespace Elitra.Traps
open Bool ByteMem List Signals

variable {ws : List ℕ} {m : Mem}

lemma writeWords_of_outside {a x : ℕ}
    (h : x < a ∨ a + 8 * ws.length ≤ x) : writeWords m a ws x = m x := by
  induction ws generalizing m a with
  | nil => rfl
  | cons w ws ih =>
    rw [length_cons] at h
    rw [writeWords, ih (by omega), writeLE_of_outside (by omega)]

lemma readLE_writeWords {a i : ℕ} (hi : i < ws.length) :
    readLE (writeWords m a ws) (a + 8 * i) 8 = ws.get ⟨i, hi⟩ % 256 ^ 8 := by
  induction ws generalizing m a i with
  | nil => exact absurd hi (Nat.not_lt_zero i)
  | cons w ws ih =>
    rw [writeWords]
    cases i with
    | zero =>
      have hl : readLE (writeWords (writeLE m a w 8) (a + 8) ws) a 8 =
          readLE (writeLE m a w 8) a 8 :=
        readLE_congr fun x _ hx => writeWords_of_outside (.inl (by omega))
      rw [Nat.mul_zero]
      exact hl.trans (readLE_writeLE m a w 8)
    | succ i =>
      rw [show a + 8 * (i + 1) = a + 8 + 8 * i from by omega, ih (Nat.lt_of_succ_lt_succ hi)]
      rfl

/-- The registers of an interrupt frame are 64-bit words. -/
structure Wide (r : Regs) : Prop where
  rip : r.rip < 2 ^ 64
  cs : r.cs < 2 ^ 64
  rflags : r.rflags < 2 ^ 64
  userRsp : r.userRsp < 2 ^ 64
  ss : r.ss < 2 ^ 64

def frameWord (m : Mem) (a i : ℕ) : ℕ := readLE m (a + 8 * i) 8

def sigreturnValue (r : Regs) (m : Mem) : ℤ :=
  if frameWord m r.userRsp 1 < 0x1000 ∨ 0x00007FFFFFFFFFFF < frameWord m r.userRsp 1 then -1
  else if frameWord m r.userRsp 2 ≠ 0x23 ∧ frameWord m r.userRsp 2 ≠ 0x1B then -1
  else if frameWord m r.userRsp 5 ≠ 0x2B ∧ frameWord m r.userRsp 5 ≠ 0x23 then -1
  else if frameWord m r.userRsp 4 < 0x1000 ∨ 0x00007FFFFFFFFFFF < frameWord m r.userRsp 4 then -1
  else 0

/-- The values of `rip`, `cs`, `ss` and the stack pointer that `krust_sched_sigreturn` accepts. -/
structure Acceptable (rip cs ss rsp : ℕ) : Prop where
  rip_ge : 0x1000 ≤ rip
  rip_le : rip ≤ 0x00007FFFFFFFFFFF
  cs : cs = 0x23 ∨ cs = 0x1B
  ss : ss = 0x2B ∨ ss = 0x23
  rsp_ge : 0x1000 ≤ rsp
  rsp_le : rsp ≤ 0x00007FFFFFFFFFFF

/-- The frame with which a task goes on after an accepted `sigreturn`. -/
def returned (r : Regs) (m : Mem) : Regs :=
  { r with
    rip := frameWord m r.userRsp 1
    cs := frameWord m r.userRsp 2
    rflags := frameWord m r.userRsp 3 &&& 0xFFFFFFFFFFFFFCFF
    userRsp := frameWord m r.userRsp 4
    ss := frameWord m r.userRsp 5
    rax := frameWord m r.userRsp 0 }

section Sigreturn

variable {g : Sig} {r : Regs} {m : Mem}

lemma sigreturnValue_cases (r : Regs) (m : Mem) :
    sigreturnValue r m = 0 ∨ sigreturnValue r m = -1 := by
  unfold sigreturnValue
  split_ifs
  · exact .inr rfl
  · exact .inr rfl
  · exact .inr rfl
  · exact .inr rfl
  · exact .inl rfl

lemma sigreturnValue_eq_zero : sigreturnValue r m = 0 ↔
    Acceptable (frameWord m r.userRsp 1) (frameWord m r.userRsp 2) (frameWord m r.userRsp 5)
      (frameWord m r.userRsp 4) := by
  unfold sigreturnValue
  constructor
  · intro h
    split_ifs at h with h1 h2 h3 h4
    exact ⟨by omega, by omega, by omega, by omega, by omega, by omega⟩
  intro h
  have hcs := h.cs
  have hss := h.ss
  rw [if_neg (by have := h.rip_ge; have := h.rip_le; omega), if_neg (by omega),
    if_neg (by omega), if_neg (by have := h.rsp_ge; have := h.rsp_le; omega)]

lemma sigreturn_regs (g : Sig) (r : Regs) (m : Mem) :
    (krustSchedSigreturn g r m).2 = if sigreturnValue r m = 0 then returned r m else r := by
  by_cases hv : sigreturnValue r m = 0
  · have h := sigreturnValue_eq_zero.mp hv
    have hrip := h.rip_ge
    have hrip' := h.rip_le
    have hcs := h.cs
    have hss := h.ss
    have hrsp := h.rsp_ge
    have hrsp' := h.rsp_le
    rw [if_pos hv]
    unfold krustSchedSigreturn
    unfold frameWord at hrip hrip' hcs hss hrsp hrsp'
    dsimp only
    rw [if_neg (by omega), if_neg (by omega), if_neg (by omega), if_neg (by omega)]
    rfl
  rw [if_neg hv]
  unfold krustSchedSigreturn
  dsimp only
  split_ifs with h1 h2 h3 h4
  · rfl
  · rfl
  · rfl
  · rfl
  -- The fifth way through the checks is the accepted one.
  · refine absurd (sigreturnValue_eq_zero.mpr ?_) hv
    unfold frameWord
    exact ⟨by omega, by omega, by omega, by omega, by omega, by omega⟩
  refine absurd (sigreturnValue_eq_zero.mpr ?_) hv
  unfold frameWord
  exact ⟨by omega, by omega, by omega, by omega, by omega, by omega⟩

lemma testBit_mask (w i : ℕ) (hw : w < 2 ^ 64) :
    (w &&& 0xFFFFFFFFFFFFFCFF).testBit i = (w.testBit i && (i != 8 && i != 9)) := by
  rw [Nat.testBit_and]
  by_cases hi : i < 64
  · have hm : ∀ i < 64, Nat.testBit 0xFFFFFFFFFFFFFCFF i = (i != 8 && i != 9) := by decide
    rw [hm i hi]
  rw [Nat.testBit_lt_two_pow (hw.trans_le (Nat.pow_le_pow_right (by decide) (by omega))),
    Bool.false_and, Bool.false_and]

/-- The mask keeps the flags exactly when the trap and the interrupt flag were clear. -/
lemma mask_eq_iff {w : ℕ} (hw : w < 2 ^ 64) :
    w &&& 0xFFFFFFFFFFFFFCFF = w ↔ w.testBit 8 = false ∧ w.testBit 9 = false := by
  constructor
  · intro h
    have hbit := fun i => testBit_mask w i hw
    rw [h] at hbit
    exact ⟨by simpa using hbit 8, by simpa using hbit 9⟩
  rintro ⟨h8, h9⟩
  apply Nat.eq_of_testBit_eq
  intro i
  rw [testBit_mask w i hw]
  by_cases hi : i = 8
  · rw [hi, h8, Bool.false_and]
  by_cases hi' : i = 9
  · rw [hi', h9, Bool.false_and]
  · simp [hi, hi']

lemma frameWord_lt (m : Mem) (a i : ℕ) : frameWord m a i < 2 ^ 64 := by
  have h : ∀ n a, readLE m a n < 256 ^ n := by
    intro n
    induction n with
    | zero => exact fun _ => Nat.one_pos
    | succ n ih =>
      intro a
      have hn := ih (a + 1)
      have hb := (m a).isLt
      rw [readLE, pow_succ]
      omega
  exact h 8 _

end Sigreturn

variable {r : Regs}

section Nesting

/-- What one delivery leaves behind until its handler returns: the interrupted registers, the
signal, and the user memory right after the frame was pushed. -/
structure Saved where
  regs : Regs
  sig : ℕ
  mem : Mem

/-- A task as its handlers see it; `saved` are the deliveries that have not returned, latest
first. -/
structure Context where
  sig : Sig
  regs : Regs
  mem : Mem
  saved : List Saved

/-- An entry into the kernel, with the delivery at its start. -/
def Context.enter (c : Context) : Context :=
  { sig := (deliverSignals c.sig c.regs).1
    regs := entryFrame c.sig c.regs
    mem := entryMem c.sig c.regs c.mem
    saved :=
      match (deliverSignals c.sig c.regs).2 with
      | .enters sig => ⟨c.regs, sig, entryMem c.sig c.regs c.mem⟩ :: c.saved
      | _ => c.saved }

/-- System call 34. -/
def Context.sigreturn (c : Context) : Context :=
  let c := c.enter
  { c with
    sig := (krustSchedSigreturn c.sig c.regs c.mem).1
    regs := (krustSchedSigreturn c.sig c.regs c.mem).2
    saved := if sigreturnValue c.regs c.mem = 0 then c.saved.tail else c.saved }

/-- Between two entries the task runs any code: registers, memory and signal state are whatever the
code and the other tasks make of them. -/
inductive Step where
  | code (g : Sig) (r : Regs) (m : Mem)
  | enter
  | sigreturn

def Step.exec (c : Context) : Step → Context
  | .code g r m => { c with sig := g, regs := r, mem := m }
  | .enter => c.enter
  | .sigreturn => c.sigreturn

inductive Nested : Context → Prop
  | start (g : Sig) (r : Regs) (m : Mem) : Wide r → (∀ sig, g.handler sig < 2 ^ 64) →
      Nested ⟨g, r, m, []⟩
  | code {c : Context} (g : Sig) (r : Regs) (m : Mem) : Nested c → Wide r →
      (∀ sig, g.handler sig < 2 ^ 64) → Nested ((Step.code g r m).exec c)
  | enter {c : Context} : Nested c → Nested (Step.enter.exec c)
  | sigreturn {c : Context} : Nested c → Nested (Step.sigreturn.exec c)

/-- The handler has left its signal frame and its stack pointer as it found them. -/
structure AsFound (c : Context) (f : Saved) : Prop where
  rsp : c.regs.userRsp = newUsp f.regs
  frame : ∀ x, newUsp f.regs ≤ x → x < newUsp f.regs + 56 → c.mem x = f.mem x

/-- The call brings back the interrupted registers and leaves the earlier deliveries. -/
def Restored (c : Context) (f : Saved) (rest : List Saved) : Prop :=
  c.sigreturn.regs = f.regs ∧ c.sigreturn.saved = rest

/-- When it does: no delivery comes in between, the interrupted state passes the checks, its trap
and interrupt flags were clear, `rax` held the number of the signal, and the handler has put back
`rdi`. -/
structure Restorable (c : Context) (f : Saved) : Prop where
  quiet : ∀ sig, (deliverSignals c.sig c.regs).2 ≠ .enters sig
  accepted : Acceptable f.regs.rip f.regs.cs f.regs.ss f.regs.userRsp
  trap : f.regs.rflags.testBit 8 = false
  interrupt : f.regs.rflags.testBit 9 = false
  rax : f.regs.rax = f.sig
  rdi : c.regs.rdi = f.regs.rdi

/-- A delivery whose frame was pushed as the interrupted registers require. -/
structure Pushed (f : Saved) : Prop where
  wide : Wide f.regs
  sig : f.sig < nsig
  mem : ∃ m, f.mem = writeWords m (newUsp f.regs) (sigframe f.regs f.sig)

/-- What every reached context keeps. -/
structure Sound (c : Context) : Prop where
  wide : Wide c.regs
  handler : ∀ sig, c.sig.handler sig < 2 ^ 64
  saved : ∀ f ∈ c.saved, Pushed f

variable {c : Context} {f : Saved} {rest : List Saved} {g : Sig} {r : Regs} {m : Mem} {sig : ℕ}

lemma deliverLoop_enters {l : List ℕ} (h : (deliverLoop r l g).2 = .enters sig) : sig ∈ l := by
  induction l generalizing g with
  | nil => cases h
  | cons x l ih =>
    unfold deliverLoop at h
    split_ifs at h
    · exact mem_cons_of_mem _ (ih h)
    · exact mem_cons_of_mem _ (ih h)
    · exact mem_cons_of_mem _ (ih h)
    · exact mem_cons_of_mem _ (ih h)
    rw [Delivery.enters.inj h]
    exact mem_cons_self

lemma deliverLoop_handler (l : List ℕ) : (deliverLoop r l g).1.handler = g.handler := by
  induction l generalizing g with
  | nil => rfl
  | cons x l ih =>
    unfold deliverLoop
    split_ifs
    · exact ih
    · exact ih
    · exact ih
    · rfl
    · exact ih
    · rfl
    · rfl

lemma enters_lt (h : (deliverSignals g r).2 = .enters sig) : sig < nsig := by
  have hmem := deliverLoop_enters h
  rw [mem_range'_1] at hmem
  unfold nsig at hmem ⊢
  omega

lemma newUsp_lt (r : Regs) : newUsp r < 2 ^ 64 := Nat.mod_lt _ (by decide)

lemma newUsp_ne (h : r.userRsp < 2 ^ 64) : newUsp r ≠ r.userRsp := by
  unfold newUsp
  omega

lemma Sound.enter (h : Sound c) : Sound c.enter := by
  have hh : (deliverSignals c.sig c.regs).1.handler = c.sig.handler := deliverLoop_handler _
  cases hd : (deliverSignals c.sig c.regs).2 with
  | enters sig =>
    refine ⟨?_, fun x => ?_, ?_⟩
    · unfold Context.enter entryFrame
      rw [hd]
      exact ⟨h.handler sig, h.wide.cs, h.wide.rflags, newUsp_lt _, h.wide.ss⟩
    · unfold Context.enter
      rw [hh]
      exact h.handler x
    unfold Context.enter entryMem
    rw [hd]
    intro f hf
    rcases mem_cons.mp hf with rfl | hf
    · exact ⟨h.wide, enters_lt hd, c.mem, rfl⟩
    · exact h.saved f hf
  | nothing | exits sig =>
    refine ⟨?_, fun x => ?_, ?_⟩
    · unfold Context.enter entryFrame
      rw [hd]
      exact h.wide
    · unfold Context.enter
      rw [hh]
      exact h.handler x
    unfold Context.enter
    rw [hd]
    exact h.saved

lemma returned_wide (r : Regs) (m : Mem) : Wide (returned r m) :=
  ⟨frameWord_lt m _ 1, frameWord_lt m _ 2, lt_of_le_of_lt Nat.and_le_left (frameWord_lt m _ 3),
    frameWord_lt m _ 4, frameWord_lt m _ 5⟩

lemma sigreturn_handler : (krustSchedSigreturn g r m).1.handler = g.handler := by
  unfold krustSchedSigreturn
  dsimp only
  split_ifs <;> rfl

lemma Sound.sigreturn (h : Sound c) : Sound c.sigreturn := by
  have he := h.enter
  refine ⟨?_, fun x => ?_, fun f hf => ?_⟩
  · unfold Context.sigreturn
    dsimp only
    rw [sigreturn_regs]
    split_ifs
    · exact returned_wide _ _
    · exact he.wide
  · unfold Context.sigreturn
    dsimp only
    rw [sigreturn_handler]
    exact he.handler x
  unfold Context.sigreturn at hf
  dsimp only at hf
  split_ifs at hf
  · exact he.saved f (mem_of_mem_tail hf)
  · exact he.saved f hf

lemma Nested.sound (h : Nested c) : Sound c := by
  induction h with
  | start g r m hr hg => exact ⟨hr, hg, fun f hf => absurd hf not_mem_nil⟩
  | code g r m _ hr hg ih => exact ⟨hr, hg, ih.saved⟩
  | enter _ ih => exact ih.enter
  | sigreturn _ ih => exact ih.sigreturn

lemma AsFound.word (hf : AsFound c f) (hp : Pushed f) {i : ℕ} (hi : i < 7) :
    frameWord c.mem c.regs.userRsp i = (sigframe f.regs f.sig).get ⟨i, hi⟩ := by
  obtain ⟨m, hm⟩ := hp.mem
  have hr : frameWord c.mem c.regs.userRsp i =
      readLE (writeWords m (newUsp f.regs) (sigframe f.regs f.sig)) (newUsp f.regs + 8 * i) 8 := by
    unfold frameWord
    rw [hf.rsp, ← hm]
    exact readLE_congr fun x hx hx' => hf.frame x (by omega) (by omega)
  rw [hr, readLE_writeWords hi]
  apply Nat.mod_eq_of_lt
  have hsig : f.sig < 256 ^ 8 := hp.sig.trans (by decide)
  have hw := hp.wide
  interval_cases i
  · exact hsig
  · exact hw.rip
  · exact hw.cs
  · exact hw.rflags
  · exact hw.userRsp
  · exact hw.ss
  · exact Nat.pow_pos (by decide)

lemma AsFound.returned (hf : AsFound c f) (hp : Pushed f) :
    returned c.regs c.mem =
      { f.regs with
        rflags := f.regs.rflags &&& 0xFFFFFFFFFFFFFCFF, rax := f.sig, rdi := c.regs.rdi } := by
  unfold Traps.returned
  rw [hf.word hp (i := 0) (by decide), hf.word hp (i := 1) (by decide),
    hf.word hp (i := 2) (by decide), hf.word hp (i := 3) (by decide),
    hf.word hp (i := 4) (by decide), hf.word hp (i := 5) (by decide)]
  rfl

lemma AsFound.value (hf : AsFound c f) (hp : Pushed f) : sigreturnValue c.regs c.mem = 0 ↔
    Acceptable f.regs.rip f.regs.cs f.regs.ss f.regs.userRsp := by
  rw [sigreturnValue_eq_zero, hf.word hp (i := 1) (by decide), hf.word hp (i := 2) (by decide),
    hf.word hp (i := 4) (by decide), hf.word hp (i := 5) (by decide)]
  rfl

lemma enter_of_quiet (h : ∀ sig, (deliverSignals c.sig c.regs).2 ≠ .enters sig) :
    c.enter = { c with sig := (deliverSignals c.sig c.regs).1 } := by
  unfold Context.enter entryFrame entryMem
  cases hd : (deliverSignals c.sig c.regs).2 with
  | enters sig => exact absurd hd (h sig)
  | nothing => rfl
  | exits sig => rfl

def Context.delivery (c : Context) (sig : ℕ) : Saved := ⟨c.regs, sig, c.enter.mem⟩

lemma enterHandler_userRsp (g : Sig) (r : Regs) (sig : ℕ) :
    (enterHandler g r sig).userRsp = newUsp r := by
  rw [enterHandler]

lemma enter_of_enters (h : (deliverSignals c.sig c.regs).2 = .enters sig) :
    c.enter.regs = enterHandler c.sig c.regs sig ∧
      c.enter.mem = writeWords c.mem (newUsp c.regs) (sigframe c.regs sig) ∧
      c.enter.saved = c.delivery sig :: c.saved := by
  unfold Context.delivery Context.enter entryFrame entryMem
  rw [h]
  exact ⟨rfl, rfl, rfl⟩

lemma asFound_enter (h : (deliverSignals c.sig c.regs).2 = .enters sig) :
    AsFound c.enter (c.delivery sig) := by
  refine ⟨?_, fun _ _ _ => rfl⟩
  rw [(enter_of_enters h).1, enterHandler_userRsp]
  rfl

lemma sigreturn_of_quiet (h : ∀ sig, (deliverSignals c.sig c.regs).2 ≠ .enters sig) :
    c.sigreturn.regs = (if sigreturnValue c.regs c.mem = 0 then returned c.regs c.mem else c.regs) ∧
      c.sigreturn.saved = if sigreturnValue c.regs c.mem = 0 then c.saved.tail else c.saved := by
  unfold Context.sigreturn
  rw [enter_of_quiet h]
  dsimp only
  rw [sigreturn_regs]
  exact ⟨rfl, rfl⟩

/-- A delivery at the call itself: the call then returns from that delivery, to the caller's own
stack pointer, or it is refused with the stack pointer below the new frame. -/
lemma sigreturn_of_delivery (hc : Sound c) (h : (deliverSignals c.sig c.regs).2 = .enters sig) :
    c.sigreturn.regs.userRsp = c.regs.userRsp ∨ c.sigreturn.regs.userRsp = newUsp c.regs := by
  have hf := asFound_enter h
  have hp : Pushed (c.delivery sig) :=
    ⟨hc.wide, enters_lt h, c.mem, (enter_of_enters h).2.1⟩
  unfold Context.sigreturn
  dsimp only
  rw [sigreturn_regs]
  split_ifs
  · left
    rw [hf.returned hp]
    rfl
  right
  exact hf.rsp

/-- A handler that leaves its frame as found goes back to the interrupted state, and the earlier
deliveries stay in their order, exactly under `Restorable`. -/
theorem sigreturn_restores_iff (h : Nested c) (hs : c.saved = f :: rest) (hf : AsFound c f) :
    Restored c f rest ↔ Restorable c f := by
  have hc := h.sound
  have hp : Pushed f := hc.saved f (hs ▸ mem_cons_self)
  have hne := newUsp_ne hp.wide.userRsp
  constructor
  · rintro ⟨hr, -⟩
    have hq : ∀ sig, (deliverSignals c.sig c.regs).2 ≠ .enters sig := by
      intro sig hd
      have hrsp := sigreturn_of_delivery hc hd
      rw [hr] at hrsp
      unfold newUsp at hrsp hne
      have hfo := hf.rsp
      unfold newUsp at hfo
      have hlt := hp.wide.userRsp
      omega
    rw [(sigreturn_of_quiet hq).1] at hr
    by_cases hv : sigreturnValue c.regs c.mem = 0
    · rw [if_pos hv, hf.returned hp] at hr
      have hfl := (mask_eq_iff hp.wide.rflags).mp (congrArg Regs.rflags hr)
      have hrdi : c.regs.rdi = f.regs.rdi := (Regs.mk.inj hr).2.2.2.2.2.2
      exact ⟨hq, (hf.value hp).mp hv, hfl.1, hfl.2, (congrArg Regs.rax hr).symm, hrdi⟩
    rw [if_neg hv] at hr
    have hrsp := hf.rsp
    rw [hr] at hrsp
    exact absurd hrsp.symm hne
  intro hok
  obtain ⟨hr, hsa⟩ := sigreturn_of_quiet hok.quiet
  have hv := (hf.value hp).mpr hok.accepted
  rw [if_pos hv] at hr hsa
  refine ⟨?_, ?_⟩
  · rw [hr, hf.returned hp, (mask_eq_iff hp.wide.rflags).mpr ⟨hok.trap, hok.interrupt⟩,
      ← hok.rax, hok.rdi]
  rw [hsa, hs]
  rfl

/-- A task with a handler for signal 10, which is pending. -/
def usr1Pending : Sig :=
  (⟨fun _ => false, fun _ => false, fun sig => if sig = 10 then 0x400000 else 0⟩ : Sig).raise 10

/-- A task with the registers `r` that signal 10 is about to interrupt. -/
def running (r : Regs) : Context := ⟨usr1Pending, r, fun _ => 0, []⟩

lemma running_nested (hr : Wide r) : Nested (running r) := by
  refine Nested.start usr1Pending r (fun _ => 0) hr fun sig => ?_
  change (if sig = 10 then 0x400000 else 0) < 2 ^ 64
  split_ifs <;> decide

lemma running_interrupted (hr : Wide r)
    (hen : (deliverSignals (running r).sig (running r).regs).2 = .enters 10)
    (hq : (deliverSignals (running r).enter.sig (running r).enter.regs).2 = .nothing) :
    ∃ (c : Context) (f : Saved), Nested c ∧ c.saved = [f] ∧ AsFound c f ∧ f.regs = r ∧ f.sig = 10 ∧
      c.regs.rdi = 10 ∧ ∀ sig, (deliverSignals c.sig c.regs).2 ≠ .enters sig := by
  have hn := running_nested hr
  have hs : (running r).saved = [] := rfl
  have hre : (running r).regs = r := rfl
  generalize running r = c at *
  have he := enter_of_enters hen
  refine ⟨c.enter, c.delivery 10, hn.enter, he.2.2.trans (by rw [hs]),
    asFound_enter hen, hre, rfl, ?_, ?_⟩
  · rw [he.1]
    rfl
  rw [hq]
  exact fun sig h => Delivery.noConfusion h

theorem sigreturn_restores_iff_clear_flags : ∃ (c : Context) (f : Saved), Nested c ∧
    AsFound c f ∧ f.regs = ⟨0x401000, 0x1B, 0x2, 0x7000, 0x23, 10, 10⟩ ∧ Restored c f [] := by
  obtain ⟨c, f, hn, hs, hf, hr, hsig, hrdi, hq⟩ :=
    running_interrupted (r := ⟨0x401000, 0x1B, 0x2, 0x7000, 0x23, 10, 10⟩)
      ⟨by decide, by decide, by decide, by decide, by decide⟩ (by decide) (by decide)
  refine ⟨c, f, hn, hf, hr, (sigreturn_restores_iff hn hs hf).mpr ?_⟩
  refine ⟨hq, ?_, ?_, ?_, ?_, ?_⟩
  · rw [hr]
    exact ⟨by decide, by decide, by decide, by decide, by decide, by decide⟩
  · rw [hr]
    decide
  · rw [hr]
    decide
  · rw [hr, hsig]
  · rw [hr, hrdi]

/-- A task that runs with interrupts enabled, as every task does, comes back from its handler with
interrupts disabled, and with the number of the signal in `rax` and `rdi`. -/
theorem sigreturn_loses_flags_and_rax : ∃ (c : Context) (f : Saved), Nested c ∧ c.saved = [f] ∧
    AsFound c f ∧ f.regs = ⟨0x401000, 0x1B, 0x202, 0x7000, 0x23, 7, 5⟩ ∧
    c.sigreturn.regs = ⟨0x401000, 0x1B, 0x2, 0x7000, 0x23, 10, 10⟩ ∧ ¬ Restored c f [] := by
  obtain ⟨c, f, hn, hs, hf, hr, hsig, hrdi, hq⟩ :=
    running_interrupted (r := ⟨0x401000, 0x1B, 0x202, 0x7000, 0x23, 7, 5⟩)
      ⟨by decide, by decide, by decide, by decide, by decide⟩ (by decide) (by decide)
  have hp : Pushed f := hn.sound.saved f (hs ▸ mem_cons_self)
  have hv : sigreturnValue c.regs c.mem = 0 := by
    rw [hf.value hp, hr]
    exact ⟨by decide, by decide, by decide, by decide, by decide, by decide⟩
  have hre : c.sigreturn.regs = ⟨0x401000, 0x1B, 0x2, 0x7000, 0x23, 10, 10⟩ := by
    rw [(sigreturn_of_quiet hq).1, if_pos hv, hf.returned hp, hr, hsig, hrdi]
    rfl
  refine ⟨c, f, hn, hs, hf, hr, hre, fun h => ?_⟩
  have hrax := congrArg Regs.rax (hre.symm.trans (h.1.trans hr))
  exact absurd hrax (by decide)

end Nesting

section Confinement
open Syscalls

/-- How a task is to go on in user mode: privilege level 3, interrupts enabled, I/O privilege
level 0. -/
structure Resumes (r : Regs) : Prop where
  user : r.cs % 4 = 3
  enabled : r.rflags.testBit 9 = true
  iopl : r.rflags.testBit 12 = false ∧ r.rflags.testBit 13 = false

/-- What the two signal functions are to keep for one register state, signal state and memory. -/
structure Confined (g : Sig) (r : Regs) (m : Mem) : Prop where
  resumes : sigreturnValue r m = 0 → Resumes (krustSchedSigreturn g r m).2
  reads : isUserRange r.userRsp 56 = true
  writes : ∀ sig, (deliverSignals g r).2 = .enters sig → isUserRange (newUsp r) 56 = true

lemma isUserRange_iff {ptr size : ℕ} :
    isUserRange ptr size = true ↔ 0x1000 ≤ ptr ∧ ptr + size ≤ userAddrMax := by
  unfold isUserRange userAddrMax
  split_ifs
  · simp only [false_iff]
    omega
  · simp only [false_iff]
    omega
  · simp only [false_iff]
    omega
  simp only [true_iff]
  omega

/-- An accepted frame is resumed at privilege level 3, always with interrupts disabled, and with the
I/O privilege level the frame asks for. -/
lemma sigreturn_resumed {g : Sig} (h : sigreturnValue r m = 0) :
    (krustSchedSigreturn g r m).2.cs % 4 = 3 ∧
      (krustSchedSigreturn g r m).2.rflags.testBit 9 = false ∧
      (krustSchedSigreturn g r m).2.rflags.testBit 12 = (frameWord m r.userRsp 3).testBit 12 ∧
      (krustSchedSigreturn g r m).2.rflags.testBit 13 = (frameWord m r.userRsp 3).testBit 13 := by
  have hcs := (sigreturnValue_eq_zero.mp h).cs
  have hbit := fun i => testBit_mask (frameWord m r.userRsp 3) i (frameWord_lt _ _ _)
  rw [sigreturn_regs, if_pos h]
  unfold returned
  dsimp only
  rw [hbit 9, hbit 12, hbit 13]
  exact ⟨by omega, and_false _, and_true _, and_true _⟩

/-- Both functions keep to the rules exactly when the frame is refused and every frame read or
written lies in the user range. -/
theorem signals_confined_iff {g : Sig} {r : Regs} {m : Mem} (hr : r.userRsp < 2 ^ 64) :
    Confined g r m ↔ sigreturnValue r m = -1 ∧
      0x1000 ≤ r.userRsp ∧ r.userRsp + 56 ≤ userAddrMax ∧
      ∀ sig, (deliverSignals g r).2 = .enters sig → 0x1000 + 56 ≤ r.userRsp := by
  constructor
  · intro h
    have hre := isUserRange_iff.mp h.reads
    refine ⟨?_, hre.1, hre.2, fun sig hd => ?_⟩
    · rcases sigreturnValue_cases r m with hv | hv
      · have he := (h.resumes hv).enabled
        rw [(sigreturn_resumed hv).2.1] at he
        exact absurd he false_ne_true
      · exact hv
    have hw := isUserRange_iff.mp (h.writes sig hd)
    unfold newUsp userAddrMax at hw
    unfold userAddrMax at hre
    omega
  rintro ⟨hv, hlow, hh, hwr⟩
  refine ⟨fun h0 => ?_, isUserRange_iff.mpr ⟨hlow, hh⟩, fun sig hd => ?_⟩
  · rw [hv] at h0
    cases h0
  have hd := hwr sig hd
  apply isUserRange_iff.mpr
  unfold newUsp userAddrMax
  unfold userAddrMax at hh
  omega

theorem signals_confined_iff_pending :
    (deliverSignals usr1Pending ⟨0x401000, 0x1B, 0x202, 0x7000, 0x23, 34, 0⟩).2 = .enters 10 ∧
      Confined usr1Pending ⟨0x401000, 0x1B, 0x202, 0x7000, 0x23, 34, 0⟩ fun _ => 0 :=
  ⟨by decide, (signals_confined_iff (by decide)).mpr
    ⟨by decide, by decide, by decide, fun _ _ => by decide⟩⟩

/-- A user task takes I/O privilege level 3, with interrupts disabled, by returning from a frame of
its own making; and a stack pointer into the kernel's half is read from and written to as it
stands. -/
theorem sigreturn_grants_iopl :
    sigreturnValue ⟨0x401000, 0x1B, 0x202, 0x7000, 0x23, 34, 0⟩
        (writeWords (fun _ => 0) 0x7000 [1, 0x401000, 0x1B, 0x3002, 0x8000, 0x23, 0]) = 0 ∧
      (krustSchedSigreturn Sig.new ⟨0x401000, 0x1B, 0x202, 0x7000, 0x23, 34, 0⟩
        (writeWords (fun _ => 0) 0x7000 [1, 0x401000, 0x1B, 0x3002, 0x8000, 0x23, 0])).2 =
        ⟨0x401000, 0x1B, 0x3002, 0x8000, 0x23, 1, 0⟩ ∧
      sigreturnValue ⟨0x401000, 0x1B, 0x202, 0xFFFF800000001000, 0x23, 34, 0⟩
        (writeWords (fun _ => 0) 0xFFFF800000001000 [1, 0x401000, 0x1B, 0x3002, 0x8000, 0x23, 0]) = 0 ∧
      isUserRange 0xFFFF800000001000 56 = false ∧
      (deliverSignals usr1Pending ⟨0x401000, 0x1B, 0x202, 0xFFFF800000001038, 0x23, 34, 0⟩).2 =
        .enters 10 ∧
      newUsp ⟨0x401000, 0x1B, 0x202, 0xFFFF800000001038, 0x23, 34, 0⟩ = 0xFFFF800000001000 := by
  refine ⟨?_, ?_, ?_, ?_, ?_, ?_⟩
  all_goals decide +kernel

end Confinement
end Elitra.Traps
