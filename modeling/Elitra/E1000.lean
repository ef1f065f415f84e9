import Elitra.ByteMem
import Mathlib.Algebra.Ring.Nat
import Mathlib.Tactic.Common

namespace Elitra.E1000
open Function List

abbrev Frame := List (BitVec 8)

def numRxDesc : ℕ := 32

/-- The size of the buffer that `krust_net_poll` hands to `receive`. -/
def bufSize : ℕ := 1500

/-- Where a call of `krust_net_poll` is: in the loop of `poll`, in the loop around `receive`, or in
`resolve_mac` under `process_packet`, with so many rounds left. -/
inductive Phase where
  | idle
  | drain
  | receive
  | resolve (rounds : ℕ)
  deriving DecidableEq

/-- The ring with the device's registers. `arrived`, `delivered` and `raw` are history variables: the
frames placed in the ring, those handed to `process_packet` and those handed to
`process_packet_raw`. -/
structure Ring where
  status : ℕ → Bool
  buffer : ℕ → Frame
  rxCur : ℕ
  rdh : ℕ
  rdt : ℕ
  phase : Phase
  arrived : List Frame
  delivered : List Frame
  raw : List Frame

inductive NetError where
  | wouldBlock
  | bufferTooSmall
  deriving DecidableEq

/-- The memory when `init` is done: the first descriptor of the ring at `rx` is cleared, the address
of a buffer is put into each, and then the first one at `tx` is cleared. Both addresses are numbers
of frames. -/
def initMem (buffers : ℕ → ℕ) (rx tx : ℕ) (m : Mem) : Mem :=
  let cleared : Mem := fun x => if rx ≤ x ∧ x < rx + 16 then 0 else m x
  let filled := (range numRxDesc).foldl
    (fun m i => ByteMem.writeLE m (rx + 16 * i) (buffers i) 8) cleared
  fun x => if tx ≤ x ∧ x < tx + 16 then 0 else filled x

def init (status : ℕ → Bool) : Ring where
  status := status
  buffer := fun _ => []
  rxCur := 0
  rdh := 0
  rdt := numRxDesc - 1
  phase := .idle
  arrived := []
  delivered := []
  raw := []

/-- One pass of the loop in `poll`. The descriptor is given back with its status bit still set. -/
def pollStep (s : Ring) : Ring :=
  if s.status s.rxCur then { s with rdt := s.rxCur, rxCur := (s.rxCur + 1) % numRxDesc }
  else { s with phase := .receive }

def receive (s : Ring) : Except NetError (Frame × Ring) :=
  if !s.status s.rxCur then .error .wouldBlock
  else if bufSize < (s.buffer s.rxCur).length then .error .bufferTooSmall
  else .ok (s.buffer s.rxCur, { s with
    status := update s.status s.rxCur false
    rdt := s.rxCur
    rxCur := (s.rxCur + 1) % numRxDesc })

/-- One pass of the loop around `receive`; `arp` is whether `process_packet` has to wait for the
answer to an ARP request. -/
def receiveStep (s : Ring) (arp : Bool) : Ring :=
  match receive s with
  | .error _ => { s with phase := .idle }
  | .ok (frame, s) =>
    { s with delivered := s.delivered ++ [frame], phase := if arp then .resolve 50 else .receive }

/-- One `receive` in `resolve_mac`; `found` is whether the address is in the cache afterwards. -/
def resolveStep (s : Ring) (rounds : ℕ) (found : Bool) : Ring :=
  match receive s with
  | .ok (frame, s) => { s with raw := s.raw ++ [frame] }
  | .error _ =>
    if found || rounds ≤ 1 then { s with phase := .receive }
    else { s with phase := .resolve (rounds - 1) }

def driverStep (s : Ring) (flag : Bool) : Ring :=
  match s.phase with
  | .idle => s
  | .drain => pollStep s
  | .receive => receiveStep s flag
  | .resolve rounds => resolveStep s rounds flag

inductive Event where
  | arrive (frame : Frame)
  | call
  | driver (flag : Bool)

/-- The device fills the descriptor at its head unless that is the tail. -/
def step (s : Ring) : Event → Option Ring
  | .arrive frame =>
    if s.rdh = s.rdt then none
    else some { s with
      status := update s.status s.rdh true
      buffer := update s.buffer s.rdh frame
      rdh := (s.rdh + 1) % numRxDesc
      arrived := s.arrived ++ [frame] }
  | .call => if s.phase = .idle then some { s with phase := .drain } else none
  | .driver flag => some (driverStep s flag)

def run : Ring → List Event → Option Ring
  | s, [] => some s
  | s, e :: es => (step s e).bind fun s => run s es

/-- The driver takes `n` steps while nothing arrives. -/
def alone : ℕ → Ring → Ring
  | 0, s => s
  | n + 1, s => alone n (driverStep s false)

section Delivery

/-- A frame comes in while a call is in its loop around `receive`, it fits into the buffer, and
`process_packet` does not have to wait for an ARP answer. -/
def Timely (s : Ring) : Event → Prop
  | .arrive frame => s.phase = .receive ∧ frame.length ≤ bufSize
  | .call => True
  | .driver flag => flag = false

/-- The status bit of a descriptor that the driver reads, after `init`. -/
def initStatus (buffers : ℕ → ℕ) (rx tx : ℕ) (m : Mem) (i : ℕ) : Bool :=
  (initMem buffers rx tx m (rx + 16 * i + 12)).getLsbD 0

/-- The device takes the ring at the address that the driver means, the other ring is apart, and no
status bit is left in the frame from before. -/
structure Placed (rx tx : ℕ) (m : Mem) : Prop where
  aligned : rx % 16 = 0
  apart : rx + 16 * numRxDesc ≤ tx ∨ tx + 16 * numRxDesc ≤ rx
  clear : ∀ i, 0 < i → i < numRxDesc → (m (rx + 16 * i + 12)).getLsbD 0 = false

inductive Reached : Ring → Prop
  | init {rx tx : ℕ} {m : Mem} (buffers : ℕ → ℕ) (h : Placed rx tx m) :
      Reached (init (initStatus buffers rx tx m))
  | step {s s' : Ring} (e : Event) : Reached s → Timely s e → step s e = some s' → Reached s'

/-- The frames `pending` are in the ring from `rx_cur` on, and nothing else. -/
structure Inv (s : Ring) (pending : List Frame) : Prop where
  cur : s.rxCur < numRxDesc
  head : s.rdh = (s.rxCur + pending.length) % numRxDesc
  tail : s.rdt = (s.rxCur + (numRxDesc - 1)) % numRxDesc
  room : pending.length < numRxDesc
  full : ∀ i (hi : i < pending.length), s.status ((s.rxCur + i) % numRxDesc) = true ∧
    s.buffer ((s.rxCur + i) % numRxDesc) = pending[i]
  free : ∀ i, pending.length ≤ i → i < numRxDesc → s.status ((s.rxCur + i) % numRxDesc) = false
  small : ∀ frame ∈ pending, frame.length ≤ bufSize
  order : s.arrived = s.delivered ++ pending
  phase : s.phase = .receive ∨ pending = [] ∧ (s.phase = .idle ∨ s.phase = .drain)

variable {s s' : Ring} {pending : List Frame}

lemma filled_status (buffers : ℕ → ℕ) (rx i n : ℕ) (m : Mem) :
    (range n).foldl (fun m i => ByteMem.writeLE m (rx + 16 * i) (buffers i) 8) m
      (rx + 16 * i + 12) = m (rx + 16 * i + 12) := by
  induction n with
  | zero => rfl
  | succ n ih =>
    rw [range_succ, foldl_append, foldl_cons, foldl_nil, ByteMem.writeLE_of_outside (by omega), ih]

lemma Placed.status {rx tx : ℕ} {m : Mem} (h : Placed rx tx m) (buffers : ℕ → ℕ) {i : ℕ}
    (hi : i < numRxDesc) : initStatus buffers rx tx m i = false := by
  have ha := h.apart
  have hn : numRxDesc = 32 := rfl
  unfold initStatus initMem
  rw [if_neg (by omega), filled_status]
  by_cases hz : i = 0
  · rw [hz, if_pos ⟨by omega, by omega⟩]
    rfl
  · rw [if_neg (by omega)]
    exact h.clear i (by omega) hi

lemma Inv.init {status : ℕ → Bool} (h : ∀ i < numRxDesc, status i = false) :
    Inv (init status) [] := by
  refine ⟨show 0 < numRxDesc by decide, rfl, rfl, by decide, ?_, ?_, ?_, rfl,
    .inr ⟨rfl, .inl rfl⟩⟩
  · intro i hi
    cases hi
  · exact fun i _ _ => h _ (Nat.mod_lt _ (by decide))
  intro frame hf
  cases hf

lemma slot_ne {cur i j : ℕ} (hi : i < numRxDesc) (hj : j < numRxDesc) (hne : i ≠ j) :
    (cur + i) % numRxDesc ≠ (cur + j) % numRxDesc := by
  unfold numRxDesc at *
  omega

lemma slot_succ (cur i : ℕ) :
    ((cur + 1) % numRxDesc + i) % numRxDesc = (cur + (i + 1)) % numRxDesc := by
  unfold numRxDesc
  omega

variable {frame : Frame}

lemma Inv.arrive (h : Inv s pending) (hp : s.phase = .receive)
    (hsi : frame.length ≤ bufSize) (hs : step s (.arrive frame) = some s') :
    Inv s' (pending ++ [frame]) := by
  have hcur := h.cur
  have hr := h.room
  unfold step at hs
  dsimp only at hs
  split at hs
  · cases hs
  rename_i hne
  cases hs
  -- the ring is full exactly when the head has come to the tail
  have hlt : pending.length + 1 < numRxDesc := by
    rw [h.head, h.tail] at hne
    unfold numRxDesc at *
    omega
  refine ⟨hcur, ?_, h.tail, ?_, ?_, ?_, ?_, ?_, .inl hp⟩
  · dsimp only
    rw [h.head, length_append, length_singleton]
    unfold numRxDesc
    omega
  · rw [length_append, length_singleton]
    exact hlt
  · intro i hi
    rw [length_append, length_singleton] at hi
    dsimp only
    rw [h.head]
    by_cases heq : i = pending.length
    · subst heq
      rw [update_self, update_self]
      exact ⟨rfl, by simp⟩
    have hi' : i < pending.length := by omega
    have hsl : (s.rxCur + i) % numRxDesc ≠ (s.rxCur + pending.length) % numRxDesc :=
      slot_ne (Nat.lt_trans hi' hr) hr heq
    rw [update_of_ne hsl, update_of_ne hsl, getElem_append_left hi']
    exact h.full i hi'
  · intro i hi hi'
    rw [length_append, length_singleton] at hi
    dsimp only
    rw [h.head, update_of_ne (slot_ne hi' hr (by omega))]
    exact h.free i (by omega) hi'
  · intro x hx
    rcases mem_append.mp hx with hx | hx
    · exact h.small x hx
    rw [mem_singleton.mp hx]
    exact hsi
  dsimp only
  rw [h.order, append_assoc]

lemma Inv.receive_nil (h : Inv s []) : receive s = .error .wouldBlock := by
  have hs := h.free 0 (Nat.le_refl 0) (by decide)
  rw [Nat.add_zero, Nat.mod_eq_of_lt h.cur] at hs
  unfold receive
  rw [hs]
  rfl

def taken (s : Ring) : Ring :=
  { s with
    status := update s.status s.rxCur false
    rdt := s.rxCur
    rxCur := (s.rxCur + 1) % numRxDesc }

lemma Inv.receive_cons (h : Inv s (frame :: pending)) :
    receive s = .ok (frame, taken s) := by
  obtain ⟨hs, hb⟩ := h.full 0 (by simp)
  rw [Nat.add_zero, Nat.mod_eq_of_lt h.cur] at hs hb
  rw [getElem_cons_zero] at hb
  have hsi := h.small frame (mem_cons_self ..)
  unfold receive taken
  rw [hs, hb, if_neg (by decide), if_neg (by omega)]

lemma Inv.deliver (h : Inv s (frame :: pending)) :
    Inv { taken s with delivered := s.delivered ++ [frame], phase := .receive } pending := by
  have hcur := h.cur
  have hr := h.room
  have hh := h.head
  rw [length_cons] at hr hh
  refine ⟨Nat.mod_lt _ (by decide), ?_, ?_, by omega, ?_, ?_, ?_, ?_, .inl rfl⟩
  · change s.rdh = ((s.rxCur + 1) % numRxDesc + pending.length) % numRxDesc
    unfold numRxDesc at *
    omega
  · change s.rxCur = ((s.rxCur + 1) % numRxDesc + (numRxDesc - 1)) % numRxDesc
    unfold numRxDesc at *
    omega
  · intro i hi
    change update s.status s.rxCur false (((s.rxCur + 1) % numRxDesc + i) % numRxDesc) =
      true ∧ s.buffer (((s.rxCur + 1) % numRxDesc + i) % numRxDesc) = pending[i]
    have hne : (s.rxCur + (i + 1)) % numRxDesc ≠ s.rxCur := by
      unfold numRxDesc at *
      omega
    rw [slot_succ, update_of_ne hne]
    exact h.full (i + 1) (by simpa using hi)
  · intro i hi hi'
    change update s.status s.rxCur false (((s.rxCur + 1) % numRxDesc + i) % numRxDesc) = false
    rw [slot_succ]
    by_cases hl : (s.rxCur + (i + 1)) % numRxDesc = s.rxCur
    · rw [hl, update_self]
    rw [update_of_ne hl]
    refine h.free (i + 1) (by rw [length_cons]; omega) ?_
    unfold numRxDesc at *
    omega
  · exact fun x hx => h.small x (mem_cons_of_mem _ hx)
  change s.arrived = s.delivered ++ [frame] ++ pending
  rw [h.order, append_assoc]
  rfl

lemma Inv.setPhase (h : Inv s []) {phase : Phase}
    (hp : phase = .receive ∨ phase = .idle ∨ phase = .drain) :
    Inv { s with phase := phase } [] :=
  ⟨h.cur, h.head, h.tail, h.room, h.full, h.free, h.small, h.order,
    hp.imp_right fun hp => ⟨rfl, hp⟩⟩

lemma Inv.driver (h : Inv s pending) :
    (∃ frame rest, pending = frame :: rest ∧ Inv (driverStep s false) rest ∧
      (driverStep s false).phase = .receive) ∨
    pending = [] ∧ Inv (driverStep s false) [] ∧
      (s.phase = .drain → (driverStep s false).phase = .receive) ∧
      (s.phase ≠ .drain → (driverStep s false).phase = .idle) := by
  unfold driverStep
  rcases h.phase with hph | ⟨rfl, hph | hph⟩
  · rw [hph]
    dsimp only
    unfold receiveStep
    cases pending with
    | nil =>
      rw [h.receive_nil]
      exact .inr ⟨rfl, h.setPhase (.inr (.inl rfl)), fun hp => (by cases hp), fun _ => rfl⟩
    | cons frame rest =>
      rw [h.receive_cons]
      exact .inl ⟨frame, rest, rfl, h.deliver, rfl⟩
  · rw [hph]
    exact .inr ⟨rfl, h, fun hp => (by cases hp), fun _ => hph⟩
  rw [hph]
  have hs := h.free 0 (Nat.le_refl 0) (by decide)
  rw [Nat.add_zero, Nat.mod_eq_of_lt h.cur] at hs
  dsimp only
  unfold pollStep
  rw [hs]
  exact .inr ⟨rfl, h.setPhase (.inl rfl), fun _ => rfl, fun hp => absurd rfl hp⟩

lemma Reached.inv (h : Reached s) : ∃ pending, Inv s pending := by
  induction h with
  | init buffers h => exact ⟨[], Inv.init fun i hi => h.status buffers hi⟩
  | @step s s' e _ hok hs ih =>
    obtain ⟨pending, hinv⟩ := ih
    cases e with
    | arrive frame => exact ⟨_, hinv.arrive hok.1 hok.2 hs⟩
    | call =>
      unfold E1000.step at hs
      dsimp only at hs
      split at hs
      · rename_i hi
        cases hs
        have hnil : pending = [] := by
          rcases hinv.phase with hp | ⟨hnil, -⟩
          · rw [hi] at hp
            cases hp
          · exact hnil
        subst hnil
        exact ⟨[], hinv.setPhase (.inr (.inr rfl))⟩
      · cases hs
    | driver flag =>
      obtain rfl : flag = false := hok
      cases hs
      rcases hinv.driver with ⟨_, rest, -, hr, -⟩ | ⟨-, hr, -, -⟩
      · exact ⟨rest, hr⟩
      · exact ⟨[], hr⟩

end Delivery

end Elitra.E1000
