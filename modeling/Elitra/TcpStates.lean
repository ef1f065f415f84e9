import Elitra.TcpReceive

namespace Elitra.Tcp

section States

inductive TcpEvent where
  | segment (s : Segment)
  | send (data : List Byte)
  | close
  | retransmit (due : Bool)

def next (c : TcpConnection) : TcpEvent → TcpConnection
  | .segment s => (processSegment c s).1
  | .send data => (sendData c data).1
  | .close => (close c).1
  | .retransmit due => (checkRetransmit c due).1

def Opening.connection : Opening → TcpConnection × Option Packet
  | .active isn _ _ => activeOpen isn
  | .passive isn seqNum => passiveOpen isn seqNum

/-- An ACK of all that was sent, so of the SYN or the FIN when that was the last. -/
def CoversAll (c : TcpConnection) (s : Segment) : Prop :=
  has s.flags flagAck = true ∧ s.ackNum = c.sendSeq

/-- A RST in the receive window. -/
def AcceptableRst (c : TcpConnection) (s : Segment) : Prop :=
  has s.flags flagRst = true ∧
    (s.seqNum = c.recvSeq ∨ wrappingSub s.seqNum c.recvSeq < advertisedRecvWindow c)

def Synchronized (state : TcpState) : Prop :=
  state ≠ .closed ∧ state ≠ .listen ∧ state ≠ .synSent ∧ state ≠ .synReceived

/-- The arrows of the diagram that a segment takes, and the two for a FIN with the ACK of ours and
for a RST, which the text adds. -/
def segmentArrow (c : TcpConnection) (s : Segment) : TcpState → TcpState → Prop
  | .synSent, .established => has s.flags flagSyn = true ∧ CoversAll c s
  | .synSent, .synReceived => has s.flags flagSyn = true
  | .synSent, .closed => has s.flags flagRst = true ∧ CoversAll c s
  | .synReceived, .established => CoversAll c s
  | .synReceived, .closeWait => has s.flags flagFin = true
  | .synReceived, .listen | .synReceived, .closed => AcceptableRst c s
  | .established, .closeWait => has s.flags flagFin = true
  | .finWait1, .finWait2 => CoversAll c s
  | .finWait1, .closing => has s.flags flagFin = true
  | .finWait1, .timeWait => has s.flags flagFin = true ∧ CoversAll c s
  | .finWait2, .timeWait => has s.flags flagFin = true
  | .closing, .timeWait => CoversAll c s
  | .lastAck, .closed => CoversAll c s ∨ AcceptableRst c s
  | state, .closed => Synchronized state ∧ AcceptableRst c s
  | _, _ => False

def closeArrow : TcpState → TcpState → Prop
  | .listen, .closed | .synSent, .closed => True
  | .synReceived, .finWait1 | .established, .finWait1 => True
  | .closeWait, .lastAck => True
  | _, _ => False

/-- The user timeout closes a connection in any state. -/
def Arrow (c : TcpConnection) : TcpEvent → TcpState → Prop
  | .segment s, state => segmentArrow c s c.state state
  | .send _, _ => False
  | .close, state => closeArrow c.state state
  | .retransmit due, state => due = true ∧ state = .closed

/-- A change of the state follows an arrow, and two of the arrows have to be taken. -/
structure Conforms (c : TcpConnection) (e : TcpEvent) : Prop where
  change : (next c e).state = c.state ∨ Arrow c e (next c e).state
  rst : ∀ s, e = .segment s → Synchronized c.state → AcceptableRst c s →
    (next c e).state = .closed
  close : e = .close → c.state = .closeWait → (next c e).state = .lastAck

/-- An active open sends a SYN, a passive one answers with SYN and ACK and waits. -/
def Opening.Conforms : Opening → Prop
  | .active isn _ _ => (activeOpen isn).1.state = .synSent ∧
      ∃ p, (activeOpen isn).2 = some p ∧ p.flags = flagSyn
  | .passive isn seqNum => (passiveOpen isn seqNum).1.state = .synReceived ∧
      ∃ p, (passiveOpen isn seqNum).2 = some p ∧ p.flags = flagSyn ||| flagAck

def ConformsAll : TcpConnection → List TcpEvent → Prop
  | _, [] => True
  | c, e :: events => Conforms c e ∧ ConformsAll (next c e) events

def SegmentKept (c : TcpConnection) (s : Segment) : Prop :=
  match c.state with
  | .synSent => (has s.flags flagSyn = true → has s.flags flagAck = true → s.ackNum = c.sendSeq) ∧
      (has s.flags flagRst = true → CoversAll c s)
  | .synReceived => has s.flags flagAck = true → s.ackNum = c.sendSeq
  | .established | .finWait2 | .timeWait => ¬ AcceptableRst c s
  | .closeWait => False
  | .finWait1 => ¬ AcceptableRst c s ∧ (has s.flags flagAck = true → s.ackNum = c.sendSeq) ∧
      (has s.flags flagFin = true → has s.flags flagAck = true)
  | .closing => ¬ AcceptableRst c s ∧ (has s.flags flagAck = true → s.ackNum = c.sendSeq)
  | .lastAck => if has s.flags flagAck then s.ackNum = c.sendSeq ∨ AcceptableRst c s
      else ¬ AcceptableRst c s
  | .closed | .listen => True

def Kept (c : TcpConnection) : TcpEvent → Prop
  | .segment s => SegmentKept c s
  | .send _ => True
  | .close =>
    c.state = .closed ∨ c.state = .listen ∨ c.state = .synSent ∨ c.state = .established
  | .retransmit _ => True

def KeptAll : TcpConnection → List TcpEvent → Prop
  | _, [] => True
  | c, e :: events => Kept c e ∧ KeptAll (next c e) events

variable {c : TcpConnection} {s : Segment}

lemma conforms_segment_iff : Conforms c (.segment s) ↔
    ((processSegment c s).1.state = c.state ∨
        segmentArrow c s c.state (processSegment c s).1.state) ∧
      (Synchronized c.state → AcceptableRst c s → (processSegment c s).1.state = .closed) := by
  constructor
  · intro h
    exact ⟨h.change, h.rst s rfl⟩
  rintro ⟨hc, hrst⟩
  refine ⟨hc, ?_, nofun⟩
  intro s' heq
  cases heq
  exact hrst

lemma state_processSegment_established (hs : c.state = .established) :
    (processSegment c s).1.state =
      if has s.flags flagFin then .closeWait else .established := by
  have hd : (processData (processAck c s) s).1.state = .established := by
    rw [state_processData, state_processAck, hs]
  simp only [processSegment, hs]
  split
  · rfl
  · exact hd

lemma segment_conforms_iff : Conforms c (.segment s) ↔ SegmentKept c s := by
  rw [conforms_segment_iff]
  cases hs : c.state with
  | established =>
    rw [state_processSegment_established hs]
    by_cases hfin : has s.flags flagFin = true <;>
      simp [hfin, segmentArrow, SegmentKept, hs, Synchronized]
  | synSent =>
    by_cases hsyn : has s.flags flagSyn = true <;>
      by_cases hack : has s.flags flagAck = true <;>
      by_cases hrst : has s.flags flagRst = true <;>
      simp [hsyn, hack, hrst, processSegment, segmentArrow, SegmentKept, hs, Synchronized,
        CoversAll]
  | finWait1 =>
    by_cases hack : has s.flags flagAck = true <;>
      by_cases hfin : has s.flags flagFin = true <;>
      simp [hack, hfin, processSegment, segmentArrow, SegmentKept, hs, Synchronized,
        CoversAll, and_comm]
  | finWait2 =>
    by_cases hfin : has s.flags flagFin = true <;>
      simp [hfin, processSegment, segmentArrow, SegmentKept, hs, Synchronized]
  | _ =>
    by_cases hack : has s.flags flagAck = true <;>
      simp [hack, processSegment, segmentArrow, SegmentKept, hs, Synchronized, CoversAll, and_comm]

lemma close_conforms_iff : Conforms c .close ↔ Kept c .close := by
  have hiff : Conforms c .close ↔
      ((close c).1.state = c.state ∨ closeArrow c.state (close c).1.state) ∧
        (c.state = .closeWait → (close c).1.state = .lastAck) :=
    ⟨fun h => ⟨h.change, h.close rfl⟩, fun h => ⟨h.1, nofun, fun _ => h.2⟩⟩
  rw [hiff]
  cases hs : c.state <;> simp [close, hs, closeArrow, Kept]

lemma state_checkRetransmit (due : Bool) :
    (checkRetransmit c due).1.state = c.state ∨
      due = true ∧ (checkRetransmit c due).1.state = .closed := by
  cases due with
  | false =>
    refine .inl ?_
    unfold checkRetransmit
    repeat' split
    all_goals first | rfl | contradiction
  | true =>
    unfold checkRetransmit
    repeat' split
    all_goals first | exact .inl rfl | exact .inr ⟨rfl, rfl⟩

lemma conforms_iff (e : TcpEvent) : Conforms c e ↔ Kept c e := by
  cases e with
  | segment s => exact segment_conforms_iff
  | send data => exact iff_of_true ⟨.inl (state_sendData c data), nofun, nofun⟩ trivial
  | close => exact close_conforms_iff
  | retransmit due => exact iff_of_true ⟨state_checkRetransmit due, nofun, nofun⟩ trivial

lemma conformsAll_iff (c : TcpConnection) (events : List TcpEvent) :
    ConformsAll c events ↔ KeptAll c events := by
  induction events generalizing c with
  | nil => exact Iff.rfl
  | cons e events ih => exact and_congr (conforms_iff e) (ih (next c e))

lemma opening_conforms_iff (o : Opening) : o.Conforms ↔ o.isPassive = false := by
  cases o with
  | active isn addr ephemeral => exact iff_of_true ⟨rfl, _, rfl, rfl⟩ rfl
  | passive isn seqNum =>
    refine iff_of_false ?_ nofun
    rintro ⟨hs, -⟩
    rw [passiveOpen_eq] at hs
    cases hs

/-- A connection follows the diagram from its opening on exactly when it was opened actively, no RST
in the window reaches it once it is synchronized, no segment at all reaches it between the FIN of the
peer and the close, every ACK for a SYN or FIN covers it, and it is closed only while it is opening
or established. -/
theorem opening_conformsAll_iff (o : Opening) (events : List TcpEvent) :
    o.Conforms ∧ ConformsAll o.connection.1 events ↔
      o.isPassive = false ∧ KeptAll o.connection.1 events :=
  and_congr (opening_conforms_iff o) (conformsAll_iff _ _)

def synAck : TcpEvent := .segment ⟨flagSyn ||| flagAck, 100, 1, defaultWindow, []⟩

/-- A passive open does not answer and does not wait. A RST does not close an established connection;
after the FIN of the peer a close leads to `FinWait1` and an ACK that comes instead to `LastAck`; an
ACK that does not cover the FIN takes `FinWait1` further. -/
theorem diagram_not_followed :
    ¬ (Opening.passive 0 100).Conforms ∧
      ¬ ConformsAll (activeOpen 0).1 [synAck, .segment ⟨flagRst, 101, 0, 0, []⟩] ∧
      ¬ ConformsAll (activeOpen 0).1
        [synAck, .segment ⟨flagFin ||| flagAck, 101, 1, defaultWindow, []⟩, .close] ∧
      ¬ ConformsAll (activeOpen 0).1
        [synAck, .segment ⟨flagFin ||| flagAck, 101, 1, defaultWindow, []⟩,
          .segment ⟨flagAck, 102, 1, defaultWindow, []⟩] ∧
      ¬ ConformsAll (activeOpen 0).1
        [synAck, .close, .segment ⟨flagAck, 101, 1, defaultWindow, []⟩] := by
  refine ⟨?_, ?_, ?_, ?_, ?_⟩
  · rw [opening_conforms_iff]
    decide
  · rintro ⟨-, h, -⟩
    have hc := h.rst _ rfl ⟨by decide, by decide, by decide, by decide⟩
      ⟨by decide, .inl (by decide)⟩
    exact absurd hc (by decide)
  · rintro ⟨-, -, h, -⟩
    exact absurd (h.close rfl (by decide)) (by decide)
  · rintro ⟨-, -, h, -⟩
    exact (conforms_iff _).mp h
  rintro ⟨-, -, h, -⟩
  have hk := (conforms_iff _).mp h
  exact absurd (hk.2.1 (by decide)) (by decide)

end States

end Elitra.Tcp
