import Elitra.Tcp

namespace Elitra.Tcp
open List

def wrappingSub (a b : ℕ) : ℕ := (a + 2 ^ 32 - b) % 2 ^ 32

def flagPsh : Flags := 0x0008

/-- `TcpConnection::new`; `isn` is what `generate_isn` gives. -/
def TcpConnection.new (isn : ℕ) : TcpConnection := ⟨.closed, isn, 0, 0, defaultWindow, 0, []⟩

def bytesInFlight (c : TcpConnection) : ℕ := wrappingSub c.sendSeq c.sendUnack

def buildSyn (c : TcpConnection) : TcpConnection × Option Packet :=
  if c.state ≠ .closed then (c, none)
  else
    ({ c with state := .synSent, sendUnack := c.sendSeq, sendSeq := wrappingAdd c.sendSeq 1 },
      some ⟨c.sendSeq, 0, flagSyn, defaultWindow⟩)

/-- `send_data`, with the packet and the bytes that go with it. A packet has room for 200 bytes, 20
of them for the header. -/
def sendData (c : TcpConnection) (data : List Byte) : TcpConnection × Option (Packet × List Byte) :=
  if c.state ≠ .established then (c, none)
  else
    let available := c.sendWindow - bytesInFlight c
    if available = 0 then (c, none)
    else
      let chunk := data.take (min data.length available)
      if 200 < 20 + chunk.length then (c, none)
      else
        ({ c with sendSeq := wrappingAdd c.sendSeq chunk.length },
          some (⟨c.sendSeq, c.recvSeq, flagAck ||| flagPsh, advertisedRecvWindow c⟩, chunk))

def close (c : TcpConnection) : TcpConnection × Option Packet :=
  if c.state = .established ∨ c.state = .closeWait then
    ({ c with sendSeq := wrappingAdd c.sendSeq 1, state := .finWait1 },
      some ⟨c.sendSeq, c.recvSeq, flagFin ||| flagAck, advertisedRecvWindow c⟩)
  else ({ c with state := .closed }, none)

/-- `check_retransmit`; `due` is whether the timeout has passed. -/
def checkRetransmit (c : TcpConnection) (due : Bool) : TcpConnection × Option Packet :=
  if c.state ≠ .established then (c, none)
  else if bytesInFlight c = 0 then (c, none)
  else if !due then (c, none)
  else if 5 < c.retransmitCount + 1 then
    ({ c with retransmitCount := c.retransmitCount + 1, state := .closed }, none)
  else
    ({ c with retransmitCount := c.retransmitCount + 1 },
      some ⟨c.sendUnack, c.recvSeq, flagAck, advertisedRecvWindow c⟩)

def activeOpen (isn : ℕ) : TcpConnection × Option Packet := buildSyn (TcpConnection.new isn)

/-- The connection that `process_tcp_packet` makes when a SYN with the number `seqNum` comes in for a
listening socket, and what it answers. -/
def passiveOpen (isn seqNum : ℕ) : TcpConnection × Option Packet :=
  processSegment
    { TcpConnection.new isn with
      recvSeq := wrappingAdd seqNum 1
      state := .synReceived
      sendSeq := wrappingAdd isn 1 }
    ⟨flagSyn ||| flagAck, seqNum, 0, defaultWindow, []⟩

lemma activeOpen_eq (isn : ℕ) :
    activeOpen isn = (⟨.synSent, wrappingAdd isn 1, isn, 0, defaultWindow, 0, []⟩,
      some ⟨isn, 0, flagSyn, defaultWindow⟩) := rfl

/-- The SYN is not answered, and the number of the SYN takes the place of the one after it. -/
lemma passiveOpen_eq (isn seqNum : ℕ) :
    passiveOpen isn seqNum =
      (⟨.established, wrappingAdd isn 1, 0, seqNum, defaultWindow, 0, []⟩, none) := by
  have hack : has (flagSyn ||| flagAck) flagAck = true := by decide
  simp [passiveOpen, processSegment, TcpConnection.new, hack]

lemma state_sendData (c : TcpConnection) (data : List Byte) :
    (sendData c data).1.state = c.state := by
  unfold sendData
  dsimp only
  repeat' split
  all_goals rfl

/-- The segment closes the connection. -/
def ClosedBy (c : TcpConnection) (s : Segment) : Prop :=
  c.state = .synSent ∧ has s.flags flagRst ∧ (has s.flags flagSyn && has s.flags flagAck) = false ∨
    c.state = .lastAck ∧ has s.flags flagAck

lemma state_processSegment {c : TcpConnection} {s : Segment} (h : c.state ≠ .closed)
    (hs : ¬ ClosedBy c s) : (processSegment c s).1.state ≠ .closed := by
  unfold processSegment
  unfold ClosedBy at hs
  cases hc : c.state <;> simp only [hc] at h hs ⊢
  case established =>
    have hst := state_processData (processAck c s) s
    rw [state_processAck, hc] at hst
    split <;> simp [hst]
  all_goals repeat' split
  all_goals simp_all

/-- The sixth timeout of a connection closes it. -/
def GivesUp (c : TcpConnection) (due : Bool) : Prop :=
  c.state = .established ∧ bytesInFlight c ≠ 0 ∧ due = true ∧ 5 ≤ c.retransmitCount

lemma checkRetransmit_ne_closed {c : TcpConnection} {due : Bool} (h : c.state ≠ .closed)
    (hd : ¬ GivesUp c due) : (checkRetransmit c due).1.state ≠ .closed := by
  unfold checkRetransmit
  split_ifs with hs hf hdue hcount
  · exact h
  · exact h
  · exact h
  · exact absurd ⟨of_not_not hs, hf, by simpa using hdue, by omega⟩ hd
  · exact h

/-- The states in which a segment does nothing. -/
def Inert (state : TcpState) : Prop := state = .timeWait ∨ state = .listen ∨ state = .closed

lemma processSegment_inert {c : TcpConnection} (h : Inert c.state) (s : Segment) :
    (processSegment c s).1 = c := by
  unfold processSegment
  rcases h with h | h | h <;> rw [h]

/-- In every other state this segment changes the state. -/
def finRstAck : Segment := ⟨flagFin ||| flagRst ||| flagAck, 0, 0, 0, []⟩

lemma inert_of_finRstAck {c : TcpConnection}
    (h : (processSegment c finRstAck).1.state = c.state) : Inert c.state := by
  have hfin : has finRstAck.flags flagFin = true := by decide
  have hsyn : has finRstAck.flags flagSyn = false := by decide
  have hrst : has finRstAck.flags flagRst = true := by decide
  have hack : has finRstAck.flags flagAck = true := by decide
  unfold processSegment at h
  unfold Inert
  cases hc : c.state <;> simp [hc, hfin, hsyn, hrst, hack] at h ⊢

lemma isSome_sendData {c : TcpConnection} (h : c.state = .established) (data : List Byte) :
    (sendData c data).2.isSome ↔ 0 < c.sendWindow - bytesInFlight c ∧
      min data.length (c.sendWindow - bytesInFlight c) ≤ 180 := by
  have hstate : ¬ c.state ≠ .established := not_not.mpr h
  have hmin := min_eq_left (min_le_left data.length (c.sendWindow - bytesInFlight c))
  simp only [sendData, if_neg hstate, length_take, hmin]
  by_cases hzero : c.sendWindow - bytesInFlight c = 0
  · simp [hzero]
  · rw [if_neg hzero]
    have hpos := Nat.pos_of_ne_zero hzero
    by_cases hlong : 200 < 20 + min data.length (c.sendWindow - bytesInFlight c)
    · rw [if_pos hlong]
      exact iff_of_false Bool.false_ne_true fun hle => absurd hlong (by omega)
    · rw [if_neg hlong]
      exact iff_of_true rfl ⟨hpos, by omega⟩

end Elitra.Tcp
