import Mathlib.Algebra.Ring.Nat
import Mathlib.Data.List.GetD
import Mathlib.Data.List.Range
import Mathlib.Data.List.Infix

namespace Elitra.Tcp
open List

abbrev Byte := BitVec 8
abbrev Flags := BitVec 16

def flagFin : Flags := 0x0001
def flagSyn : Flags := 0x0002
def flagRst : Flags := 0x0004
def flagAck : Flags := 0x0010

def defaultWindow : ℕ := 65535
def recvBufSize : ℕ := 4096

inductive TcpState where
  | closed | listen | synSent | synReceived | established | finWait1 | finWait2 | closeWait
  | closing | lastAck | timeWait
  deriving DecidableEq, Repr

/-- A connection, without its addresses, timers and send buffer. `recvBuf` is the filled part of the
receive buffer, up to `recv_pos`. Sequence numbers are below `2 ^ 32`. -/
structure TcpConnection where
  state : TcpState
  sendSeq : ℕ
  sendUnack : ℕ
  recvSeq : ℕ
  sendWindow : ℕ
  retransmitCount : ℕ
  recvBuf : List Byte

structure Segment where
  flags : Flags
  seqNum : ℕ
  ackNum : ℕ
  windowSize : ℕ
  payload : List Byte

/-- The fields of an answer that do not come from the addresses. -/
structure Packet where
  seqNum : ℕ
  ackNum : ℕ
  flags : Flags
  window : ℕ

def wrappingAdd (a b : ℕ) : ℕ := (a + b) % 2 ^ 32

def has (flags flag : Flags) : Bool := flags &&& flag != 0

def advertisedRecvWindow (c : TcpConnection) : ℕ :=
  let remaining := recvBufSize - c.recvBuf.length
  if remaining < recvBufSize / 4 then remaining else defaultWindow

def processAck (c : TcpConnection) (s : Segment) : TcpConnection :=
  if has s.flags flagAck then
    { c with
      sendUnack := s.ackNum
      retransmitCount := 0
      sendWindow := if 0 < s.windowSize then s.windowSize else c.sendWindow }
  else c

/-- The data of an established connection; the sequence number is not looked at. -/
def processData (c : TcpConnection) (s : Segment) : TcpConnection × Option Packet :=
  if s.payload.isEmpty then (c, none)
  else
    let copyLen := min s.payload.length (recvBufSize - c.recvBuf.length)
    let c := { c with
      recvBuf := c.recvBuf ++ s.payload.take copyLen
      recvSeq := wrappingAdd c.recvSeq s.payload.length }
    (c, some ⟨c.sendSeq, c.recvSeq, flagAck, advertisedRecvWindow c⟩)

/-- `process_segment`, with the packet that it answers. An answer without data always fits. -/
def processSegment (c : TcpConnection) (s : Segment) : TcpConnection × Option Packet :=
  match c.state with
  | .synSent =>
    if has s.flags flagSyn && has s.flags flagAck then
      let c := { c with recvSeq := wrappingAdd s.seqNum 1, state := .established }
      (c, some ⟨c.sendSeq, c.recvSeq, flagAck, defaultWindow⟩)
    else if has s.flags flagRst then ({ c with state := .closed }, none)
    else (c, none)
  | .synReceived =>
    if has s.flags flagAck then ({ c with recvSeq := s.seqNum, state := .established }, none)
    else (c, none)
  | .established =>
    let (c, response) := processData (processAck c s) s
    if has s.flags flagFin then
      let c := { c with recvSeq := wrappingAdd c.recvSeq 1, state := .closeWait }
      (c, some ⟨c.sendSeq, c.recvSeq, flagAck, defaultWindow⟩)
    else (c, response)
  | .closeWait =>
    ({ c with sendSeq := wrappingAdd c.sendSeq 1, state := .lastAck },
      some ⟨c.sendSeq, c.recvSeq, flagFin ||| flagAck, advertisedRecvWindow c⟩)
  | .finWait1 =>
    let c := if has s.flags flagAck then { c with sendUnack := s.ackNum, state := .finWait2 } else c
    if has s.flags flagFin then
      let c := { c with recvSeq := wrappingAdd c.recvSeq 1, state := .timeWait }
      (c, some ⟨c.sendSeq, c.recvSeq, flagAck, advertisedRecvWindow c⟩)
    else (c, none)
  | .finWait2 =>
    if has s.flags flagFin then
      let c := { c with recvSeq := wrappingAdd c.recvSeq 1, state := .timeWait }
      (c, some ⟨c.sendSeq, c.recvSeq, flagAck, advertisedRecvWindow c⟩)
    else (c, none)
  | .lastAck => if has s.flags flagAck then ({ c with state := .closed }, none) else (c, none)
  | .timeWait => (c, none)
  | .closing => if has s.flags flagAck then ({ c with state := .timeWait }, none) else (c, none)
  | .listen => (c, none)
  | .closed => (c, none)

def be16At (data : List Byte) (i : ℕ) : ℕ :=
  (data.getD i 0).toNat * 2 ^ 8 + (data.getD (i + 1) 0).toNat

def be32At (data : List Byte) (i : ℕ) : ℕ := be16At data i * 2 ^ 16 + be16At data (i + 2)

/-- Where `parse_tcp_packet` lets the payload begin. The word is not swapped before it is shifted, so
that these are the upper four bits of the byte with the flags. -/
def dataOffset (data : List Byte) : ℕ := (data.getD 13 0).toNat / 2 ^ 4 * 4

def flagsOf (data : List Byte) : Flags := (data.getD 13 0 &&& 0x3F).setWidth 16

/-- `parse_tcp_packet`, with the fields as `process_tcp_packet` reads them. -/
def parseTcpPacket (data : List Byte) : Option Segment :=
  if data.length < 20 then none
  else if data.length < dataOffset data then none
  else some ⟨flagsOf data, be32At data 4, be32At data 8, be16At data 14, data.drop (dataOffset data)⟩

/-- A packet comes in for the connection. -/
def receive (c : TcpConnection) (data : List Byte) : TcpConnection :=
  match parseTcpPacket data with
  | some s => (processSegment c s).1
  | none => c

section Delivery

/-- A piece of the peer's stream on its way: `len` bytes from `off` on, behind a header with its
options. -/
structure Piece where
  header : List Byte
  off : ℕ
  len : ℕ
  long : 20 ≤ header.length

def Piece.data (stream : ℕ → Byte) (p : Piece) : List Byte :=
  p.header ++ (List.range p.len).map fun i => stream (p.off + i)

/-- The connection after the pieces came in, in the order of the list. -/
def arrive (stream : ℕ → Byte) (c : TcpConnection) (ps : List Piece) : TcpConnection :=
  ps.foldl (fun c p => receive c (p.data stream)) c

def sent (stream : ℕ → Byte) (n : ℕ) : List Byte := (List.range n).map stream

/-- The state after a segment for an established connection or one that its FIN closed. -/
def afterFlags (state : TcpState) (flags : Flags) : TcpState :=
  if state = .established then if has flags flagFin then .closeWait else .established
  else if state = .closeWait then .lastAck
  else if state = .lastAck then if has flags flagAck then .closed else .lastAck
  else state

/-- The packet reaches the connection. -/
def Piece.parsed (p : Piece) : Prop := dataOffset p.header ≤ p.header.length + p.len

instance (p : Piece) : Decidable p.parsed := inferInstanceAs (Decidable (_ ≤ _))

def afterPiece (state : TcpState) (p : Piece) : TcpState :=
  if p.parsed then afterFlags state (flagsOf p.header) else state

/-- How many bytes behind the data offset go into the buffer. -/
def accepted (state : TcpState) (fill : ℕ) (p : Piece) : ℕ :=
  if p.parsed ∧ state = .established then
    min (p.header.length + p.len - dataOffset p.header) (recvBufSize - fill)
  else 0

/-- What goes into the buffer begins behind the header, and where the last piece ended; `n` bytes
were delivered so far. Data that the offset skips is missing at the front of the piece. -/
def InOrder : TcpState → ℕ → ℕ → List Piece → Prop
  | _, _, _, [] => True
  | state, fill, n, p :: ps =>
    (0 < accepted state fill p → p.header.length ≤ dataOffset p.header ∧
        p.off + (dataOffset p.header - p.header.length) = n) ∧
      InOrder (afterPiece state p) (fill + accepted state fill p) (n + accepted state fill p) ps

instance decidableInOrder : ∀ state fill n ps, Decidable (InOrder state fill n ps)
  | _, _, _, [] => .isTrue trivial
  | _, _, _, _ :: _ => @instDecidableAnd _ _ _ (decidableInOrder _ _ _ _)

variable {stream : ℕ → Byte} {c : TcpConnection} {p : Piece}

lemma recvBuf_processAck (c : TcpConnection) (s : Segment) :
    (processAck c s).recvBuf = c.recvBuf := by
  unfold processAck
  split <;> rfl

lemma state_processAck (c : TcpConnection) (s : Segment) : (processAck c s).state = c.state := by
  unfold processAck
  split <;> rfl

lemma state_processData (c : TcpConnection) (s : Segment) :
    (processData c s).1.state = c.state := by
  unfold processData
  split <;> rfl

lemma recvBuf_processData (c : TcpConnection) (s : Segment) :
    (processData c s).1.recvBuf =
      c.recvBuf ++ s.payload.take (min s.payload.length (recvBufSize - c.recvBuf.length)) := by
  unfold processData
  split
  · rename_i he
    rw [isEmpty_iff.mp he]
    simp
  · rfl

/-- An established connection that has received nothing yet. -/
def idle : TcpConnection := ⟨.established, 1, 1, 1, defaultWindow, 0, []⟩

/-- A header without options, for the port 80. -/
def plainHeader (seqNum flags : Byte) : List Byte :=
  [0x13, 0x88, 0, 80, 0, 0, 0, seqNum, 0, 0, 0, 1, 0x50, flags, 0, 100, 0, 0, 0, 0]

end Delivery

end Elitra.Tcp
