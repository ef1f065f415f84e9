import Elitra.Socket
import Elitra.TcpCalls

namespace Elitra.Tcp
open List

section Receive

inductive Opening where
  | active (isn : ℕ) (addr : Net.SocketAddrIn) (ephemeral : ℕ)
  | passive (isn seqNum : ℕ)

def Opening.isPassive : Opening → Bool
  | .active .. => false
  | .passive .. => true

/-- A connection with the socket that the application has for it. The other fields record the run:
the number of the first byte of the peer's stream, once it is known, the FINs taken, the
acknowledgement numbers sent, each with the one that was due, and the bytes read. -/
structure Stream where
  conn : TcpConnection
  socket : Net.Socket
  irs : ℕ
  fins : ℕ
  acks : List (ℕ × ℕ)
  bytesRead : List Byte

def Opening.stream : Opening → Stream
  | .active isn addr ephemeral =>
    ⟨(activeOpen isn).1, ((Net.Socket.new .stream).connect addr ephemeral).1, 0, 0, [], []⟩
  | .passive isn seqNum =>
    ⟨(passiveOpen isn seqNum).1, { Net.Socket.new .stream with state := .connected },
      wrappingAdd seqNum 1, 0, [], []⟩

/-- Whether a FIN counts in the state in which it comes. -/
def takesFin (state : TcpState) (flags : Flags) : Bool :=
  has flags flagFin && (state = .established || state = .finWait1 || state = .finWait2)

/-- A segment comes in. Nothing but the receive path puts bytes into the buffer of the connection,
and nothing takes them out, so that its length counts the stored bytes. -/
def Stream.arrive (v : Stream) (s : Segment) : Stream :=
  let conn := (processSegment v.conn s).1
  let irs := if v.conn.state = .synSent ∧ conn.state = .established then wrappingAdd s.seqNum 1
    else v.irs
  let fins := v.fins + (takesFin v.conn.state s.flags).toNat
  let due := (irs + conn.recvBuf.length + fins) % 2 ^ 32
  { v with
    conn := conn
    irs := irs
    fins := fins
    acks := v.acks ++ ((processSegment v.conn s).2.map fun p => (p.ackNum, due)).toList }

/-- `net_recvfrom` on the socket, with a buffer of `len` bytes. -/
def Stream.recvfrom (v : Stream) (len : ℕ) : Stream :=
  match v.socket.recv len with
  | .ok (socket, bytes) => { v with socket := socket, bytesRead := v.bytesRead ++ bytes }
  | .error _ => v

inductive Call where
  | packet (data : List Byte)
  | recvfrom (len : ℕ)

def Stream.step (v : Stream) : Call → Stream
  | .packet data => (parseTcpPacket data).elim v v.arrive
  | .recvfrom len => v.recvfrom len

def Stream.run (v : Stream) (calls : List Call) : Stream := calls.foldl Stream.step v

/-- Every number sent was the one due, and some further reads give the application all that is
stored and reopen the window. -/
def Faithful (v : Stream) : Prop :=
  (∀ ack ∈ v.acks, ack.1 = ack.2) ∧
    ∃ lens : List ℕ,
      (v.run (lens.map .recvfrom)).bytesRead = v.conn.recvBuf ∧
      advertisedRecvWindow (v.run (lens.map .recvfrom)).conn = defaultWindow

/-- While the connection is established every packet is too short to be parsed, or ends at its data
offset; after a passive open such a packet is no FIN either. -/
def Quiet (passive : Bool) : TcpConnection → List Call → Prop
  | _, [] => True
  | c, .packet data :: calls =>
    (c.state = .established → data.length < 20 ∨ data.length < dataOffset data ∨
        data.length = dataOffset data ∧ (passive = true → has (flagsOf data) flagFin = false)) ∧
      Quiet passive (receive c data) calls
  | c, .recvfrom _ :: calls => Quiet passive c calls

lemma recvBuf_prefix_processSegment (c : TcpConnection) (s : Segment) :
    c.recvBuf <+: (processSegment c s).1.recvBuf := by
  cases hs : c.state with
  | established =>
    have hd : c.recvBuf <+: (processData (processAck c s) s).1.recvBuf := by
      rw [recvBuf_processData, recvBuf_processAck]
      exact prefix_append ..
    simp only [processSegment, hs]
    split <;> exact hd
  | _ =>
    simp only [processSegment, hs]
    repeat' split
    all_goals exact prefix_rfl

lemma step_packet (v : Stream) (data : List Byte) :
    v.step (.packet data) = (parseTcpPacket data).elim v v.arrive := rfl

lemma step_prefix (v : Stream) (call : Call) :
    v.conn.recvBuf <+: (v.step call).conn.recvBuf ∧ v.acks <+: (v.step call).acks := by
  cases call with
  | packet data =>
    rw [step_packet]
    cases parseTcpPacket data with
    | none => exact ⟨prefix_rfl, prefix_rfl⟩
    | some s => exact ⟨recvBuf_prefix_processSegment v.conn s, prefix_append ..⟩
  | recvfrom len =>
    simp only [Stream.step, Stream.recvfrom]
    split <;> exact ⟨prefix_rfl, prefix_rfl⟩

lemma run_prefix (v : Stream) (calls : List Call) :
    v.conn.recvBuf <+: (v.run calls).conn.recvBuf ∧ v.acks <+: (v.run calls).acks := by
  induction calls generalizing v with
  | nil => exact ⟨prefix_rfl, prefix_rfl⟩
  | cons call calls ih =>
    obtain ⟨hbuf, hac⟩ := step_prefix v call
    obtain ⟨hb, ha⟩ := ih (v.step call)
    exact ⟨hbuf.trans hb, hac.trans ha⟩

/-- Nothing comes into the buffer of the socket, so that nothing is read from it. -/
def Unread (v : Stream) : Prop := v.socket.recvBuffer = [] ∧ v.bytesRead = []

variable {v : Stream}

lemma Unread.recvfrom (h : Unread v) (len : ℕ) : v.recvfrom len = v := by
  have hr : v.socket.recv len = .error Net.eWouldBlock := by
    simp [Net.Socket.recv, h.1]
  simp only [Stream.recvfrom, hr]

lemma Unread.step (h : Unread v) (call : Call) : Unread (v.step call) := by
  cases call with
  | packet data =>
    rw [step_packet]
    cases parseTcpPacket data <;> exact h
  | recvfrom len =>
    have hs : v.step (.recvfrom len) = v := h.recvfrom len
    rwa [hs]

lemma Unread.run (h : Unread v) (calls : List Call) : Unread (v.run calls) := by
  induction calls generalizing v with
  | nil => exact h
  | cons call calls ih => exact ih (h.step call)

lemma Faithful.recvBuf_eq_nil (h : Faithful v) (hu : Unread v) : v.conn.recvBuf = [] := by
  obtain ⟨-, lens, hr, -⟩ := h
  rw [← hr]
  exact (hu.run _).2

/-- Where a connection is that got no data. The number of the SYN takes one place too few after a
passive open. -/
inductive Phase (passive : Bool) (v : Stream) : Prop where
  | opening : v.conn.state = .synSent → v.fins = 0 → passive = false → Phase passive v
  | isOpen : v.conn.state = .established → v.fins = 0 →
      (passive = false → v.conn.recvSeq = v.irs % 2 ^ 32) →
      (passive = true → v.irs = wrappingAdd v.conn.recvSeq 1) → Phase passive v
  | closing : v.conn.state = .closeWait ∨ v.conn.state = .lastAck →
      v.conn.recvSeq = (v.irs + v.fins) % 2 ^ 32 → Phase passive v
  | closed : v.conn.state = .closed → Phase passive v

structure Calm (passive : Bool) (v : Stream) : Prop where
  phase : Phase passive v
  recvBuf : v.conn.recvBuf = []
  acks : ∀ ack ∈ v.acks, ack.1 = ack.2

variable {passive : Bool} {v : Stream} {s : Segment}

lemma processData_nil (c : TcpConnection) (h : s.payload = []) :
    processData c s = (c, none) := by
  simp [processData, h]

lemma recvSeq_processAck (c : TcpConnection) (s : Segment) :
    (processAck c s).recvSeq = c.recvSeq := by
  unfold processAck
  split <;> rfl

section Arrive

variable {c : TcpConnection}

lemma conn_arrive {answer : Option Packet} (hs : processSegment v.conn s = (c, answer)) :
    (v.arrive s).conn = c := by
  simp only [Stream.arrive, hs]

lemma Calm.of_silent (h : Calm passive v) (hs : processSegment v.conn s = (c, none))
    (hbuf : c.recvBuf = v.conn.recvBuf) (hp : Phase passive (v.arrive s)) :
    Calm passive (v.arrive s) where
  phase := hp
  recvBuf := by rw [conn_arrive hs, hbuf, h.recvBuf]
  acks := by simpa [Stream.arrive, hs] using h.acks

lemma Calm.of_answer (h : Calm passive v) {p : Packet}
    (hs : processSegment v.conn s = (c, some p)) (hbuf : c.recvBuf = v.conn.recvBuf)
    (hp : Phase passive (v.arrive s))
    (hdue : p.ackNum = ((v.arrive s).irs + (v.arrive s).fins) % 2 ^ 32) :
    Calm passive (v.arrive s) where
  phase := hp
  recvBuf := by rw [conn_arrive hs, hbuf, h.recvBuf]
  acks := by
    have hlen : c.recvBuf.length = 0 := by rw [hbuf, h.recvBuf]; rfl
    intro ack hack
    simp only [Stream.arrive, hs, mem_append, Option.map_some, Option.toList_some,
      mem_singleton] at hack
    obtain hack | rfl := hack
    · exact h.acks ack hack
    · simpa only [Stream.arrive, hs, hlen, Nat.add_zero] using hdue

end Arrive

lemma Calm.arrive_opening (h : Calm passive v) (hst : v.conn.state = .synSent)
    (hf : v.fins = 0) (ha : passive = false) : Calm passive (v.arrive s) := by
  have ht : takesFin v.conn.state s.flags = false := by simp [takesFin, hst]
  by_cases hsyn : (has s.flags flagSyn && has s.flags flagAck) = true
  · have hs : processSegment v.conn s =
        ({ v.conn with recvSeq := wrappingAdd s.seqNum 1, state := .established },
          some ⟨v.conn.sendSeq, wrappingAdd s.seqNum 1, flagAck, defaultWindow⟩) := by
      simp only [processSegment, hst, hsyn, if_true]
    have hirs : (v.arrive s).irs = wrappingAdd s.seqNum 1 := by
      simp only [Stream.arrive, hs, hst, and_self, if_true]
    have hf' : (v.arrive s).fins = 0 := by simp [Stream.arrive, ht, hf]
    have hdue : wrappingAdd s.seqNum 1 = wrappingAdd s.seqNum 1 % 2 ^ 32 :=
      (Nat.mod_mod ..).symm
    refine h.of_answer hs rfl (.isOpen ?_ hf' ?_ ?_) ?_
    · rw [conn_arrive hs]
    · intro _
      rw [hirs, conn_arrive hs]
      exact hdue
    · simp [ha]
    rw [hirs, hf']
    exact hdue
  by_cases hrst : has s.flags flagRst = true
  · have hs : processSegment v.conn s = ({ v.conn with state := .closed }, none) := by
      simp only [processSegment, hst, hsyn, hrst, if_true]
      rfl
    refine h.of_silent hs rfl (.closed ?_)
    rw [conn_arrive hs]
  have hs : processSegment v.conn s = (v.conn, none) := by
    simp only [processSegment, hst, hsyn, hrst]
    rfl
  refine h.of_silent hs rfl (.opening ?_ ?_ ha)
  · rw [conn_arrive hs, hst]
  · simp [Stream.arrive, ht, hf]

lemma Calm.arrive_open (h : Calm passive v) (hs : v.conn.state = .established)
    (hf : v.fins = 0) (hr : passive = false → v.conn.recvSeq = v.irs % 2 ^ 32)
    (hirs : passive = true → v.irs = wrappingAdd v.conn.recvSeq 1) (hd : s.payload = [])
    (hfin : passive = true → has s.flags flagFin = false) : Calm passive (v.arrive s) := by
  have hirs' : (v.arrive s).irs = v.irs := by simp [Stream.arrive, hs]
  by_cases hfl : has s.flags flagFin = true
  · -- After a passive open `recv_seq` is one behind, so that the condition has no FIN here.
    have ha : passive = false := by
      cases passive with
      | false => rfl
      | true => simp [hfin] at hfl
    have hst : processSegment v.conn s = ({ processAck v.conn s with
            recvSeq := wrappingAdd v.conn.recvSeq 1, state := .closeWait },
          some ⟨(processAck v.conn s).sendSeq, wrappingAdd v.conn.recvSeq 1, flagAck,
            defaultWindow⟩) := by
      simp only [processSegment, hs, processData_nil _ hd, hfl, if_true, recvSeq_processAck]
    have hf' : (v.arrive s).fins = 1 := by
      simp [Stream.arrive, takesFin, hs, hfl, hf]
    have hdue : wrappingAdd v.conn.recvSeq 1 = (v.irs + 1) % 2 ^ 32 := by
      rw [hr ha]
      exact Nat.mod_add_mod ..
    refine h.of_answer hst (recvBuf_processAck v.conn s) (.closing (.inl ?_) ?_) ?_
    · rw [conn_arrive hst]
    · rw [hirs', hf', ← hdue, conn_arrive hst]
    rw [hirs', hf']
    exact hdue
  have hst : processSegment v.conn s = (processAck v.conn s, none) := by
    simp only [processSegment, hs, processData_nil _ hd, hfl]
    rfl
  have hc := conn_arrive hst
  refine h.of_silent hst (recvBuf_processAck v.conn s) (.isOpen ?_ ?_ ?_ ?_)
  · rw [hc, state_processAck, hs]
  · simp [Stream.arrive, takesFin, hfl, hf]
  · rwa [hc, recvSeq_processAck, hirs']
  · rwa [hc, recvSeq_processAck, hirs']

lemma Calm.arrive_closing (h : Calm passive v)
    (hs : v.conn.state = .closeWait ∨ v.conn.state = .lastAck)
    (hr : v.conn.recvSeq = (v.irs + v.fins) % 2 ^ 32) : Calm passive (v.arrive s) := by
  have hne : v.conn.state ≠ .synSent := by obtain h | h := hs <;> rw [h] <;> decide
  have hirs : (v.arrive s).irs = v.irs := by simp [Stream.arrive, hne]
  have hf : (v.arrive s).fins = v.fins := by
    obtain h | h := hs <;> simp [Stream.arrive, takesFin, h]
  obtain hs | hs := hs
  · -- Any segment makes `CloseWait` send its FIN.
    have hst : processSegment v.conn s =
        ({ v.conn with sendSeq := wrappingAdd v.conn.sendSeq 1, state := .lastAck },
          some ⟨v.conn.sendSeq, v.conn.recvSeq, flagFin ||| flagAck,
            advertisedRecvWindow v.conn⟩) := by
      simp only [processSegment, hs]
    refine h.of_answer hst rfl (.closing (.inr ?_) ?_) ?_
    · rw [conn_arrive hst]
    · rw [hirs, hf, ← hr, conn_arrive hst]
    rw [hirs, hf]
    exact hr
  by_cases hack : has s.flags flagAck = true
  · have hst : processSegment v.conn s = ({ v.conn with state := .closed }, none) := by
      simp only [processSegment, hs, hack, if_true]
    refine h.of_silent hst rfl (.closed ?_)
    rw [conn_arrive hst]
  have hst : processSegment v.conn s = (v.conn, none) := by
    simp only [processSegment, hs, hack]
    rfl
  have hc := conn_arrive hst
  refine h.of_silent hst rfl (.closing (.inr ?_) ?_)
  · rw [hc, hs]
  · rw [hc, hirs, hf, hr]

lemma Calm.arrive (h : Calm passive v) (hq : v.conn.state = .established →
      s.payload = [] ∧ (passive = true → has s.flags flagFin = false)) :
    Calm passive (v.arrive s) := by
  cases h.phase with
  | opening hs hf ha => exact h.arrive_opening hs hf ha
  | isOpen hs hf hr hirs =>
    obtain ⟨hd, hfin⟩ := hq hs
    exact h.arrive_open hs hf hr hirs hd hfin
  | closing hs hr => exact h.arrive_closing hs hr
  | closed hs =>
    have hst : processSegment v.conn s = (v.conn, none) := by
      simp only [processSegment, hs]
    refine h.of_silent hst rfl (.closed ?_)
    rw [conn_arrive hst, hs]

lemma opening_calm (o : Opening) : Calm o.isPassive o.stream := by
  cases o with
  | active isn addr ephemeral => exact ⟨.opening rfl rfl rfl, rfl, by simp [Opening.stream]⟩
  | passive isn seqNum =>
    refine ⟨.isOpen ?_ rfl nofun fun _ => ?_, ?_, by simp [Opening.stream]⟩ <;>
      simp [Opening.stream, passiveOpen_eq]

lemma opening_unread (o : Opening) : Unread o.stream := by
  cases o <;> exact ⟨rfl, rfl⟩

lemma payload_eq_nil_of_recvBuf (hst : v.conn.state = .established)
    (hbuf : v.conn.recvBuf = []) (hbuf' : (v.arrive s).conn.recvBuf = []) : s.payload = [] := by
  have hs : (processSegment v.conn s).1.recvBuf =
      s.payload.take (min s.payload.length recvBufSize) := by
    have hd := recvBuf_processData (processAck v.conn s) s
    rw [recvBuf_processAck, hbuf, nil_append, length_nil, Nat.sub_zero] at hd
    rw [← hd]
    simp only [processSegment, hst]
    split <;> rfl
  have hnil : s.payload.take (min s.payload.length recvBufSize) = [] := hs ▸ hbuf'
  obtain hz | hnil := take_eq_nil_iff.mp hnil
  · have : recvBufSize = 4096 := rfl
    exact length_eq_zero_iff.mp (by omega)
  · exact hnil

lemma fin_ack_ne (hs : v.conn.state = .established) (hbuf : v.conn.recvBuf = [])
    (hf : v.fins = 0) (hirs : v.irs = wrappingAdd v.conn.recvSeq 1) (hd : s.payload = [])
    (hfin : has s.flags flagFin = true) : ∃ ack ∈ (v.arrive s).acks, ack.1 ≠ ack.2 := by
  refine ⟨(wrappingAdd v.conn.recvSeq 1, wrappingAdd v.irs 1), ?_, ?_⟩
  · have hst := processData_nil (processAck v.conn s) hd
    simp [Stream.arrive, processSegment, hs, hst, hfin, recvSeq_processAck,
      recvBuf_processAck, hbuf, takesFin, hf, wrappingAdd]
  simp only [hirs, wrappingAdd]
  omega

/-- What a packet in an established connection must not do. -/
def Segment.Quiet (passive : Bool) (c : TcpConnection) (s : Segment) : Prop :=
  c.state = .established → s.payload = [] ∧ (passive = true → has s.flags flagFin = false)

lemma quiet_packet_iff (c : TcpConnection) (data : List Byte) :
    (c.state = .established → data.length < 20 ∨ data.length < dataOffset data ∨
        data.length = dataOffset data ∧ (passive = true → has (flagsOf data) flagFin = false)) ↔
      ∀ s, parseTcpPacket data = some s → s.Quiet passive c := by
  unfold parseTcpPacket Segment.Quiet
  split_ifs with hshort hoff
  · simp [hshort]
  · simp [hoff]
  · simp only [Option.some.injEq, forall_eq', drop_eq_nil_iff]
    refine imp_congr_right fun _ => ⟨fun h => ?_, fun h => .inr (.inr ⟨by omega, h.2⟩)⟩
    rcases h with h | h | h
    · exact absurd h hshort
    · exact absurd h hoff
    · exact ⟨h.1.le, h.2⟩

variable {calls : List Call}

lemma quiet_of_unstored (h : Calm passive v) (hbuf : (v.arrive s).conn.recvBuf = [])
    (hac : ∀ ack ∈ (v.arrive s).acks, ack.1 = ack.2) : s.Quiet passive v.conn := by
  intro hs
  have hd := payload_eq_nil_of_recvBuf hs h.recvBuf hbuf
  refine ⟨hd, fun hp => ?_⟩
  by_contra hfin
  rw [Bool.not_eq_false] at hfin
  cases h.phase with
  | isOpen _ hfi _ hirs =>
    obtain ⟨ack, hmem, hne⟩ := fin_ack_ne hs h.recvBuf hfi (hirs hp) hd hfin
    exact hne (hac ack hmem)
  | opening ho => simp [hs] at ho
  | closing ho => simp [hs] at ho
  | closed ho => simp [hs] at ho

lemma quiet_of_faithful (h : Calm passive v) (hu : Unread v)
    (hf : Faithful (v.run calls)) : Quiet passive v.conn calls := by
  induction calls generalizing v with
  | nil => trivial
  | cons call calls ih =>
    cases call with
    | packet data =>
      rw [Quiet, quiet_packet_iff]
      have hu' := hu.step (.packet data)
      have hf : Faithful ((v.step (.packet data)).run calls) := hf
      obtain ⟨hb, ha⟩ := run_prefix (v.step (.packet data)) calls
      rw [hf.recvBuf_eq_nil (hu'.run calls)] at hb
      unfold receive
      rw [step_packet] at hb ha hu' hf
      cases hp : parseTcpPacket data with
      | none =>
        rw [hp] at hf
        exact ⟨nofun, ih h hu hf⟩
      | some s =>
        rw [hp] at hb ha hu' hf
        -- The buffer only grows, and at the end it is empty: nothing was ever stored.
        have hq := quiet_of_unstored h (prefix_nil.mp hb) fun ack hack =>
          hf.1 ack (ha.subset hack)
        refine ⟨fun s' hs' => ?_, ih (h.arrive hq) hu' hf⟩
        rwa [← Option.some.inj hs']
    | recvfrom len =>
      have hst : v.step (.recvfrom len) = v := hu.recvfrom len
      refine ih h hu ?_
      simpa only [Stream.run, foldl_cons, hst] using hf

lemma Calm.run (h : Calm passive v) (hu : Unread v)
    (hq : Quiet passive v.conn calls) : Calm passive (v.run calls) := by
  induction calls generalizing v with
  | nil => exact h
  | cons call calls ih =>
    cases call with
    | packet data =>
      obtain ⟨hd, hrest⟩ := hq
      rw [quiet_packet_iff] at hd
      have hu' := hu.step (.packet data)
      have hstep : Calm passive (v.step (.packet data)) ∧
          (v.step (.packet data)).conn = receive v.conn data := by
        rw [step_packet]
        unfold receive
        cases hp : parseTcpPacket data with
        | none => exact ⟨h, rfl⟩
        | some s => exact ⟨h.arrive (hd s hp), rfl⟩
      exact ih hstep.1 hu' (hstep.2 ▸ hrest)
    | recvfrom len =>
      have hs : v.step (.recvfrom len) = v := hu.recvfrom len
      simpa only [Stream.run, foldl_cons, hs] using ih h hu hq

lemma Calm.faithful (h : Calm passive v) (hu : Unread v) : Faithful v := by
  refine ⟨h.acks, [], ?_, ?_⟩
  · exact hu.2.trans h.recvBuf.symm
  change advertisedRecvWindow v.conn = defaultWindow
  simp [advertisedRecvWindow, h.recvBuf, recvBufSize]

/-- What a connection acknowledges is what it stored and what the application can get exactly when
there was nothing to store: the bytes that it stores never reach the socket. After a passive open it
must not get a FIN either. -/
theorem run_faithful_iff (o : Opening) (calls : List Call) :
    Faithful (o.stream.run calls) ↔ Quiet o.isPassive o.stream.conn calls :=
  ⟨quiet_of_faithful (opening_calm o) (opening_unread o), fun hq =>
    ((opening_calm o).run (opening_unread o) hq).faithful ((opening_unread o).run calls)⟩

/-- A connection after the handshake, which then gets one segment with ECE and ACK. -/
def deliver (payload : List Byte) : Stream :=
  (Opening.active 0 ⟨0, 80⟩ 49152).stream.run
    [.packet (plainHeader 100 0x12), .packet (plainHeader 101 0x50 ++ payload)]

/-- One byte is stored and acknowledged, and no read gives it; 4097 bytes are acknowledged when 4096
are stored. Of an ACK without data sixteen bytes of the header are stored. -/
theorem stored_byte_not_read :
    (deliver [0x61]).conn.recvBuf = [0x61] ∧
      (∀ lens : List ℕ, ((deliver [0x61]).run (lens.map .recvfrom)).bytesRead = []) ∧
      ¬ Faithful (deliver [0x61]) ∧
      ((deliver (List.replicate 4097 0)).acks = [(101, 101), (4198, 4197)] ∧
        ¬ Faithful (deliver (List.replicate 4097 0))) ∧
      ((deliver []).run [.packet (plainHeader 101 0x10)]).conn.recvBuf.length = 16 := by
  have hu (payload) : Unread (deliver payload) := (opening_unread _).run _
  have hs : (deliver [0x61]).conn.recvBuf = [0x61] := by decide
  have ha : (deliver (replicate 4097 0)).acks = [(101, 101), (4198, 4197)] := by
    decide +kernel
  refine ⟨hs, fun lens => ((hu _).run _).2, ?_, ⟨ha, ?_⟩, by decide⟩
  · intro hf
    have hnil := hf.recvBuf_eq_nil (hu _)
    rw [hs] at hnil
    exact cons_ne_nil _ _ hnil
  intro hf
  have hdue := hf.1
  rw [ha] at hdue
  exact absurd (hdue (4198, 4197) (by simp)) (by decide)

end Receive

end Elitra.Tcp
