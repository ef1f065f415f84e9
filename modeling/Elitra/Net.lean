import Elitra.Socket
import Elitra.TcpCalls
import Mathlib.Data.List.FinRange

namespace Elitra.Net
open Function

abbrev maxSockets : ℕ := 16

abbrev Table (α : Type) := Fin maxSockets → Option α

/-- The first slot with the property, as the loops over a table find it. -/
def firstSlot (p : Fin maxSockets → Bool) : Option (Fin maxSockets) :=
  (List.finRange maxSockets).find? p

def firstFree {α : Type} (t : Table α) : Option (Fin maxSockets) := firstSlot fun i => (t i).isNone

/-- Puts an entry into the first free slot; without one it is dropped. -/
def insertFirst {α : Type} (t : Table α) (x : α) : Table α :=
  match firstFree t with
  | some i => update t i (some x)
  | none => t

/-- A connection as the table keeps it. The ports are in host order. -/
structure Conn where
  localAddr : SocketAddrIn
  remoteAddr : SocketAddrIn
  socketFd : ℤ
  tcp : Tcp.TcpConnection

/-- `SOCKETS`, `TCP_CONNECTIONS`, `NEXT_EPHEMERAL_PORT` and the address of `NET_CONFIG`. -/
structure NetState where
  sockets : Table Socket
  conns : Table Conn
  nextEphemeralPort : ℕ
  ip : BitVec 32

/-- `u16::from_be` on a little-endian machine. -/
def fromBe (port : ℕ) : ℕ := port % 2 ^ 8 * 2 ^ 8 + port / 2 ^ 8

/-- `fetch_add` returns the value before it wraps around. -/
def allocateEphemeralPort (n : NetState) : NetState × ℕ :=
  if n.nextEphemeralPort < 49152 then ({ n with nextEphemeralPort := 49152 }, 49152)
  else
    ({ n with nextEphemeralPort := (n.nextEphemeralPort + 1) % 2 ^ 16 }, n.nextEphemeralPort)

def slotOf (sockfd : ℤ) : Option (Fin maxSockets) :=
  if h : 0 ≤ sockfd ∧ sockfd < 16 then some ⟨sockfd.toNat, by unfold maxSockets; omega⟩ else none

def NetState.socketAt (n : NetState) (sockfd : ℤ) : Option (Fin maxSockets × Socket) :=
  (slotOf sockfd).bind fun i => (n.sockets i).map fun sock => (i, sock)

def NetState.setSocket (n : NetState) (i : Fin maxSockets) (sock : Socket) : NetState :=
  { n with sockets := update n.sockets i (some sock) }

def socketTypeOf : ℕ → Option SocketType
  | 1 => some .stream
  | 2 => some .datagram
  | _ => none

def netSocket (n : NetState) (socketType : ℕ) : NetState × ℤ :=
  match socketTypeOf socketType with
  | none => (n, -1)
  | some stype =>
    match firstFree n.sockets with
    | some i => (n.setSocket i (Socket.new stype), i)
    | none => (n, -1)

/-- Whether a socket other than the one in slot `i` has the port. -/
def NetState.portTaken (n : NetState) (i : Fin maxSockets) (port : ℕ) : Bool :=
  (firstSlot fun j => j != i &&
    ((n.sockets j).bind fun sock => sock.localAddr.map fun addr => addr.port) = some port).isSome

def netBind (n : NetState) (sockfd : ℤ) (port : ℕ) : NetState × ℤ :=
  match slotOf sockfd with
  | none => (n, -1)
  | some i =>
    if n.portTaken i port then (n, eAddrInUse)
    else
      match n.sockets i with
      | some sock => (n.setSocket i (sock.bind ⟨anyIp, port⟩).1, (sock.bind ⟨anyIp, port⟩).2)
      | none => (n, -1)

def netListen (n : NetState) (sockfd backlog : ℤ) : NetState × ℤ :=
  match n.socketAt sockfd with
  | some (i, sock) => (n.setSocket i (sock.listen backlog).1, (sock.listen backlog).2)
  | none => (n, -1)

/-- `net_connect`, without the SYN that it sends. -/
def netConnect (n : NetState) (sockfd : ℤ) (ip : BitVec 32) (port isn : ℕ) : NetState × ℤ :=
  match n.socketAt sockfd with
  | none => (n, -1)
  | some (i, sock) =>
    let (n, ephemeral) := if sock.localAddr.isNone then allocateEphemeralPort n else (n, 0)
    let (sock, result) := sock.connect ⟨ip, port⟩ ephemeral
    let n := n.setSocket i sock
    if result = 0 then
      let localPort := (sock.localAddr.getD ⟨anyIp, 0⟩).port
      let conn : Conn := ⟨⟨n.ip, localPort⟩, ⟨ip, port⟩, sockfd, (Tcp.activeOpen isn).1⟩
      -- With a full table the call returns 0 all the same.
      ({ n with conns := insertFirst n.conns conn }, result)
    else (n, result)

/-- The first connection of the port pair that takes the data. One that does not is left as it
is. -/
def sendSlot (conns : Table Conn) (localPort port : ℕ) (data : List Byte) :
    Option (Fin maxSockets) :=
  firstSlot fun i => (conns i).any fun conn =>
    conn.localAddr.port = localPort && conn.remoteAddr.port = port &&
      conn.tcp.state = .established && (Tcp.sendData conn.tcp data).2.isSome

/-- The local address of a socket that sends, which gets an ephemeral port when it has none. -/
def bindForSend (n : NetState) (i : Fin maxSockets) (sock : Socket) : NetState × Socket :=
  if sock.localAddr.isNone then
    let (n, ephemeral) := allocateEphemeralPort n
    let sock := { sock with
      localAddr := some ⟨anyIp, ephemeral⟩
      state := if sock.state = .closed then .bound else sock.state }
    (n.setSocket i sock, sock)
  else (n, sock)

/-- `net_sendto`, with the address that a segment is sent to and the connection that it is of; `link`
is whether there is a network stack and whether it sends the packet. The address is that of the
call, not that of the connection. -/
def netSendto (n : NetState) (sockfd : ℤ) (data : List Byte) (ip : BitVec 32) (port : ℕ)
    (link : Option Bool) : NetState × Except ℤ ℕ × Option (BitVec 32 × Fin maxSockets) :=
  match n.socketAt sockfd with
  | none => (n, .error (-1), none)
  | some (i, sock) =>
    let (n, sock) := bindForSend n i sock
    let localPort := (sock.localAddr.getD ⟨anyIp, 0⟩).port
    match sock.socketType with
    | .datagram =>
      if 1500 < 8 + data.length then (n, .error eMsgSize, none)
      else if link = some false then (n, .error (-1), none)
      else (n, .ok data.length, none)
    | .stream =>
      match sendSlot n.conns localPort port data with
      | none => (n, .error (-1), none)
      | some j =>
        let n := { n with
          conns := update n.conns j
            ((n.conns j).map fun conn => { conn with tcp := (Tcp.sendData conn.tcp data).1 }) }
        let result := if link = some true ∧ 0 < data.length then .ok data.length else .error (-1)
        (n, result, link.map fun _ => (ip, j))

def netRecvfrom (n : NetState) (sockfd : ℤ) (len : ℕ) :
    NetState × Except ℤ (List Byte × SocketAddrIn) :=
  match n.socketAt sockfd with
  | none => (n, .error (-1))
  | some (i, sock) =>
    if !sock.hasData then (n, .error eWouldBlock)
    else
      match sock.recv len with
      | .error e => (n, .error e)
      | .ok (sock, bytes) => (n.setSocket i sock, .ok (bytes, sock.remoteAddr.getD ⟨anyIp, 0⟩))

/-- The slot stays taken. -/
def netCloseSocket (n : NetState) (sockfd : ℤ) : NetState × ℤ :=
  match n.socketAt sockfd with
  | some (i, sock) => (n.setSocket i sock.close, 0)
  | none => (n, -1)

def listenPort (n : NetState) (sockfd : ℤ) : Option ℕ :=
  (n.socketAt sockfd).bind fun (_, sock) =>
    if sock.state = .listen then sock.localAddr.map fun addr => addr.port else none

/-- The connection that `net_accept` takes: the port of the connection is swapped once more. -/
def acceptSlot (n : NetState) (sockfd : ℤ) : Option (Fin maxSockets × Conn) :=
  (listenPort n sockfd).bind fun port =>
    (firstSlot fun i => (n.conns i).any fun conn =>
      conn.tcp.state = .established && fromBe conn.localAddr.port = port).bind fun i =>
        (n.conns i).map fun conn => (i, conn)

/-- `net_accept`, with the address that it writes for the caller. -/
def netAccept (n : NetState) (sockfd : ℤ) : NetState × ℤ × Option SocketAddrIn :=
  match acceptSlot n sockfd with
  | none => (n, -1, none)
  | some (i, conn) =>
    let client : SocketAddrIn := ⟨conn.remoteAddr.ip, fromBe conn.remoteAddr.port⟩
    let n := { n with conns := update n.conns i none }
    match firstFree n.sockets with
    | some j =>
      let n := n.setSocket j { Socket.new .stream with
        state := .connected
        localAddr := some ⟨conn.localAddr.ip, fromBe conn.localAddr.port⟩
        remoteAddr := some client }
      -- The index of the first socket, which need not be the new one.
      (n, ((firstSlot fun k => (n.sockets k).isSome).map fun k => (k : ℤ)).getD 0, some client)
    | none =>
      (n, ((firstSlot fun k => (n.sockets k).any fun sock =>
          sock.state = .connected && sock.remoteAddr.any fun addr => addr.port = client.port).map
        fun k => (k : ℤ)).getD (-1), some client)

/-- A TCP packet. Its destination is not looked at. -/
structure TcpPacket where
  srcIp : BitVec 32
  dstIp : BitVec 32
  srcPort : ℕ
  dstPort : ℕ
  segment : Tcp.Segment

def connSlot (conns : Table Conn) (p : TcpPacket) : Option (Fin maxSockets) :=
  firstSlot fun i => (conns i).any fun conn =>
    conn.localAddr.port = p.dstPort &&
      (conn.remoteAddr.port = 0 || conn.remoteAddr.port = p.srcPort)

def listenSlot (n : NetState) (port : ℕ) : Option (Fin maxSockets) :=
  firstSlot fun i => (n.sockets i).any fun sock =>
    sock.state = .listen && sock.socketType = .stream &&
      sock.localAddr.any fun addr => addr.port = port

/-- The connections that count against the backlog; here too the port is swapped once more. -/
def pending (conns : Table Conn) (port : ℕ) : ℕ :=
  ((List.finRange maxSockets).filter fun i => (conns i).any fun conn =>
    fromBe conn.localAddr.port = port &&
      (conn.tcp.state = .synReceived || conn.tcp.state = .established)).length

/-- `process_tcp_packet`, without its answers and as if its second `tcp_connections` did not wait for
the lock it holds. -/
def processTcpPacket (n : NetState) (p : TcpPacket) (isn : ℕ) : NetState :=
  match connSlot n.conns p with
  | some i => { n with
      conns := update n.conns i ((n.conns i).map fun conn =>
        { conn with tcp := (Tcp.processSegment conn.tcp p.segment).1 }) }
  | none =>
    if Tcp.has p.segment.flags Tcp.flagSyn && !Tcp.has p.segment.flags Tcp.flagAck then
      match (listenSlot n p.dstPort).bind n.sockets with
      | none => n
      | some sock =>
        if 0 < sock.backlog ∧ sock.backlog ≤ pending n.conns p.dstPort then n
        else { n with
          conns := insertFirst n.conns
            ⟨⟨n.ip, p.dstPort⟩, ⟨p.srcIp, p.srcPort⟩, -1,
              (Tcp.passiveOpen isn p.segment.seqNum).1⟩ }
    else n

/-- `tcp_retransmit_check`; `due` is whose timeout has passed. -/
def tcpRetransmitCheck (n : NetState) (due : Fin maxSockets → Bool) : NetState :=
  { n with
    conns := fun i => (n.conns i).map fun conn =>
      { conn with tcp := (Tcp.checkRetransmit conn.tcp (due i)).1 } }

end Elitra.Net
