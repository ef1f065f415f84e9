import Mathlib.Algebra.Ring.Nat
import Mathlib.Tactic.Common

namespace Elitra.Net

abbrev Byte := BitVec 8

/-- An address as the socket layer keeps it. The port is in host order: `new` and `port_be` swap its
bytes twice. -/
structure SocketAddrIn where
  ip : BitVec 32
  port : ℕ
  deriving DecidableEq

inductive SocketType where
  | stream
  | datagram
  deriving DecidableEq

inductive SocketState where
  | closed
  | bound
  | listen
  | connected
  deriving DecidableEq

/-- A socket. `recvBuffer` is the filled part of the receive buffer; the send buffer is not used by
the network calls. -/
structure Socket where
  socketType : SocketType
  state : SocketState
  localAddr : Option SocketAddrIn
  remoteAddr : Option SocketAddrIn
  recvBuffer : List Byte
  backlog : ℤ

def anyIp : BitVec 32 := 0

def eWouldBlock : ℤ := -100
def eNotBound : ℤ := -2
def eAddrInUse : ℤ := -1
def eMsgSize : ℤ := -7

def Socket.new (socketType : SocketType) : Socket :=
  ⟨socketType, .closed, none, none, [], 0⟩

def Socket.bind (s : Socket) (addr : SocketAddrIn) : Socket × ℤ :=
  ({ s with localAddr := some addr, state := .bound }, 0)

def Socket.listen (s : Socket) (backlog : ℤ) : Socket × ℤ :=
  if s.state ≠ .bound then (s, eNotBound)
  else ({ s with state := .listen, backlog := backlog }, 0)

/-- `connect`; `ephemeral` is the port that `allocate_ephemeral_port` would give. -/
def Socket.connect (s : Socket) (addr : SocketAddrIn) (ephemeral : ℕ) : Socket × ℤ :=
  ({ s with
    remoteAddr := some addr
    localAddr := some (s.localAddr.getD ⟨anyIp, ephemeral⟩)
    state := .connected }, 0)

def Socket.hasData (s : Socket) : Bool := 0 < s.recvBuffer.length

def Socket.recv (s : Socket) (len : ℕ) : Except ℤ (Socket × List Byte) :=
  if s.recvBuffer.length = 0 then .error eWouldBlock
  else
    let n := min len s.recvBuffer.length
    .ok ({ s with recvBuffer := s.recvBuffer.drop n }, s.recvBuffer.take n)

def Socket.close (s : Socket) : Socket :=
  { s with state := .closed, recvBuffer := [], localAddr := none, remoteAddr := none }

end Elitra.Net
