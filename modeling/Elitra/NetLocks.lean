import Elitra.LockOrder
import Mathlib.Tactic.FinCases

namespace Elitra.NetLocks
open List LockOrder

inductive Lock where
  | netInitialized | netStack | sockets | tcpConnections | netConfig | dhcpClient | netIp
  deriving DecidableEq

abbrev Trace := List (Act Lock)

/-- The device's address is read or set `n` times. -/
def netIp (n : ℕ) : Trace := (List.replicate n (locked .netIp [])).flatten

/-- `send_ipv4` reads the address once for the packet and, if the ARP cache does not help, for the
request and for each frame that comes in while it waits. -/
def sendIpv4 (n : ℕ) : Trace := netIp n

/-- `if let Some(stack) = *NET_STACK.lock()`. -/
def onStack (n : ℕ) : Trace := locked .netStack (sendIpv4 n)

/-- `net_connect`, for a bad descriptor or with what sending the SYN takes. -/
def netConnect : Option ℕ → Trace
  | none => locked .sockets []
  | some n => locked .sockets (locked .netConfig [] ++ locked .tcpConnections []) ++ onStack n

inductive SendBranch where
  | badDescriptor
  | datagramTooLong
  | datagram (n : ℕ)
  | streamNotSent
  | stream (n : ℕ)

def netSendto : SendBranch → Trace
  | .badDescriptor => locked .sockets []
  | .datagramTooLong => locked .sockets (locked .netConfig [])
  | .datagram n => locked .sockets (locked .netConfig []) ++ onStack n
  | .streamNotSent => locked .sockets (locked .netConfig [] ++ locked .tcpConnections [])
  | .stream n => locked .sockets (locked .netConfig [] ++ locked .tcpConnections []) ++ onStack n

inductive AcceptBranch where
  | badDescriptor
  | noConnection
  | accepted

def netAccept : AcceptBranch → Trace
  | .badDescriptor => locked .sockets []
  | .noConnection => locked .sockets [] ++ locked .tcpConnections []
  | .accepted => locked .sockets [] ++ locked .tcpConnections [] ++ locked .sockets []

def netCloseSocket : Trace := locked .sockets []

/-- `tcp_retransmit_check`; `n` over all packets that are sent again. -/
def tcpRetransmitCheck (n : ℕ) : Trace := locked .tcpConnections [] ++ onStack n

/-- What `process_tcp_packet` does with a SYN without ACK that belongs to no connection. -/
inductive SynBranch where
  | noListener
  | backlogFull
  | backlogChecked
  | noBacklog

/-- The guard `conns` of the first loop lives to the end of the function. -/
def synToListener : SynBranch → Trace
  | .noListener => locked .sockets []
  | .backlogFull => locked .sockets (locked .tcpConnections [])
  | .backlogChecked =>
    locked .sockets (locked .tcpConnections []) ++ locked .netConfig [] ++ locked .tcpConnections []
  | .noBacklog => locked .sockets [] ++ locked .netConfig [] ++ locked .tcpConnections []

inductive TcpBranch where
  | answered (n : ℕ)
  | silent
  | syn (branch : SynBranch)

def processTcpPacket : TcpBranch → Trace
  | .answered n => locked .tcpConnections (sendIpv4 n)
  | .silent => locked .tcpConnections []
  | .syn branch => locked .tcpConnections (synToListener branch)

inductive Packet where
  | other
  | dhcp (n : ℕ)
  | udp
  | tcp (branch : TcpBranch)
  | icmpEcho (n : ℕ)
  | arpRequest

def processPacket : Packet → Trace
  | .other => []
  | .dhcp n => locked .dhcpClient (netIp n)
  | .udp => locked .sockets []
  | .tcp branch => processTcpPacket branch
  | .icmpEcho n => locked .netConfig [] ++ sendIpv4 n
  | .arpRequest => locked .netConfig []

/-- `krust_net_poll`, before `krust_net_init` or with the packets it finds. -/
def krustNetPoll : Option (List Packet × ℕ) → Trace
  | none => locked .netInitialized []
  | some (packets, n) =>
    locked .netInitialized [] ++ locked .netStack (packets.map processPacket).flatten ++
      tcpRetransmitCheck n

inductive Path where
  | poll (run : Option (List Packet × ℕ))
  | connect (n : Option ℕ)
  | sendto (branch : SendBranch)
  | accept (branch : AcceptBranch)
  | close

def Path.trace : Path → Trace
  | .poll run => krustNetPoll run
  | .connect n => netConnect n
  | .sendto branch => netSendto branch
  | .accept branch => netAccept branch
  | .close => netCloseSocket

/-- Each CPU is about to go through a list of paths. -/
def start {T : Type} (paths : T → List Path) : T → Thread Lock :=
  fun t => ⟨[], ((paths t).map Path.trace).flatten⟩

section Order

def rank : Lock → ℕ
  | .netInitialized => 0
  | .netStack => 1
  | .sockets => 2
  | .tcpConnections => 3
  | .netConfig => 4
  | .dhcpClient => 5
  | .netIp => 6

def Packet.Safe : Packet → Prop
  | .tcp (.syn _) => False
  | _ => True

/-- No SYN (without ACK) comes in that belongs to no connection. -/
def Path.Safe : Path → Prop
  | .poll (some (packets, _)) => ∀ packet ∈ packets, packet.Safe
  | _ => True

variable {held : List Lock}

lemma neutral_netIp (h : ∀ m ∈ held, rank m < rank .netIp) (n : ℕ) :
    Neutral rank held (netIp n) := by
  apply neutral_flatten
  intro p hp
  rw [(mem_replicate.mp hp).2]
  exact neutral_locked h neutral_nil

lemma neutral_brief {l : Lock} (h : ∀ m ∈ held, rank m < rank l) :
    Neutral rank held (locked l []) :=
  neutral_locked h neutral_nil

lemma neutral_onStack (n : ℕ) : Neutral rank [] (onStack n) :=
  neutral_locked (by decide) (neutral_netIp (by decide) n)

lemma neutral_configAndConns :
    Neutral rank [.sockets] (locked .netConfig [] ++ locked .tcpConnections []) :=
  (neutral_brief (by decide)).append (neutral_brief (by decide))

lemma neutral_netConnect (n : Option ℕ) : Neutral rank [] (netConnect n) := by
  cases n with
  | none => exact neutral_brief (by decide)
  | some n => exact (neutral_locked (by decide) neutral_configAndConns).append (neutral_onStack n)

lemma neutral_netSendto (branch : SendBranch) : Neutral rank [] (netSendto branch) := by
  cases branch with
  | badDescriptor => exact neutral_brief (by decide)
  | datagramTooLong => exact neutral_locked (by decide) (neutral_brief (by decide))
  | datagram n =>
    exact (neutral_locked (by decide) (neutral_brief (by decide))).append (neutral_onStack n)
  | streamNotSent => exact neutral_locked (by decide) neutral_configAndConns
  | stream n =>
    exact (neutral_locked (by decide) neutral_configAndConns).append (neutral_onStack n)

lemma neutral_netAccept (branch : AcceptBranch) : Neutral rank [] (netAccept branch) := by
  cases branch with
  | badDescriptor => exact neutral_brief (by decide)
  | noConnection => exact (neutral_brief (by decide)).append (neutral_brief (by decide))
  | accepted =>
    exact ((neutral_brief (by decide)).append (neutral_brief (by decide))).append
      (neutral_brief (by decide))

lemma neutral_processPacket {packet : Packet} (h : packet.Safe) :
    Neutral rank [.netStack] (processPacket packet) := by
  cases packet with
  | other => exact neutral_nil
  | dhcp n => exact neutral_locked (by decide) (neutral_netIp (by decide) n)
  | udp => exact neutral_brief (by decide)
  | tcp branch =>
    cases branch with
    | answered n => exact neutral_locked (by decide) (neutral_netIp (by decide) n)
    | silent => exact neutral_brief (by decide)
    | syn branch => exact h.elim
  | icmpEcho n => exact (neutral_brief (by decide)).append (neutral_netIp (by decide) n)
  | arpRequest => exact neutral_brief (by decide)

lemma neutral_krustNetPoll {run : Option (List Packet × ℕ)} (h : (Path.poll run).Safe) :
    Neutral rank [] (krustNetPoll run) := by
  cases run with
  | none => exact neutral_brief (by decide)
  | some run =>
    obtain ⟨packets, n⟩ := run
    have hpa : Neutral rank [.netStack] (packets.map processPacket).flatten := by
      apply neutral_flatten
      intro p hp
      obtain ⟨packet, hpc, rfl⟩ := mem_map.mp hp
      exact neutral_processPacket (h packet hpc)
    exact ((neutral_brief (by decide)).append (neutral_locked (by decide) hpa)).append
      ((neutral_brief (by decide)).append (neutral_onStack n))

lemma neutral_trace {path : Path} (h : path.Safe) : Neutral rank [] path.trace := by
  cases path with
  | poll run => exact neutral_krustNetPoll h
  | connect n => exact neutral_netConnect n
  | sendto branch => exact neutral_netSendto branch
  | accept branch => exact neutral_netAccept branch
  | close => exact neutral_brief (by decide)

/-- While no SYN comes in that belongs to no connection, any interleaving of network paths on any
number of CPUs takes the locks upwards in one order, no path takes a lock that it holds, no set of
paths is deadlocked, and some path can go on until all are done. -/
theorem reached_no_deadlock {T : Type} [DecidableEq T] [Fintype T] (paths : T → List Path)
    (hsafe : ∀ t, ∀ path ∈ paths t, path.Safe) (s : T → Thread Lock)
    (h : Reached (start paths) s) :
    (∀ t l, Waits s t l → l ∉ (s t).held ∧ ∀ m ∈ (s t).held, rank m < rank l) ∧
      (∀ S, ¬ Deadlocked s S) ∧ ((∃ t, (s t).rest ≠ []) → ∃ t, (step s t).isSome) := by
  have hs : ∀ t, Ordered rank (start paths t).held (start paths t).rest := by
    intro t
    apply Neutral.ordered
    apply neutral_flatten
    intro p hp
    obtain ⟨path, hpa, rfl⟩ := mem_map.mp hp
    exact neutral_trace (hsafe t path hpa)
  have ho := h.ordered hs
  refine ⟨?_, not_deadlocked ho, exists_step ho⟩
  intro t l hw
  have hlt := (ho t).lt_of_waits hw
  exact ⟨fun hh => Nat.lt_irrefl _ (hlt l hh), hlt⟩

/-- One CPU polls and answers a segment while the other connects. -/
def pollAndConnect (t : Fin 2) : List Path :=
  if t = 0 then [.poll (some ([.tcp (.answered 1), .udp], 0))] else [.connect (some 1), .close]

theorem reached_no_deadlock_pollAndConnect :
    (∀ t, ∀ path ∈ pollAndConnect t, path.Safe) ∧
      ∀ s, Reached (start pollAndConnect) s → ∀ S, ¬ Deadlocked s S := by
  have hsa : ∀ t, ∀ path ∈ pollAndConnect t, path.Safe := by
    intro t path hp
    fin_cases t
    · rw [mem_singleton.mp hp]
      intro packet hpa
      simp only [mem_cons, not_mem_nil, or_false] at hpa
      rcases hpa with rfl | rfl <;> trivial
    change path ∈ [Path.connect (some 1), Path.close] at hp
    simp only [mem_cons, not_mem_nil, or_false] at hp
    rcases hp with rfl | rfl <;> trivial
  exact ⟨hsa, fun s hs => (reached_no_deadlock pollAndConnect hsa s hs).2.1⟩

def pollSyn : Fin 1 → List Path := fun _ => [.poll (some ([.tcp (.syn .noBacklog)], 0))]

/-- A poll that finds a SYN nobody listens for, beside a connect. -/
def pollSynAndConnect (t : Fin 2) : List Path :=
  if t = 0 then [.poll (some ([.tcp (.syn .noListener)], 0))] else [.connect (some 0)]

/-- A SYN for a listening socket makes a poll wait for `TCP_CONNECTIONS`, which it holds; any other
SYN makes it take `SOCKETS` with `TCP_CONNECTIONS` held, and block with a connect on another CPU,
which takes them in the other order. -/
theorem syn_deadlocks :
    (∃ s, Reached (start pollSyn) s ∧ Deadlocked s {0}) ∧
      ∃ s, Reached (start pollSynAndConnect) s ∧ Deadlocked s {0, 1} := by
  constructor
  · obtain ⟨s, hs⟩ : ∃ s, schedule (start pollSyn) (replicate 8 0) = some s := ⟨_, rfl⟩
    refine ⟨s, Reached.start.schedule _ hs, ?_⟩
    cases hs
    refine ⟨⟨0, by decide⟩, fun t _ => ?_⟩
    fin_cases t
    exact ⟨.tcpConnections, ⟨_, rfl⟩, 0, by decide, by decide⟩
  obtain ⟨s, hs⟩ : ∃ s, schedule (start pollSynAndConnect) [0, 0, 0, 0, 1, 1, 1] = some s :=
    ⟨_, rfl⟩
  refine ⟨s, Reached.start.schedule _ hs, ?_⟩
  cases hs
  refine ⟨⟨0, by decide⟩, fun t _ => ?_⟩
  fin_cases t
  · exact ⟨.sockets, ⟨_, rfl⟩, 1, by decide, by decide⟩
  · exact ⟨.tcpConnections, ⟨_, rfl⟩, 0, by decide, by decide⟩

end Order

end Elitra.NetLocks
