import Elitra.Net

namespace Elitra.Net
open Function Option

variable {i : Fin maxSockets} {sock : Socket} {sockfd : ℤ} {n : NetState}

section Slots

variable {α : Type}

lemma firstSlot_eq_none {p : Fin maxSockets → Bool} (h : firstSlot p = none)
    (i : Fin maxSockets) : p i = false := by
  have hn := List.find?_eq_none.mp h i (List.mem_finRange i)
  simpa using hn

lemma firstFree_eq_none {t : Table α} (h : firstFree t = none) (i : Fin maxSockets) :
    (t i).isSome := by
  simpa [isNone_eq_false_iff] using firstSlot_eq_none h i

lemma insertFirst_some {t : Table α} {x y : α}
    (h : insertFirst t x i = some y) : y = x ∨ t i = some y := by
  cases hf : firstFree t with
  | none =>
    simp only [insertFirst, hf] at h
    exact .inr h
  | some j =>
    simp only [insertFirst, hf] at h
    by_cases hij : i = j
    · subst hij
      rw [update_self] at h
      exact .inl (some.inj h).symm
    rw [update_of_ne hij] at h
    exact .inr h

lemma socketAt_eq_some
    (h : n.socketAt sockfd = some (i, sock)) : slotOf sockfd = some i ∧ n.sockets i = some sock := by
  simp only [NetState.socketAt, bind_eq_some_iff, map_eq_some_iff, Prod.mk.injEq] at h
  obtain ⟨j, hs, sock', hso, rfl, rfl⟩ := h
  exact ⟨hs, hso⟩

end Slots

variable {port : ℕ}

section Ports

/-- The local port of the socket in a slot. -/
def portOf (n : NetState) (i : Fin maxSockets) : Option ℕ :=
  (n.sockets i).bind fun sock => sock.localAddr.map fun addr => addr.port

/-- The ports from 49152 up to here were given out, as long as the counter has not gone round. -/
def drawn (n : NetState) : ℕ := if n.nextEphemeralPort = 0 then 2 ^ 16 else n.nextEphemeralPort

/-- The ports are distinct, and none of them comes again before the counter has gone round. -/
structure PortInv (n : NetState) : Prop where
  distinct : ∀ i j port, portOf n i = some port → portOf n j = some port → i = j
  below : ∀ i port, portOf n i = some port → port < drawn n
  counter : 49152 ≤ n.nextEphemeralPort ∨ n.nextEphemeralPort = 0
  range : n.nextEphemeralPort < 2 ^ 16

variable {n n' : NetState} {i : Fin maxSockets} {sock : Socket}

@[simp] lemma portOf_setSocket (n : NetState) (i : Fin maxSockets) (sock : Socket) :
    portOf (n.setSocket i sock) =
      update (portOf n) i (sock.localAddr.map fun addr => addr.port) := by
  funext j
  by_cases hij : j = i
  · subst hij
    simp [portOf, NetState.setSocket]
  · simp [portOf, NetState.setSocket, hij]

lemma portOf_congr (h : n'.sockets = n.sockets) : portOf n' = portOf n := by
  funext j
  rw [portOf, portOf, h]

lemma portOf_of_sockets (h : n.sockets i = some sock) :
    portOf n i = sock.localAddr.map fun addr => addr.port := by
  simp [portOf, h]

section

variable (h : PortInv n)
include h

lemma PortInv.le_drawn : 49152 ≤ drawn n := by
  have hc := h.counter
  unfold drawn
  split <;> omega

lemma PortInv.mono (hp : ∀ j port, portOf n' j = some port → portOf n j = some port)
    (hc : n'.nextEphemeralPort = n.nextEphemeralPort) : PortInv n' := by
  have hd : drawn n' = drawn n := by rw [drawn, drawn, hc]
  constructor
  · intro j k port hj hk
    exact h.distinct j k port (hp j port hj) (hp k port hk)
  · intro j port hj
    rw [hd]
    exact h.below j port (hp j port hj)
  · rw [hc]
    exact h.counter
  rw [hc]
  exact h.range

lemma PortInv.same (hp : portOf n' = portOf n)
    (hc : n'.nextEphemeralPort = n.nextEphemeralPort) : PortInv n' :=
  h.mono (fun j port hj => by rwa [hp] at hj) hc

lemma PortInv.drop (i : Fin maxSockets) (hp : portOf n' = update (portOf n) i none)
    (hc : n'.nextEphemeralPort = n.nextEphemeralPort) : PortInv n' := by
  refine h.mono (fun j port hj => ?_) hc
  rw [hp] at hj
  by_cases hij : j = i
  · simp [hij] at hj
  · rwa [update_of_ne hij] at hj

lemma PortInv.take (i : Fin maxSockets) (hpo : portOf n' = update (portOf n) i (some port))
    (hf : ∀ j ≠ i, portOf n j ≠ some port) (hb : port < drawn n')
    (hd : drawn n ≤ drawn n')
    (hc : 49152 ≤ n'.nextEphemeralPort ∨ n'.nextEphemeralPort = 0)
    (hr : n'.nextEphemeralPort < 2 ^ 16) : PortInv n' := by
  have hp (j port') (hj : portOf n' j = some port') :
      j = i ∧ port' = port ∨ j ≠ i ∧ portOf n j = some port' := by
    rw [hpo] at hj
    by_cases hij : j = i
    · subst hij
      rw [update_self] at hj
      exact .inl ⟨rfl, (some.inj hj).symm⟩
    rw [update_of_ne hij] at hj
    exact .inr ⟨hij, hj⟩
  refine ⟨?_, ?_, hc, hr⟩
  · intro j k port' hj hk
    obtain ⟨rfl, rfl⟩ | ⟨hji, hj⟩ := hp j port' hj
    · obtain ⟨rfl, -⟩ | ⟨hki, hk⟩ := hp k port' hk
      · rfl
      · exact absurd hk (hf k hki)
    obtain ⟨rfl, rfl⟩ | ⟨hki, hk⟩ := hp k port' hk
    · exact absurd hj (hf j hji)
    · exact h.distinct j k port' hj hk
  intro j port' hj
  obtain ⟨-, rfl⟩ | ⟨-, hj⟩ := hp j port' hj
  · exact hb
  · exact (h.below j port' hj).trans_le hd

lemma PortInv.allocate (hc : 49152 ≤ n.nextEphemeralPort) :
    (allocateEphemeralPort n).2 = n.nextEphemeralPort ∧
      (∀ j, portOf n j ≠ some n.nextEphemeralPort) ∧
      n.nextEphemeralPort < drawn (allocateEphemeralPort n).1 ∧
      drawn n ≤ drawn (allocateEphemeralPort n).1 ∧
      (49152 ≤ (allocateEphemeralPort n).1.nextEphemeralPort ∨
        (allocateEphemeralPort n).1.nextEphemeralPort = 0) ∧
      (allocateEphemeralPort n).1.nextEphemeralPort < 2 ^ 16 := by
  have hr := h.range
  have hd : drawn n = n.nextEphemeralPort := if_neg (by omega)
  have ha : allocateEphemeralPort n =
      ({ n with nextEphemeralPort := (n.nextEphemeralPort + 1) % 2 ^ 16 },
        n.nextEphemeralPort) := if_neg (by omega)
  have hd' : drawn (allocateEphemeralPort n).1 = n.nextEphemeralPort + 1 := by
    rw [ha, drawn]
    split
    all_goals
      rename_i hz
      dsimp only at hz ⊢
      omega
  refine ⟨by rw [ha], ?_, by omega, by omega, ?_, ?_⟩
  · intro j hj
    have := h.below j _ hj
    omega
  all_goals
    rw [ha]
    dsimp only
    omega

end

end Ports

inductive NetCall where
  | socket (socketType : ℕ)
  | bind (sockfd : ℤ) (port : ℕ)
  | listen (sockfd backlog : ℤ)
  | connect (sockfd : ℤ) (ip : BitVec 32) (port isn : ℕ)
  | sendto (sockfd : ℤ) (data : List Byte) (ip : BitVec 32) (port : ℕ) (link : Option Bool)
  | accept (sockfd : ℤ)
  | close (sockfd : ℤ)
  | packet (p : TcpPacket) (isn : ℕ)
  | timer (due : Fin maxSockets → Bool)

/-- A call of the interface, a packet from the network or a tick of the timer. -/
def NetState.step (n : NetState) : NetCall → NetState
  | .socket socketType => (netSocket n socketType).1
  | .bind sockfd port => (netBind n sockfd port).1
  | .listen sockfd backlog => (netListen n sockfd backlog).1
  | .connect sockfd ip port isn => (netConnect n sockfd ip port isn).1
  | .sendto sockfd data ip port link => (netSendto n sockfd data ip port link).1
  | .accept sockfd => (netAccept n sockfd).1
  | .close sockfd => (netCloseSocket n sockfd).1
  | .packet p isn => processTcpPacket n p isn
  | .timer due => tcpRetransmitCheck n due

/-- The socket for which a call draws an ephemeral port. -/
def NetCall.draws (n : NetState) : NetCall → Option (Fin maxSockets)
  | .connect sockfd _ _ _ | .sendto sockfd _ _ _ _ =>
    (n.socketAt sockfd).bind fun (i, sock) => if sock.localAddr.isNone then some i else none
  | _ => none

def NetCall.closes (n : NetState) : NetCall → Option (Fin maxSockets)
  | .close sockfd => (n.socketAt sockfd).map fun (i, _) => i
  | _ => none

/-- The tables with a record of the sockets that are open and of whether one was ever closed. -/
structure World where
  net : NetState
  opened : Fin maxSockets → Bool
  everClosed : Bool

def World.initial (ip : BitVec 32) : World :=
  ⟨⟨fun _ => none, fun _ => none, 49152, ip⟩, fun _ => false, false⟩

/-- A socket is open from the call that makes it to the one that closes it. -/
def World.step (w : World) (call : NetCall) : World where
  net := w.net.step call
  opened i :=
    (w.opened i || (w.net.sockets i).isNone && ((w.net.step call).sockets i).isSome) &&
      call.closes w.net != some i
  everClosed := w.everClosed || (call.closes w.net).isSome

/-- What holds between two calls: no two open sockets have the same local port, and no closed
connection keeps its slot. -/
structure World.Sound (w : World) : Prop where
  ports : ∀ i j port, w.opened i → w.opened j → portOf w.net i = some port →
    portOf w.net j = some port → i = j
  conns : ∀ i conn, w.net.conns i = some conn → conn.tcp.state ≠ .closed

/-- What holds of a call: only when all sockets are open does it fail for want of a slot, and a port
that it draws lies in the range and belongs to no other open socket. -/
structure World.CallSound (w : World) (call : NetCall) : Prop where
  socket : ∀ socketType, call = .socket socketType → (socketTypeOf socketType).isSome →
    (netSocket w.net socketType).2 < 0 → ∀ i, w.opened i
  port : ∀ i, call.draws w.net = some i →
    49152 ≤ (allocateEphemeralPort w.net).2 ∧ (allocateEphemeralPort w.net).2 ≤ 65535 ∧
      ∀ j ≠ i, w.opened j → portOf w.net j ≠ some (allocateEphemeralPort w.net).2

/-- When the interface keeps its promises: it does not have to give anything back, explicit ports
lie below the ephemeral ones, and the counter has not gone round. -/
def World.Admits (w : World) : NetCall → Prop
  | .socket _ => (firstFree w.net.sockets).isSome ∨ w.everClosed = false
  | .bind _ port => port < 49152
  | .connect sockfd ip port isn =>
    (NetCall.connect sockfd ip port isn).draws w.net ≠ none → 49152 ≤ w.net.nextEphemeralPort
  | .sendto sockfd data ip port link =>
    (NetCall.sendto sockfd data ip port link).draws w.net ≠ none → 49152 ≤ w.net.nextEphemeralPort
  | .accept sockfd => acceptSlot w.net sockfd = none
  | .packet p _ => ∀ i conn, connSlot w.net.conns p = some i → w.net.conns i = some conn →
      ¬ Tcp.ClosedBy conn.tcp p.segment
  | .timer due => ∀ i conn, w.net.conns i = some conn → ¬ Tcp.GivesUp conn.tcp (due i)
  | .listen _ _ | .close _ => True

def SoundAll : World → List NetCall → Prop
  | w, [] => w.Sound
  | w, call :: calls => w.Sound ∧ w.CallSound call ∧ SoundAll (w.step call) calls

def AdmitsAll : World → List NetCall → Prop
  | _, [] => True
  | w, call :: calls => w.Admits call ∧ AdmitsAll (w.step call) calls

variable {conns : Table Conn} {w : World}

section PortSteps

variable {n : NetState}

lemma PortInv.netSocket (h : PortInv n) (socketType : ℕ) :
    PortInv (netSocket n socketType).1 := by
  unfold Net.netSocket
  split
  · exact h
  split
  · exact h.drop _ (portOf_setSocket ..) rfl
  · exact h

variable {i : Fin maxSockets}

lemma portTaken_eq_false (h : n.portTaken i port = false) : ∀ j ≠ i, portOf n j ≠ some port := by
  intro j hji hp
  have hn := firstSlot_eq_none (isSome_eq_false_iff.mp h |> isNone_iff_eq_none.mp) j
  simp only [Bool.and_eq_false_iff, bne_eq_false_iff_eq, decide_eq_false_iff_not] at hn
  exact hn.elim hji (fun hne => hne hp)

lemma PortInv.netBind (h : PortInv n) (sockfd : ℤ) (hp : port < 49152) :
    PortInv (netBind n sockfd port).1 := by
  unfold Net.netBind
  split
  · exact h
  split
  · exact h
  rename_i i _ ht
  split
  · have hf := portTaken_eq_false (Bool.eq_false_iff.mpr ht)
    exact h.take i (portOf_setSocket ..) hf (hp.trans_le h.le_drawn) le_rfl h.counter
      h.range
  · exact h

lemma PortInv.setSocket_same (h : PortInv n) {sock' : Socket} (hs : n.sockets i = some sock)
    (ha : sock'.localAddr = sock.localAddr) :
    PortInv { n.setSocket i sock' with conns := conns } := by
  refine h.same ?_ rfl
  have hp : portOf { n.setSocket i sock' with conns := conns } = portOf (n.setSocket i sock') :=
    portOf_congr rfl
  rw [hp, portOf_setSocket, ha, ← portOf_of_sockets hs, update_eq_self]

lemma PortInv.netListen (h : PortInv n) (sockfd backlog : ℤ) :
    PortInv (netListen n sockfd backlog).1 := by
  unfold Net.netListen
  split
  · rename_i i sock hs
    have ha : (sock.listen backlog).1.localAddr = sock.localAddr := by
      unfold Socket.listen
      split <;> rfl
    exact h.setSocket_same (socketAt_eq_some hs).2 ha
  · exact h

lemma PortInv.netCloseSocket (h : PortInv n) (sockfd : ℤ) :
    PortInv (netCloseSocket n sockfd).1 := by
  unfold Net.netCloseSocket
  split
  · exact h.drop _ (portOf_setSocket ..) rfl
  · exact h

lemma PortInv.draw (h : PortInv n) {n' : NetState} (hc : 49152 ≤ n.nextEphemeralPort)
    (hp : portOf n' =
      update (portOf n) i (some (allocateEphemeralPort n).2))
    (hn : n'.nextEphemeralPort = (allocateEphemeralPort n).1.nextEphemeralPort) :
    PortInv n' := by
  obtain ⟨hpo, hf, hb, hd, hc', hr⟩ := h.allocate hc
  have hs : drawn n' = drawn (allocateEphemeralPort n).1 := by rw [drawn, drawn, hn]
  rw [hpo] at hp
  refine h.take i hp (fun j _ => hf j) ?_ ?_ ?_ ?_
  · rwa [hs]
  · rwa [hs]
  · rwa [hn]
  · rwa [hn]

lemma sockets_allocateEphemeralPort (n : NetState) :
    (allocateEphemeralPort n).1.sockets = n.sockets := by
  unfold allocateEphemeralPort
  split <;> rfl

lemma conns_allocateEphemeralPort (n : NetState) :
    (allocateEphemeralPort n).1.conns = n.conns := by
  unfold allocateEphemeralPort
  split <;> rfl

variable {sock : Socket}

lemma PortInv.draw_setSocket (h : PortInv n) {ip : BitVec 32} (hc : 49152 ≤ n.nextEphemeralPort)
    (ha : sock.localAddr = some ⟨ip, (allocateEphemeralPort n).2⟩) :
    PortInv { (allocateEphemeralPort n).1.setSocket i sock with conns := conns } := by
  refine h.draw hc (i := i) ?_ rfl
  have hp : portOf { (allocateEphemeralPort n).1.setSocket i sock with conns := conns } =
      portOf ((allocateEphemeralPort n).1.setSocket i sock) := portOf_congr rfl
  rw [hp, portOf_setSocket, ha, portOf_congr (sockets_allocateEphemeralPort n), map_some]

lemma netConnect_eq (h : n.socketAt sockfd = some (i, sock)) (ip : BitVec 32) (port isn : ℕ) :
    ∃ conn : Conn, conn.tcp = (Tcp.activeOpen isn).1 ∧
      (netConnect n sockfd ip port isn).1 =
        if sock.localAddr.isNone then
          { (allocateEphemeralPort n).1.setSocket i
              (sock.connect ⟨ip, port⟩ (allocateEphemeralPort n).2).1 with
            conns := insertFirst n.conns conn }
        else { n.setSocket i (sock.connect ⟨ip, port⟩ 0).1 with
            conns := insertFirst n.conns conn } := by
  unfold netConnect
  rw [h]
  by_cases ha : sock.localAddr.isNone = true
  · refine ⟨⟨⟨(allocateEphemeralPort n).1.ip,
      (sock.localAddr.getD ⟨anyIp, (allocateEphemeralPort n).2⟩).port⟩, ⟨ip, port⟩, sockfd, _⟩, rfl, ?_⟩
    simp only [ha, Socket.connect, NetState.setSocket, if_true, conns_allocateEphemeralPort,
      getD_some]
  refine ⟨⟨⟨n.ip, (sock.localAddr.getD ⟨anyIp, 0⟩).port⟩, ⟨ip, port⟩, sockfd, _⟩, rfl, ?_⟩
  simp only [ha, Socket.connect, NetState.setSocket, if_true, getD_some]
  rfl

lemma PortInv.netConnect (h : PortInv n) (sockfd : ℤ) (ip : BitVec 32) (port isn : ℕ)
    (hc : (NetCall.connect sockfd ip port isn).draws n ≠ none →
      49152 ≤ n.nextEphemeralPort) :
    PortInv (netConnect n sockfd ip port isn).1 := by
  cases hs : n.socketAt sockfd with
  | none =>
    unfold Net.netConnect
    rwa [hs]
  | some entry =>
    obtain ⟨i, sock⟩ := entry
    obtain ⟨conn, -, heq⟩ := netConnect_eq hs ip port isn
    rw [heq]
    cases ha : sock.localAddr with
    | none =>
      have hd : (NetCall.connect sockfd ip port isn).draws n = some i := by
        simp [NetCall.draws, hs, ha]
      have hco : (sock.connect ⟨ip, port⟩ (allocateEphemeralPort n).2).1.localAddr =
          some ⟨anyIp, (allocateEphemeralPort n).2⟩ := by
        simp [Socket.connect, ha]
      exact h.draw_setSocket (hc (by simp [hd])) hco
    | some addr =>
      exact h.setSocket_same (socketAt_eq_some hs).2 (by simp [Socket.connect, ha])

lemma netSendto_eq (h : n.socketAt sockfd = some (i, sock)) (data : List Byte) (ip : BitVec 32)
    (port : ℕ) (link : Option Bool) :
    (netSendto n sockfd data ip port link).1 = (bindForSend n i sock).1 ∨
      ∃ j, (netSendto n sockfd data ip port link).1 = { (bindForSend n i sock).1 with
        conns := update (bindForSend n i sock).1.conns j
          (((bindForSend n i sock).1.conns j).map fun conn =>
            { conn with tcp := (Tcp.sendData conn.tcp data).1 }) } := by
  unfold netSendto
  rw [h]
  dsimp only
  split
  · left
    repeat' split
    all_goals rfl
  split
  · exact .inl rfl
  rename_i j _
  exact .inr ⟨j, rfl⟩

lemma PortInv.netSendto (h : PortInv n) (sockfd : ℤ) (data : List Byte) (ip : BitVec 32) (port : ℕ)
    (link : Option Bool)
    (hc : (NetCall.sendto sockfd data ip port link).draws n ≠ none →
      49152 ≤ n.nextEphemeralPort) :
    PortInv (netSendto n sockfd data ip port link).1 := by
  cases hs : n.socketAt sockfd with
  | none =>
    unfold Net.netSendto
    rwa [hs]
  | some entry =>
    obtain ⟨i, sock⟩ := entry
    have hb : PortInv (bindForSend n i sock).1 := by
      unfold bindForSend
      cases ha : sock.localAddr with
      | none =>
        have hd : (NetCall.sendto sockfd data ip port link).draws n = some i := by
          simp [NetCall.draws, hs, ha]
        exact h.draw_setSocket (hc (by simp [hd])) rfl
      | some addr => exact h
    obtain heq | ⟨j, heq⟩ := netSendto_eq hs data ip port link
    · rwa [heq]
    rw [heq]
    exact hb.same (portOf_congr rfl) rfl

lemma sockets_processTcpPacket (n : NetState) (p : TcpPacket) (isn : ℕ) :
    (processTcpPacket n p isn).sockets = n.sockets ∧
      (processTcpPacket n p isn).nextEphemeralPort = n.nextEphemeralPort := by
  unfold processTcpPacket
  repeat' split
  all_goals exact ⟨rfl, rfl⟩

lemma PortInv.step {call : NetCall} (h : PortInv w.net) (ha : w.Admits call) :
    PortInv (w.net.step call) := by
  cases call with
  | socket socketType => exact h.netSocket socketType
  | bind sockfd port => exact h.netBind sockfd ha
  | listen sockfd backlog => exact h.netListen sockfd backlog
  | connect sockfd ip port isn => exact h.netConnect sockfd ip port isn ha
  | sendto sockfd data ip port link => exact h.netSendto sockfd data ip port link ha
  | accept sockfd =>
    have hn : acceptSlot w.net sockfd = none := ha
    have hst : w.net.step (.accept sockfd) = w.net := by
      simp only [NetState.step, netAccept, hn]
    rwa [hst]
  | close sockfd => exact h.netCloseSocket sockfd
  | packet p isn =>
    obtain ⟨hs, hne⟩ := sockets_processTcpPacket w.net p isn
    exact h.same (portOf_congr hs) hne
  | timer due => exact h.same (portOf_congr rfl) rfl

end PortSteps

variable {conn : Conn}

section Run

def NoneClosed (conns : Table Conn) : Prop :=
  ∀ i conn, conns i = some conn → conn.tcp.state ≠ .closed

lemma NoneClosed.insertFirst (h : NoneClosed conns)
    (hc : conn.tcp.state ≠ .closed) : NoneClosed (insertFirst conns conn) := by
  intro i conn' hmem
  obtain rfl | hmem := insertFirst_some hmem
  · exact hc
  · exact h i conn' hmem

lemma NoneClosed.netConnect (h : NoneClosed n.conns) (sockfd : ℤ)
    (ip : BitVec 32) (port isn : ℕ) : NoneClosed (netConnect n sockfd ip port isn).1.conns := by
  cases hs : n.socketAt sockfd with
  | none =>
    unfold Net.netConnect
    rwa [hs]
  | some entry =>
    obtain ⟨i, sock⟩ := entry
    obtain ⟨conn, htcp, heq⟩ := netConnect_eq hs ip port isn
    have hi : NoneClosed (Net.insertFirst n.conns conn) := by
      refine h.insertFirst ?_
      rw [htcp, Tcp.activeOpen_eq]
      exact nofun
    rw [heq]
    split <;> exact hi

lemma conns_bindForSend (n : NetState) (i : Fin maxSockets) (sock : Socket) :
    (bindForSend n i sock).1.conns = n.conns := by
  unfold bindForSend
  split
  · exact conns_allocateEphemeralPort n
  · rfl

lemma NoneClosed.netSendto (h : NoneClosed n.conns) (sockfd : ℤ)
    (data : List Byte) (ip : BitVec 32) (port : ℕ) (link : Option Bool) :
    NoneClosed (netSendto n sockfd data ip port link).1.conns := by
  cases hs : n.socketAt sockfd with
  | none =>
    unfold Net.netSendto
    rwa [hs]
  | some entry =>
    obtain ⟨i, sock⟩ := entry
    obtain heq | ⟨j, heq⟩ := netSendto_eq hs data ip port link
    · rwa [heq, conns_bindForSend]
    rw [heq]
    intro k conn hmem
    simp only [conns_bindForSend] at hmem
    by_cases hkj : k = j
    · subst hkj
      rw [update_self, map_eq_some_iff] at hmem
      obtain ⟨before, hb, rfl⟩ := hmem
      rw [Tcp.state_sendData]
      exact h k before hb
    rw [update_of_ne hkj] at hmem
    exact h k conn hmem

lemma NoneClosed.processTcpPacket {p : TcpPacket} (h : NoneClosed n.conns) (isn : ℕ)
    (ha : ∀ i conn, connSlot n.conns p = some i → n.conns i = some conn →
      ¬ Tcp.ClosedBy conn.tcp p.segment) :
    NoneClosed (processTcpPacket n p isn).conns := by
  unfold Net.processTcpPacket
  split
  · rename_i j hj
    intro k conn hmem
    dsimp only at hmem
    by_cases hkj : k = j
    · subst hkj
      rw [update_self, map_eq_some_iff] at hmem
      obtain ⟨before, hb, rfl⟩ := hmem
      exact Tcp.state_processSegment (h k before hb) (ha k before hj hb)
    · rw [update_of_ne hkj] at hmem
      exact h k conn hmem
  · repeat' split
    all_goals first
      | exact h
      | exact h.insertFirst (by rw [Tcp.passiveOpen_eq]; exact nofun)

lemma NoneClosed.step {call : NetCall} (h : NoneClosed w.net.conns)
    (ha : w.Admits call) : NoneClosed (w.net.step call).conns := by
  cases call with
  | socket socketType =>
    simp only [NetState.step, netSocket]
    repeat' split
    all_goals exact h
  | bind sockfd port =>
    simp only [NetState.step, netBind]
    repeat' split
    all_goals exact h
  | listen sockfd backlog =>
    simp only [NetState.step, netListen]
    split <;> exact h
  | connect sockfd ip port isn => exact h.netConnect sockfd ip port isn
  | sendto sockfd data ip port link => exact h.netSendto sockfd data ip port link
  | accept sockfd =>
    have hn : acceptSlot w.net sockfd = none := ha
    simpa only [NetState.step, netAccept, hn] using h
  | close sockfd =>
    simp only [NetState.step, netCloseSocket]
    split <;> exact h
  -- That no segment and no timeout closes a connection is left to the condition.
  | packet p isn => exact h.processTcpPacket isn ha
  | timer due =>
    intro i conn hmem
    obtain ⟨before, hb, rfl⟩ := map_eq_some_iff.mp hmem
    exact Tcp.checkRetransmit_ne_closed (h i before hb) (ha i before hb)

structure World.Inv (w : World) : Prop where
  ports : PortInv w.net
  conns : NoneClosed w.net.conns
  opened : w.everClosed = false → ∀ i, (w.net.sockets i).isSome → w.opened i

variable {w : World} {call : NetCall}

lemma World.Inv.step (h : w.Inv) (ha : w.Admits call) : (w.step call).Inv := by
  refine ⟨h.ports.step ha, h.conns.step ha, ?_⟩
  intro hc i hs
  simp only [World.step, Bool.or_eq_false_iff, isSome_eq_false_iff, isNone_iff_eq_none] at hc
  simp only [World.step, hc.2, Bool.and_eq_true, Bool.or_eq_true]
  refine ⟨?_, rfl⟩
  by_cases hb : (w.net.sockets i).isSome = true
  · exact .inl (h.opened hc.1 i hb)
  · exact .inr ⟨by simpa using hb, hs⟩

lemma World.Inv.sound (h : w.Inv) : w.Sound :=
  ⟨fun i j port _ _ => h.ports.distinct i j port, h.conns⟩

lemma World.Inv.callSound (h : w.Inv) (ha : w.Admits call) : w.CallSound call := by
  constructor
  · -- A slot once taken stays taken; without a close its socket is still open.
    rintro socketType rfl hv hfa
    obtain ⟨stype, hs⟩ := isSome_iff_exists.mp hv
    cases hf : firstFree w.net.sockets with
    | some i =>
      simp only [netSocket, hs, hf] at hfa
      omega
    | none =>
      have hn : w.everClosed = false := by simpa [World.Admits, hf] using ha
      intro i
      exact h.opened hn i (firstFree_eq_none hf i)
  intro i hd
  -- The port is the counter's, and `below` puts every port in use under it.
  have hc : 49152 ≤ w.net.nextEphemeralPort := by
    cases call with
    | connect sockfd ip port isn => exact ha (by simp [hd])
    | sendto sockfd data ip port link => exact ha (by simp [hd])
    | _ => cases hd
  obtain ⟨hp, hfr, -⟩ := h.ports.allocate hc
  have hr := h.ports.range
  rw [hp]
  exact ⟨hc, by omega, fun j _ _ => hfr j⟩

lemma World.Inv.soundAll {calls : List NetCall} (h : w.Inv) (ha : AdmitsAll w calls) :
    SoundAll w calls := by
  induction calls generalizing w with
  | nil => exact h.sound
  | cons call calls ih =>
    exact ⟨h.sound, h.callSound ha.1, ih (h.step ha.1) ha.2⟩

lemma initial_inv (ip : BitVec 32) : (World.initial ip).Inv :=
  ⟨⟨nofun, nofun, .inl le_rfl, by change 49152 < 2 ^ 16; decide⟩, nofun, fun _ _ h => nomatch h⟩

/-- As long as nothing has to be given back, explicit ports lie below the ephemeral ones and the
counter has not gone round, the open sockets have distinct ports, an ephemeral port is new, and only
sixteen open sockets keep `net_socket` from making one more. -/
theorem initial_soundAll (ip : BitVec 32) {calls : List NetCall}
    (hadmits : AdmitsAll (World.initial ip) calls) : SoundAll (World.initial ip) calls :=
  (initial_inv ip).soundAll hadmits

def serverAndClient : List NetCall :=
  [.socket 1, .bind 0 80, .listen 0 5, .socket 1, .connect 1 0 80 0,
    .sendto 1 [0x61] 0 80 (some true)]

theorem initial_soundAll_serverAndClient :
    AdmitsAll (World.initial 0) serverAndClient ∧ SoundAll (World.initial 0) serverAndClient := by
  have ha : AdmitsAll (World.initial 0) serverAndClient :=
    ⟨.inl (by decide), by unfold World.Admits; decide, trivial, .inl (by decide),
      fun _ => by decide, fun _ => by decide, trivial⟩
  exact ⟨ha, initial_soundAll 0 ha⟩

def World.run (w : World) (calls : List NetCall) : World := calls.foldl World.step w

/-- Sixteen sockets that are made and closed one after the other. -/
def churn : World :=
  (World.initial 0).run ((List.range 16).flatMap fun i => [.socket 1, .close i])

/-- A socket bound to the first ephemeral port and one without a port. -/
def boundHigh : World := (World.initial 0).run [.socket 2, .bind 0 49152, .socket 2]

/-- A connection from port 20480, which is 80 with its bytes swapped, next to a socket that listens
on port 80; the call to accept takes the connection. -/
def acceptedOwn : World :=
  (World.initial 0).run
    [.socket 1, .bind 0 80, .listen 0 5, .socket 1, .bind 1 20480, .connect 1 0 7 0,
      .packet ⟨0, 0, 7, 20480, ⟨Tcp.flagSyn ||| Tcp.flagAck, 100, 1, Tcp.defaultWindow, []⟩⟩ 0,
      .accept 0]

theorem slots_and_ports_not_kept :
    ((netSocket churn.net 1).2 = -1 ∧ (∀ i, churn.opened i = false) ∧
        ¬ churn.CallSound (.socket 1)) ∧
      ¬ boundHigh.CallSound (.sendto 1 [] 0 7 none) ∧ ¬ acceptedOwn.Sound := by
  have hf : (netSocket churn.net 1).2 = -1 := by decide +kernel
  have hn : ∀ i, churn.opened i = false := by decide +kernel
  refine ⟨⟨hf, hn, ?_⟩, ?_, ?_⟩
  · intro h
    have ho := h.socket 1 rfl rfl (by rw [hf]; decide) 0
    rw [hn 0] at ho
    cases ho
  · intro h
    obtain ⟨-, -, hfr⟩ := h.port 1 (by decide +kernel)
    exact hfr 0 (by decide) (by decide +kernel) (by decide +kernel)
  intro h
  have heq := h.ports 0 2 80 (by decide +kernel) (by decide +kernel) (by decide +kernel)
    (by decide +kernel)
  exact absurd heq (by decide)

end Run

section Hosts

variable {n : NetState} {p : TcpPacket} {i : Fin maxSockets} {a b : SocketAddrIn} {conn : Conn}

/-- Of the connections in the table only that between `a` and `b` changes. -/
def OnlyBetween (n n' : NetState) (a b : SocketAddrIn) : Prop :=
  ∀ i conn, n.conns i = some conn → n'.conns i ≠ some conn →
    conn.localAddr = a ∧ conn.remoteAddr = b

def SamePorts (p : TcpPacket) (conn : Conn) : Prop :=
  conn.localAddr.port = p.dstPort ∧ (conn.remoteAddr.port = 0 ∨ conn.remoteAddr.port = p.srcPort)

/-- The connection is of the port pair and takes data of this length. -/
def Takes (localPort port length : ℕ) (conn : Conn) : Prop :=
  conn.localAddr.port = localPort ∧ conn.remoteAddr.port = port ∧ conn.tcp.state = .established ∧
    0 < conn.tcp.sendWindow - Tcp.bytesInFlight conn.tcp ∧
    min length (conn.tcp.sendWindow - Tcp.bytesInFlight conn.tcp) ≤ 180

/-- The connection in the first slot of those with the property. -/
def FirstConn (conns : Table Conn) (q : Conn → Prop) (i : Fin maxSockets) (conn : Conn) : Prop :=
  conns i = some conn ∧ q conn ∧ ∀ j < i, ∀ other, conns j = some other → ¬ q other

lemma firstSlot_eq_some_iff {p : Fin maxSockets → Bool} :
    firstSlot p = some i ↔ p i = true ∧ ∀ j < i, p j = false := by
  rw [firstSlot, List.find?_eq_some_iff_getElem]
  refine and_congr_right fun _ => ⟨?_, fun h => ?_⟩
  · rintro ⟨k, hk, rfl, hno⟩ j hj
    have hjk := hno j (by simpa [Fin.lt_def] using hj)
    simpa using hjk
  · refine ⟨i, by simp, by simp, fun j hj => ?_⟩
    have hji := h ⟨j, hj.trans i.isLt⟩ hj
    simpa using hji

lemma firstSlot_any_iff {conns : Table Conn} {test : Conn → Bool} {q : Conn → Prop}
    (hq : ∀ conn, test conn = true ↔ q conn) :
    firstSlot (fun i => (conns i).any test) = some i ↔ ∃ conn, FirstConn conns q i conn := by
  rw [firstSlot_eq_some_iff, any_eq_true]
  constructor
  · rintro ⟨⟨conn, hc, ht⟩, hno⟩
    refine ⟨conn, hc, (hq conn).1 ht, fun j hj other ho hqo => ?_⟩
    have hf := hno j hj
    rw [ho, any_some, (hq other).2 hqo] at hf
    cases hf
  · rintro ⟨conn, hc, ht, hno⟩
    refine ⟨⟨conn, hc, (hq conn).2 ht⟩, fun j hj => ?_⟩
    rw [Bool.eq_false_iff, ne_eq, any_eq_true]
    rintro ⟨other, ho, hto⟩
    exact hno j hj other ho ((hq other).1 hto)

lemma connSlot_iff : connSlot n.conns p = some i ↔ ∃ conn, FirstConn n.conns (SamePorts p) i conn :=
  firstSlot_any_iff fun conn => by simp [SamePorts]

lemma sendSlot_iff {localPort port : ℕ} {data : List Byte} :
    sendSlot n.conns localPort port data = some i ↔
      ∃ conn, FirstConn n.conns (Takes localPort port data.length) i conn := by
  refine firstSlot_any_iff fun conn => ?_
  simp only [Bool.and_eq_true, decide_eq_true_eq, and_assoc]
  refine and_congr_right fun _ => and_congr_right fun _ => and_congr_right fun he => ?_
  exact Tcp.isSome_sendData he data

lemma FirstConn.unique {conns : Table Conn} {q : Conn → Prop} {other : Conn}
    (h : FirstConn conns q i conn) (h' : FirstConn conns q i other) : conn = other :=
  some.inj (h.1.symm.trans h'.1)

lemma insertFirst_kept {t : Table Conn} (hc : t i = some conn) (x : Conn) :
    insertFirst t x i = some conn := by
  cases hf : firstFree t with
  | none => simp only [insertFirst, hf, hc]
  | some j =>
    have hij : i ≠ j := by
      rintro rfl
      have hn := List.find?_some hf
      rw [hc] at hn
      cases hn
    simp only [insertFirst, hf, update_of_ne hij, hc]

/-- A segment changes no connection but the first of its ports. -/
lemma processTcpPacket_changes {isn : ℕ} (hc : n.conns i = some conn)
    (hne : (processTcpPacket n p isn).conns i ≠ some conn) :
    FirstConn n.conns (SamePorts p) i conn ∧
      (Tcp.processSegment conn.tcp p.segment).1 ≠ conn.tcp := by
  unfold processTcpPacket at hne
  split at hne
  · rename_i k hk
    obtain ⟨other, hf⟩ := connSlot_iff.1 hk
    by_cases hik : i = k
    · subst hik
      obtain rfl := some.inj (hc.symm.trans hf.1)
      refine ⟨hf, fun heq => hne ?_⟩
      dsimp only
      rw [update_self, hc, map_some, heq]
    · exact absurd ((update_of_ne hik _ _).trans hc) hne
  · repeat' split at hne
    all_goals first | exact absurd hc hne | exact absurd (insertFirst_kept hc _) hne

/-- The first connection of a segment's ports has its addresses, or is in a state in which a segment
does nothing. -/
def SegmentTells (n : NetState) (p : TcpPacket) : Prop :=
  ∀ i conn, FirstConn n.conns (SamePorts p) i conn → Tcp.Inert conn.tcp.state ∨
    conn.localAddr = ⟨p.dstIp, p.dstPort⟩ ∧ conn.remoteAddr = ⟨p.srcIp, p.srcPort⟩

lemma segments_confined_iff (n : NetState) (p : TcpPacket) :
    (∀ segment isn, OnlyBetween n (processTcpPacket n { p with segment := segment } isn)
      ⟨p.dstIp, p.dstPort⟩ ⟨p.srcIp, p.srcPort⟩) ↔ SegmentTells n p := by
  constructor
  · intro h i conn hf
    by_cases hi : Tcp.Inert conn.tcp.state
    · exact .inl hi
    · refine .inr (h Tcp.finRstAck 0 i conn hf.1 fun heq => ?_)
      have hslot : connSlot n.conns { p with segment := Tcp.finRstAck } = some i :=
        connSlot_iff.2 ⟨conn, hf⟩
      simp only [processTcpPacket, hslot, update_self, hf.1, map_some, some.injEq] at heq
      exact hi (Tcp.inert_of_finRstAck (congrArg (·.tcp.state) heq))
  · intro h segment isn i conn hc hne
    obtain ⟨hf, hchanged⟩ := processTcpPacket_changes hc hne
    exact (h i conn hf).resolve_left fun hi => hchanged (Tcp.processSegment_inert hi _)

/-- A send on a socket at `a` with the peer `b` goes to the peer and is of the connection between the
two; no other connection changes. -/
structure SendsOwn (n : NetState) (sockfd : ℤ) (data : List Byte) (ip : BitVec 32) (port : ℕ)
    (link : Option Bool) (a b : SocketAddrIn) : Prop where
  sent : ∀ dest j, (netSendto n sockfd data ip port link).2.2 = some (dest, j) → dest = b.ip ∧
    ∃ conn, n.conns j = some conn ∧ conn.localAddr.port = a.port ∧ conn.remoteAddr = b
  kept : ∀ i conn, n.conns i = some conn →
    (netSendto n sockfd data ip port link).1.conns i ≠ some conn →
    conn.localAddr.port = a.port ∧ conn.remoteAddr = b

/-- The first connection that takes the data is that of the peer, and the peer is the host of the
call. -/
def SendTells (n : NetState) (a b : SocketAddrIn) (length : ℕ) (ip : BitVec 32) (port : ℕ) : Prop :=
  ∀ i conn, FirstConn n.conns (Takes a.port port length) i conn → conn.remoteAddr = b ∧ ip = b.ip

section Send

variable {sock : Socket}

lemma netSendto_stream (hsock : n.socketAt sockfd = some (i, sock))
    (hstream : sock.socketType = .stream) (ha : sock.localAddr = some a) (data : List Byte)
    (ip : BitVec 32) (port : ℕ) (link : Option Bool) :
    netSendto n sockfd data ip port link =
      match sendSlot n.conns a.port port data with
      | none => (n, .error (-1), none)
      | some j => ({ n with
          conns := update n.conns j
            ((n.conns j).map fun conn => { conn with tcp := (Tcp.sendData conn.tcp data).1 }) },
          if link = some true ∧ 0 < data.length then .ok data.length else .error (-1),
          link.map fun _ => (ip, j)) := by
  have hb : bindForSend n i sock = (n, sock) := by simp [bindForSend, ha]
  cases hslot : sendSlot n.conns a.port port data with
  | none => simp only [netSendto, hsock, hb, hstream, ha, getD_some, hslot]
  | some j => simp only [netSendto, hsock, hb, hstream, ha, getD_some, hslot]

lemma sends_own_iff (hsock : n.socketAt sockfd = some (i, sock))
    (hstream : sock.socketType = .stream) (ha : sock.localAddr = some a) (data : List Byte)
    (ip : BitVec 32) (port : ℕ) (ok : Bool) :
    SendsOwn n sockfd data ip port (some ok) a b ↔ SendTells n a b data.length ip port := by
  constructor
  · intro h j conn hf
    have hsent : (netSendto n sockfd data ip port (some ok)).2.2 = some (ip, j) := by
      rw [netSendto_stream hsock hstream ha, sendSlot_iff.2 ⟨conn, hf⟩]
      rfl
    obtain ⟨hip, other, ho, -, hb⟩ := h.sent ip j hsent
    rw [hf.1, some.injEq] at ho
    exact ⟨ho ▸ hb, hip⟩
  · intro h
    constructor
    · intro dest j hsent
      rw [netSendto_stream hsock hstream ha] at hsent
      cases hs : sendSlot n.conns a.port port data with
      | none => simp [hs] at hsent
      | some k =>
        simp only [hs, map_some, some.injEq, Prod.mk.injEq] at hsent
        obtain ⟨rfl, rfl⟩ := hsent
        obtain ⟨conn, hf⟩ := sendSlot_iff.1 hs
        obtain ⟨hb, hip⟩ := h k conn hf
        exact ⟨hip, conn, hf.1, hf.2.1.1, hb⟩
    · intro j conn hc hne
      rw [netSendto_stream hsock hstream ha] at hne
      cases hs : sendSlot n.conns a.port port data with
      | none =>
        rw [hs] at hne
        exact absurd hc hne
      | some k =>
        simp only [hs] at hne
        obtain ⟨other, hf⟩ := sendSlot_iff.1 hs
        by_cases hjk : j = k
        · subst hjk
          obtain rfl := some.inj (hc.symm.trans hf.1)
          exact ⟨hf.2.1.1, (h j conn hf).1⟩
        · exact absurd ((update_of_ne hjk _ _).trans hc) hne

end Send

/-- Segments of a sender change its own connection only where the ports tell the connections apart,
and a send on a stream socket at `a` with the peer `b` is of that connection and goes to the peer
only where they do and the call names the peer. -/
theorem connections_confined_iff (n : NetState) (p : TcpPacket) (sockfd : ℤ) (i : Fin maxSockets)
    (sock : Socket) (a b : SocketAddrIn) (hsock : n.socketAt sockfd = some (i, sock))
    (hstream : sock.socketType = .stream) (ha : sock.localAddr = some a) (data : List Byte)
    (ip : BitVec 32) (port : ℕ) (ok : Bool) :
    ((∀ segment isn, OnlyBetween n (processTcpPacket n { p with segment := segment } isn)
        ⟨p.dstIp, p.dstPort⟩ ⟨p.srcIp, p.srcPort⟩) ↔ SegmentTells n p) ∧
      (SendsOwn n sockfd data ip port (some ok) a b ↔ SendTells n a b data.length ip port) :=
  ⟨segments_confined_iff n p, sends_own_iff hsock hstream ha data ip port ok⟩

/-- Port 80 of this machine is connected with port 5000 of the host 1. -/
def oneConn : NetState :=
  ⟨update (fun _ => none) 0 (some { Socket.new .stream with
      localAddr := some ⟨9, 80⟩
      remoteAddr := some ⟨1, 5000⟩ }),
    update (fun _ => none) 0 (some ⟨⟨9, 80⟩, ⟨1, 5000⟩, 0, (Tcp.activeOpen 0).1⟩), 49152, 9⟩

def resetFrom (ip : BitVec 32) : TcpPacket := ⟨ip, 9, 5000, 80, ⟨Tcp.flagRst, 0, 0, 0, []⟩⟩

lemma oneConn_eq (h : oneConn.conns i = some conn) :
    conn = ⟨⟨9, 80⟩, ⟨1, 5000⟩, 0, (Tcp.activeOpen 0).1⟩ := by
  by_cases hi : i = 0
  · exact (some.inj ((congrArg oneConn.conns hi).symm.trans h)).symm
  · unfold oneConn at h
    dsimp only at h
    rw [update_of_ne hi] at h
    cases h

theorem connections_confined_iff_peer :
    OnlyBetween oneConn (processTcpPacket oneConn (resetFrom 1) 0) ⟨9, 80⟩ ⟨1, 5000⟩ ∧
      SendsOwn oneConn 0 [1] 1 5000 (some true) ⟨9, 80⟩ ⟨1, 5000⟩ := by
  obtain ⟨hsegment, hsend⟩ := connections_confined_iff oneConn (resetFrom 1) 0 0 _ ⟨9, 80⟩ ⟨1, 5000⟩
    rfl rfl rfl [1] 1 5000 true
  refine ⟨hsegment.2 (fun i conn hf => ?_) _ 0, hsend.2 fun i conn hf => ?_⟩
  · rw [oneConn_eq hf.1]
    exact .inr ⟨rfl, rfl⟩
  · rw [oneConn_eq hf.1]
    exact ⟨rfl, rfl⟩

/-- The host 2 resets the connection. -/
theorem third_host_resets :
    ¬ OnlyBetween oneConn (processTcpPacket oneConn (resetFrom 2) 0) ⟨9, 80⟩ ⟨2, 5000⟩ := by
  intro h
  have hs : ((processTcpPacket oneConn (resetFrom 2) 0).conns 0).map (·.tcp.state) ≠
      (oneConn.conns 0).map (·.tcp.state) := by decide
  have hr := (h 0 _ rfl fun heq => hs (congrArg _ heq)).2
  exact absurd hr (by decide)

end Hosts

end Elitra.Net
