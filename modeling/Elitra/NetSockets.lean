import Elitra.NetTable
import Elitra.Packets

namespace Elitra.Net
open Function Option Packet

section Segments

def ipOf (ip : BitVec 32) : Ip :=
  ⟨ip.extractLsb' 24 8, ip.extractLsb' 16 8, ip.extractLsb' 8 8, ip.extractLsb' 0 8⟩

/-- The array that `send_ipv4` gets for a packet of a connection: all of its 200 bytes, whatever
length `build_tcp_packet` returned. -/
def Conn.segment (conn : Conn) (p : Tcp.Packet) (payload : List Byte) : List Byte :=
  (buildTcpPacket (List.replicate 200 0) (ipOf conn.localAddr.ip) (ipOf conn.remoteAddr.ip)
    conn.localAddr.port conn.remoteAddr.port p payload).1

/-- What the IP layer gets from a send on a stream socket. -/
def sentSegment (n : NetState) (localPort port : ℕ) (data : List Byte) : Option (List Byte) :=
  (sendSlot n.conns localPort port data).bind fun j => (n.conns j).bind fun conn =>
    (Tcp.sendData conn.tcp data).2.map fun r => conn.segment r.1 r.2

variable {data : List Byte}

lemma segment_eq (conn : Conn) (p : Tcp.Packet) (h : data.length ≤ 180) :
    (conn.segment p data).drop 20 = data ++ List.replicate (180 - data.length) 0 ∧
      ((conn.segment p data).drop 4).take 4 = be32 p.seqNum := by
  unfold Conn.segment buildTcpPacket
  dsimp only
  generalize hf : OnesComplement.le16 _ = f
  have hl : f.length = 2 := by rw [← hf]; rfl
  have hh := tcpHeader_length conn.localAddr.port conn.remoteAddr.port p hl
  have hn : (tcpHeader conn.localAddr.port conn.remoteAddr.port p f ++ data).length =
      20 + data.length := by
    rw [List.length_append, hh]
  rw [place_of_le (by rw [hn, List.length_replicate]; omega), hn, List.drop_replicate,
    List.append_assoc]
  refine ⟨?_, rfl⟩
  rw [List.drop_left' hh, show 200 - (20 + data.length) = 180 - data.length by omega]

/-- What a successful send has to do: one segment with the data and nothing else, numbered as the
connection was before it, which counts on by what the call returns. -/
def Carried (n : NetState) (sockfd : ℤ) (localPort : ℕ) (data : List Byte) (ip : BitVec 32)
    (port : ℕ) : Prop :=
  ∀ link k, (netSendto n sockfd data ip port link).2.1 = .ok k → ∃ j conn segment,
    (netSendto n sockfd data ip port link).2.2 = some (ip, j) ∧ n.conns j = some conn ∧
    sentSegment n localPort port data = some segment ∧ segment.drop 20 = data.take k ∧
    (segment.drop 4).take 4 = be32 conn.tcp.sendSeq ∧
    ((netSendto n sockfd data ip port link).1.conns j).map (·.tcp.sendSeq) =
      some (Tcp.wrappingAdd conn.tcp.sendSeq k)

section Sends

variable {n : NetState} {sockfd : ℤ} {i j : Fin maxSockets} {sock : Socket} {addr : SocketAddrIn}
  {conn : Conn} {port : ℕ}

lemma sendData_of_takes {localPort : ℕ} (h : Takes localPort port data.length conn) :
    Tcp.sendData conn.tcp data =
      ({ conn.tcp with
          sendSeq := Tcp.wrappingAdd conn.tcp.sendSeq
            (min data.length (conn.tcp.sendWindow - Tcp.bytesInFlight conn.tcp)) },
        some (⟨conn.tcp.sendSeq, conn.tcp.recvSeq, Tcp.flagAck ||| Tcp.flagPsh,
          Tcp.advertisedRecvWindow conn.tcp⟩,
          data.take (min data.length (conn.tcp.sendWindow - Tcp.bytesInFlight conn.tcp)))) := by
  obtain ⟨-, -, he, hpos, hle⟩ := h
  have hstate : ¬ conn.tcp.state ≠ .established := not_not.mpr he
  have hmin := min_eq_left
    (min_le_left data.length (conn.tcp.sendWindow - Tcp.bytesInFlight conn.tcp))
  simp only [Tcp.sendData, if_neg hstate, List.length_take, hmin]
  rw [if_neg hpos.ne', if_neg (by omega)]

/-- The send of which the first connection that takes the data is `conn`. -/
lemma netSendto_of_first (hs : n.socketAt sockfd = some (i, sock))
    (ht : sock.socketType = .stream) (ha : sock.localAddr = some addr)
    (hf : FirstConn n.conns (Takes addr.port port data.length) j conn) (ip : BitVec 32) :
    netSendto n sockfd data ip port (some true) =
        ({ n with
            conns := update n.conns j (some { conn with tcp := (Tcp.sendData conn.tcp data).1 }) },
          if 0 < data.length then .ok data.length else .error (-1), some (ip, j)) ∧
      sentSegment n addr.port port data =
        (Tcp.sendData conn.tcp data).2.map fun r => conn.segment r.1 r.2 := by
  have hslot := sendSlot_iff.2 ⟨conn, hf⟩
  constructor
  · rw [netSendto_stream hs ht ha, hslot]
    simp only [hf.1, map_some, true_and]
  · rw [sentSegment, hslot, bind_some, hf.1, bind_some]

lemma carried_of_full (hs : n.socketAt sockfd = some (i, sock)) (ht : sock.socketType = .stream)
    (ha : sock.localAddr = some addr) (ip : BitVec 32)
    (hfull : data = [] ∨ ∀ j conn, FirstConn n.conns (Takes addr.port port data.length) j conn →
      data.length = 180 ∧ 180 ≤ conn.tcp.sendWindow - Tcp.bytesInFlight conn.tcp) :
    Carried n sockfd addr.port data ip port := by
  intro link k hk
  rw [netSendto_stream hs ht ha] at hk
  cases hslot : sendSlot n.conns addr.port port data with
  | none => simp [hslot] at hk
  | some j =>
    rw [hslot] at hk
    dsimp only at hk
    split_ifs at hk with hcond
    obtain ⟨rfl, hpos⟩ := hcond
    obtain rfl := Except.ok.inj hk
    obtain ⟨conn, hf⟩ := sendSlot_iff.1 hslot
    have hne : data ≠ [] := by rintro rfl; simp at hpos
    obtain ⟨hlen, hwindow⟩ := hfull.resolve_left hne j conn hf
    obtain ⟨hsend, hsegment⟩ := netSendto_of_first hs ht ha hf ip
    have hmin : min data.length (conn.tcp.sendWindow - Tcp.bytesInFlight conn.tcp) =
        data.length := min_eq_left (hlen ▸ hwindow)
    rw [sendData_of_takes hf.2.1, hmin, List.take_length] at hsend hsegment
    obtain ⟨hpayload, hseq⟩ := segment_eq conn ⟨conn.tcp.sendSeq, conn.tcp.recvSeq,
      Tcp.flagAck ||| Tcp.flagPsh, Tcp.advertisedRecvWindow conn.tcp⟩ hlen.le
    refine ⟨j, conn, _, by rw [hsend], hf.1, hsegment, ?_, hseq, ?_⟩
    · rw [hpayload, hlen, List.replicate_zero, List.append_nil, ← hlen, List.take_length]
    · rw [hsend]
      simp only [update_self, map_some]

lemma full_of_carried (hs : n.socketAt sockfd = some (i, sock)) (ht : sock.socketType = .stream)
    (ha : sock.localAddr = some addr) {ip : BitVec 32} (h : Carried n sockfd addr.port data ip port)
    (hne : data ≠ []) (hf : FirstConn n.conns (Takes addr.port port data.length) j conn) :
    data.length = 180 ∧ 180 ≤ conn.tcp.sendWindow - Tcp.bytesInFlight conn.tcp := by
  obtain ⟨hsend, hsegment⟩ := netSendto_of_first hs ht ha hf ip
  have hpos : 0 < data.length := List.length_pos_iff.mpr hne
  rw [if_pos hpos] at hsend
  obtain ⟨j', conn', segment, hslot, hc, hsent, hpayload, -, hcount⟩ :=
    h (some true) data.length (by rw [hsend])
  rw [hsend] at hslot hcount
  obtain ⟨-, rfl⟩ := Prod.mk.inj (some.inj hslot)
  obtain rfl := some.inj (hf.1.symm.trans hc)
  have htakes := sendData_of_takes hf.2.1
  obtain ⟨-, -, -, -, hle⟩ := hf.2.1
  have hchunk : (data.take (min data.length
      (conn.tcp.sendWindow - Tcp.bytesInFlight conn.tcp))).length ≤ 180 := by
    rw [List.length_take]
    omega
  rw [hsegment, htakes, map_some, some.injEq] at hsent
  rw [← hsent, (segment_eq conn _ hchunk).1, List.take_length] at hpayload
  have hlen := congrArg List.length hpayload
  rw [List.length_append, List.length_replicate, Nat.add_sub_cancel' hchunk] at hlen
  simp only [update_self, map_some, htakes, some.injEq, Tcp.wrappingAdd] at hcount
  refine ⟨hlen.symm, ?_⟩
  generalize conn.tcp.sendWindow - Tcp.bytesInFlight conn.tcp = free at hcount hle ⊢
  omega

end Sends

/-- A send is carried out as reported exactly when it has no data, no connection takes it, or it has
180 bytes, which fill the array, and the connection that takes it has so much of its window free. A
segment that is to have no payload has 180 bytes of it. -/
theorem netSendto_carries_iff (n : NetState) (sockfd : ℤ) (i : Fin maxSockets) (sock : Socket)
    (addr : SocketAddrIn) (hs : n.socketAt sockfd = some (i, sock))
    (ht : sock.socketType = .stream) (ha : sock.localAddr = some addr) (data : List Byte)
    (ip : BitVec 32) (port : ℕ) :
    (Carried n sockfd addr.port data ip port ↔ data = [] ∨
      ∀ j conn, FirstConn n.conns (Takes addr.port port data.length) j conn →
        data.length = 180 ∧ 180 ≤ conn.tcp.sendWindow - Tcp.bytesInFlight conn.tcp) ∧
    ∀ (conn : Conn) (p : Tcp.Packet), (conn.segment p []).drop 20 = List.replicate 180 0 := by
  refine ⟨⟨fun h => ?_, carried_of_full hs ht ha ip⟩, fun conn p => ?_⟩
  · by_cases hne : data = []
    · exact .inl hne
    · exact .inr fun j conn hf => full_of_carried hs ht ha h hne hf
  · exact (@segment_eq [] conn p (Nat.zero_le 180)).1

/-- Port 80 of this machine is connected with port 5000 of the host 1. -/
def established : NetState :=
  { oneConn with
    conns := fun j => (oneConn.conns j).map fun conn =>
      { conn with tcp := ⟨.established, 7, 7, 0, 65535, 0, []⟩ } }

theorem netSendto_carries_iff_full :
    (netSendto established 0 (List.replicate 180 1) 1 5000 (some true)).2.1 = .ok 180 ∧
      Carried established 0 80 (List.replicate 180 1) 1 5000 := by
  refine ⟨by decide +kernel, (netSendto_carries_iff established 0 0 _ ⟨9, 80⟩ rfl rfl rfl
    (List.replicate 180 1) 1 5000).1.2 (.inr fun j conn hf => ⟨List.length_replicate .., ?_⟩)⟩
  obtain ⟨before, hb, hconn⟩ := map_eq_some_iff.mp hf.1
  rw [← hconn]
  exact (by decide : 180 ≤ 65535 - Tcp.wrappingSub 7 7)

/-- One byte of data goes out with 179 zeros behind it, a FIN with 180. -/
theorem sent_with_padding :
    (netSendto established 0 [1] 1 5000 (some true)).2.1 = .ok 1 ∧
    (sentSegment established 80 5000 [1]).map (·.drop 20) = some (1 :: List.replicate 179 0) ∧
    (established.conns 0).bind (fun conn => (Tcp.close conn.tcp).2.map fun p =>
      (conn.segment p []).drop 20) = some (List.replicate 180 0) := by
  decide +kernel

end Segments

section Accept

variable {n : NetState} {sockfd : ℤ} {i : Fin maxSockets} {conn : Conn}

lemma acceptSlot_eq_some (h : acceptSlot n sockfd = some (i, conn)) :
    ∃ port, listenPort n sockfd = some port ∧ n.conns i = some conn ∧
      conn.tcp.state = .established ∧ fromBe conn.localAddr.port = port := by
  simp only [acceptSlot, bind_eq_some_iff, map_eq_some_iff, Prod.mk.injEq] at h
  obtain ⟨port, hl, j, hj, c, hc, rfl, rfl⟩ := h
  have hf := List.find?_some hj
  simp only [hc, any_some, Bool.and_eq_true, decide_eq_true_eq] at hf
  exact ⟨port, hl, hc, hf⟩

lemma acceptSlot_eq_none_iff : acceptSlot n sockfd = none ↔
    ∀ port, listenPort n sockfd = some port → ∀ i conn, n.conns i = some conn →
      conn.tcp.state = .established → fromBe conn.localAddr.port ≠ port := by
  constructor
  · intro h port hl i conn hc he hp
    simp only [acceptSlot, hl, bind_some, bind_eq_none_iff, map_eq_none_iff] at h
    cases hf : firstSlot fun i => (n.conns i).any fun conn =>
        conn.tcp.state = .established && fromBe conn.localAddr.port = port with
    | none =>
      have hno := firstSlot_eq_none hf i
      simp [hc, he, hp] at hno
    | some j =>
      have hany := List.find?_some hf
      rw [h j hf] at hany
      cases hany
  · intro h
    cases ha : acceptSlot n sockfd with
    | none => rfl
    | some r =>
      obtain ⟨port, hl, hc, he, hp⟩ := acceptSlot_eq_some ha
      exact absurd hp (h port hl _ _ hc he)

/-- Some segment of the connection's peer changes the socket. -/
def Reaches (n : NetState) (conn : Conn) (j : Fin maxSockets) : Prop :=
  ∃ segment isn, (processTcpPacket n ⟨conn.remoteAddr.ip, conn.localAddr.ip, conn.remoteAddr.port,
    conn.localAddr.port, segment⟩ isn).sockets j ≠ n.sockets j

/-- What `net_accept` has to do. -/
structure Accepts (n : NetState) (sockfd : ℤ) : Prop where
  socket : 0 ≤ (netAccept n sockfd).2.1 → ∃ j i conn sock,
    slotOf (netAccept n sockfd).2.1 = some j ∧ n.sockets j = none ∧ n.conns i = some conn ∧
    conn.tcp.state = .established ∧ listenPort n sockfd = some conn.localAddr.port ∧
    (netAccept n sockfd).1.sockets j = some sock ∧ sock.state = .connected ∧
    sock.remoteAddr = some conn.remoteAddr ∧ Reaches (netAccept n sockfd).1 conn j
  kept : firstFree n.sockets = none → ∀ i conn, n.conns i = some conn →
    conn.tcp.state = .established → ((netAccept n sockfd).1.conns i).isSome

/-- It does so only when it finds nothing to accept: a segment never changes a socket, and without a
free slot the connection is dropped. -/
theorem netAccept_accepts_iff (n : NetState) (sockfd : ℤ) :
    Accepts n sockfd ↔ ∀ port, listenPort n sockfd = some port → ∀ i conn, n.conns i = some conn →
      conn.tcp.state = .established → fromBe conn.localAddr.port ≠ port := by
  rw [← acceptSlot_eq_none_iff]
  constructor
  · intro h
    by_contra hne
    obtain ⟨⟨i, conn⟩, ha⟩ := ne_none_iff_exists'.mp hne
    obtain ⟨port, -, hc, he, -⟩ := acceptSlot_eq_some ha
    cases hf : firstFree n.sockets with
    | none =>
      have hkept := h.kept hf i conn hc he
      simp [netAccept, ha, hf] at hkept
    | some j =>
      have hfd : 0 ≤ (netAccept n sockfd).2.1 := by
        simp only [netAccept, ha, hf]
        cases firstSlot fun k => (((({ n with conns := update n.conns i none } : NetState).setSocket
            j _).sockets k)).isSome with
        | none => simp
        | some k => simp
      obtain ⟨k, _, conn, _, _, _, _, _, _, _, _, _, segment, isn, hreach⟩ := h.socket hfd
      exact hreach (congrFun (sockets_processTcpPacket _ _ _).1 k)
  · intro h
    constructor
    · intro hfd
      simp [netAccept, h] at hfd
    · intro _ i conn hc _
      simp [netAccept, h, hc]

/-- The listening socket is in the slot `i`, and a connection to it is established. The bytes of its
ports are equal. -/
def awaited (i : Fin maxSockets) : NetState :=
  ⟨update (fun _ => none) i
      (some { Socket.new .stream with state := .listen, localAddr := some ⟨9, 0x101⟩ }),
    fun j => (established.conns j).map fun conn =>
      { conn with localAddr := ⟨9, 0x101⟩, remoteAddr := ⟨1, 0x202⟩ }, 49152, 9⟩

/-- The listening socket itself is returned, and the segments that follow find no connection. -/
theorem accepted_is_listening :
    (netAccept (awaited 0) 0).2.1 = 0 ∧ ((awaited 0).sockets 0).isSome ∧
      connSlot (awaited 0).conns ⟨1, 9, 0x202, 0x101, ⟨Tcp.flagAck, 0, 0, 0, [1]⟩⟩ = some 0 ∧
      connSlot (netAccept (awaited 0) 0).1.conns ⟨1, 9, 0x202, 0x101, ⟨Tcp.flagAck, 0, 0, 0, [1]⟩⟩ =
        none := by
  decide

end Accept

end Elitra.Net
