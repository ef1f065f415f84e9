import Elitra.OnesComplement
import Elitra.TcpCalls

namespace Elitra.Packet
open OnesComplement

abbrev Byte := BitVec 8

structure Ip where
  a : Byte
  b : Byte
  c : Byte
  d : Byte
  deriving DecidableEq

def Ip.bytes (ip : Ip) : List Byte := [ip.a, ip.b, ip.c, ip.d]

/-- A builder's result: the buffer, when the message fits, and the length of the message. -/
def place (packet message : List Byte) : List Byte × ℕ :=
  if packet.length < message.length then (packet, 0)
  else (message ++ packet.drop message.length, message.length)

lemma place_of_le {packet message : List Byte} (h : message.length ≤ packet.length) :
    place packet message = (message ++ packet.drop message.length, message.length) :=
  if_neg (Nat.not_lt.mpr h)

def built (r : List Byte × ℕ) : List Byte := r.1.take r.2

lemma built_place {packet message : List Byte} (h : message.length ≤ packet.length) :
    built (place packet message) = message := by
  rw [place_of_le h, built, List.take_left]

section Ipv4

def ipv4Header (src dest : Ip) (protocol : Byte) (total : ℕ) (field : List Byte) : List Byte :=
  [0x45, 0] ++ be16 total ++ [0, 0, 0, 0, 64, protocol] ++ field ++ src.bytes ++ dest.bytes

lemma ipv4Header_length (src dest : Ip) (protocol : Byte) (total : ℕ) {f : List Byte}
    (h : f.length = 2) : (ipv4Header src dest protocol total f).length = 20 := by
  simp [ipv4Header, be16, Ip.bytes, h]

/-- `build_ipv4_packet`. The checksum adds the words as the machine reads them, those of the old
checksum field among them. -/
def buildIpv4Packet (packet : List Byte) (src dest : Ip) (protocol : Byte) (payload : List Byte) :
    List Byte × ℕ :=
  let header := ipv4Header src dest protocol (20 + payload.length)
  let sum := wordSum 1 256 (header ((packet.drop 10).take 2))
  place packet (header (le16 (complement sum)) ++ payload)

end Ipv4

section Icmp

/-- `icmp_checksum`; its sum wraps around at 32 bits. -/
def icmpChecksum (data : List Byte) : ℕ := complement (wordSum 256 1 data % 2 ^ 32)

def icmpMessage (type : Byte) (id seq : ℕ) (payload field : List Byte) : List Byte :=
  [type, 0] ++ field ++ be16 id ++ be16 seq ++ payload

lemma icmpMessage_length (type : Byte) (id seq : ℕ) (payload : List Byte) {f : List Byte}
    (h : f.length = 2) : (icmpMessage type id seq payload f).length = 8 + payload.length := by
  simp [icmpMessage, be16, h]
  omega

def buildIcmp (type : Byte) (packet : List Byte) (id seq : ℕ) (payload : List Byte) :
    List Byte × ℕ :=
  let message := icmpMessage type id seq payload
  place packet (message (be16 (icmpChecksum (message [0, 0]))))

def buildIcmpEchoRequest : List Byte → ℕ → ℕ → List Byte → List Byte × ℕ := buildIcmp 8
def buildIcmpReply : List Byte → ℕ → ℕ → List Byte → List Byte × ℕ := buildIcmp 0

end Icmp

section Transport

def udpMessage (srcPort destPort : ℕ) (payload field : List Byte) : List Byte :=
  be16 srcPort ++ be16 destPort ++ be16 (8 + payload.length) ++ field ++ payload

/-- `udp_checksum`. The length of the pseudo-header is swapped twice, by `to_be` and by the order in
which its bytes are stored. -/
def udpChecksum (src dst : Ip) (data : List Byte) : ℕ :=
  if 4096 < 12 + data.length then 0
  else
    let pseudo := src.bytes ++ dst.bytes ++ [0, 17] ++ le16 data.length
    let csum := complement (wordSum 256 1 (pseudo ++ data) % 2 ^ 32)
    if csum = 0 then 0xFFFF else csum

def buildUdpPacket (packet : List Byte) (srcPort destPort : ℕ) (payload : List Byte)
    (src dst : Ip) : List Byte × ℕ :=
  let message := udpMessage srcPort destPort payload
  place packet (message (be16 (udpChecksum src dst (message [0, 0]))))

def be32 (x : ℕ) : List Byte := be16 (x / 2 ^ 16) ++ be16 x

/-- The header of a segment. The field of the data offset and the flags is not swapped. -/
def tcpHeader (srcPort destPort : ℕ) (p : Tcp.Packet) (field : List Byte) : List Byte :=
  be16 srcPort ++ be16 destPort ++ be32 p.seqNum ++ be32 p.ackNum ++
    le16 (5 <<< 12 ||| p.flags).toNat ++ be16 p.window ++ field ++ [0, 0]

def tcpSum (src dest : Ip) (header payload : List Byte) : ℕ :=
  wordSum 256 1 src.bytes + wordSum 256 1 dest.bytes + 6 + (20 + payload.length) +
    wordSum 256 1 header + wordSum 256 1 payload

def calculateChecksum (src dest : Ip) (header payload : List Byte) : ℕ :=
  complement (tcpSum src dest header payload % 2 ^ 32)

/-- `build_tcp_packet`. The checksum is not swapped either. -/
def buildTcpPacket (packet : List Byte) (src dest : Ip) (srcPort destPort : ℕ) (p : Tcp.Packet)
    (payload : List Byte) : List Byte × ℕ :=
  let header := tcpHeader srcPort destPort p
  place packet (header (le16 (calculateChecksum src dest (header [0, 0]) payload)) ++ payload)

end Transport

section Checksums

lemma valid_of_sum {l : List Byte} {s : ℕ} (h : wordSum 256 1 l = s + complement s) : Valid l := by
  rw [Valid, fold_eq_max (h ▸ add_complement_pos s), h]
  exact add_complement_mod s

lemma ipv4Header_sum (src dest : Ip) (protocol : Byte) (total : ℕ) {c : ℕ} (h : c < 2 ^ 16) :
    wordSum 1 256 (ipv4Header src dest protocol total (le16 c)) =
      wordSum 1 256 (ipv4Header src dest protocol total [0, 0]) + c := by
  simp [ipv4Header, wordSum, be16, le16, Ip.bytes] at h ⊢
  omega

lemma ipv4Header_valid (src dest : Ip) (protocol : Byte) (total : ℕ) :
    let header := ipv4Header src dest protocol total
    Valid (header (le16 (complement (wordSum 1 256 (header [0, 0]))))) := by
  intro header
  set s := wordSum 1 256 (header [0, 0])
  have hs := ipv4Header_sum src dest protocol total (complement_lt s)
  have hw := wordSum_swap (header (le16 (complement s)))
  rw [hs, Nat.mul_mod, add_complement_mod s] at hw
  rw [Valid, fold_eq_max]
  · exact hw.symm
  · simp only [header, ipv4Header, wordSum, List.cons_append, List.nil_append]
    exact Nat.add_pos_left (by decide) _

lemma icmpMessage_sum (type : Byte) (id seq : ℕ) (payload : List Byte) {c : ℕ} (h : c < 2 ^ 16) :
    wordSum 256 1 (icmpMessage type id seq payload (be16 c)) =
      wordSum 256 1 (icmpMessage type id seq payload [0, 0]) + c := by
  simp [icmpMessage, wordSum, be16] at h ⊢
  omega

lemma icmpMessage_valid (type : Byte) (id seq : ℕ) {payload : List Byte}
    (h : payload.length < 2 ^ 15) :
    let message := icmpMessage type id seq payload
    Valid (message (be16 (icmpChecksum (message [0, 0])))) := by
  intro message
  have hb := wordSum_le (message [0, 0])
  have hn : (message [0, 0]).length = _ := icmpMessage_length type id seq payload rfl
  rw [icmpChecksum, Nat.mod_eq_of_lt (by omega)]
  exact valid_of_sum (icmpMessage_sum type id seq payload (complement_lt _))

theorem built_checksums_valid (src dest : Ip) (protocol : Byte) (id seq : ℕ)
    (payload packet : List Byte) (hp : packet.length ≤ 1500) :
    (20 + payload.length ≤ 1500 →
      Valid ((built (buildIpv4Packet (List.replicate 1500 0) src dest protocol payload)).take 20)) ∧
    (8 + payload.length ≤ packet.length →
      Valid (built (buildIcmpReply packet id seq payload)) ∧
      Valid (built (buildIcmpEchoRequest packet id seq payload))) := by
  have hi (type : Byte) (h : 8 + payload.length ≤ packet.length) :
      Valid (built (buildIcmp type packet id seq payload)) := by
    rw [buildIcmp, built_place ((icmpMessage_length type id seq payload rfl).trans_le h)]
    exact icmpMessage_valid type id seq (by omega)
  refine ⟨fun h => ?_, fun h => ⟨hi 0 h, hi 8 h⟩⟩
  have hl (c : ℕ) := ipv4Header_length src dest protocol (20 + payload.length) (f := le16 c) rfl
  rw [buildIpv4Packet, built_place, List.take_left' (hl _)]
  · exact ipv4Header_valid src dest protocol _
  · rwa [List.length_append, hl, List.length_replicate]

def hostA : Ip := ⟨10, 0, 2, 15⟩
def hostB : Ip := ⟨10, 0, 2, 2⟩

theorem built_checksums_valid_odd :
    Valid ((built (buildIpv4Packet (List.replicate 1500 0) hostA hostB 1 [1, 2, 3])).take 20) ∧
    Valid (built (buildIcmpReply (List.replicate 1500 0) 7 1 [1, 2, 3])) ∧
    Valid (built (buildIcmpEchoRequest (List.replicate 1500 0) 7 1 [1, 2, 3])) :=
  have h := built_checksums_valid hostA hostB 1 7 1 [1, 2, 3] (List.replicate 1500 0)
    (by rw [List.length_replicate])
  ⟨h.1 (by decide), h.2 (by rw [List.length_replicate]; decide)⟩

/-- What is added in front of a segment or a datagram for its checksum. -/
def pseudoHeader (src dest : Ip) (protocol : Byte) (len : ℕ) : List Byte :=
  src.bytes ++ dest.bytes ++ [0, protocol] ++ be16 len

def Checked (src dest : Ip) (protocol : Byte) (l : List Byte) : Prop :=
  Valid (pseudoHeader src dest protocol l.length ++ l)

instance (src dest : Ip) (protocol : Byte) (l : List Byte) :
    Decidable (Checked src dest protocol l) := inferInstanceAs (Decidable (Valid _))

section Tcp

variable (src dest : Ip) (srcPort destPort : ℕ) (p : Tcp.Packet) {payload : List Byte}

lemma tcpHeader_length {f : List Byte} (h : f.length = 2) :
    (tcpHeader srcPort destPort p f).length = 20 := by
  simp [tcpHeader, be16, be32, le16, h]

lemma wordSum_segment {c : ℕ} (hc : c < 2 ^ 16) (hl : 20 + payload.length < 2 ^ 16) :
    let header := tcpHeader srcPort destPort p
    wordSum 256 1 (pseudoHeader src dest 6 (20 + payload.length) ++ (header (le16 c) ++ payload)) =
      tcpSum src dest (header [0, 0]) payload + (256 * (c % 256) + c / 256) := by
  simp [tcpSum, pseudoHeader, tcpHeader, wordSum, be16, be32, le16, Ip.bytes] at hc hl ⊢
  omega

lemma tcpSum_lt (hl : 20 + payload.length < 2 ^ 16) {header : List Byte}
    (h : header.length = 20) : tcpSum src dest header payload < 2 ^ 32 := by
  have hs := wordSum_le src.bytes
  have hd := wordSum_le dest.bytes
  have hh := wordSum_le header
  have hp := wordSum_le payload
  simp only [Ip.bytes, List.length_cons, List.length_nil] at hs hd
  simp only [tcpSum, Ip.bytes]
  omega

lemma segment_checked_iff {packet : List Byte} (hp : 20 + payload.length ≤ packet.length)
    (hl : 20 + payload.length < 2 ^ 16) :
    let c := calculateChecksum src dest (tcpHeader srcPort destPort p [0, 0]) payload
    Checked src dest 6 (built (buildTcpPacket packet src dest srcPort destPort p payload)) ↔
      c % 256 = c / 256 := by
  intro c
  have hn (f : List Byte) (hf : f.length = 2) :
      (tcpHeader srcPort destPort p f ++ payload).length = 20 + payload.length := by
    rw [List.length_append, tcpHeader_length _ _ _ hf]
  set s := tcpSum src dest (tcpHeader srcPort destPort p [0, 0]) payload with hd
  have hc : c = complement s :=
    congrArg complement (Nat.mod_eq_of_lt (tcpSum_lt _ _ hl (tcpHeader_length _ _ _ rfl)))
  have hm := add_complement_mod s
  have hb := complement_lt s
  rw [← hc] at hm hb
  have hz : 0 < s := by
    rw [hd, tcpSum]
    omega
  rw [buildTcpPacket, built_place (by rw [hn _ rfl]; exact hp), Checked, hn _ rfl, Valid,
    wordSum_segment _ _ _ _ _ hb hl, ← hd, fold_eq_max (by omega)]
  omega

end Tcp

section Udp

variable (src dest : Ip) (srcPort destPort : ℕ) {payload : List Byte}

/-- The sum of a datagram behind a pseudo-header, with its length and its checksum apart. -/
lemma wordSum_datagram (x y z w : Byte) :
    wordSum 256 1 (src.bytes ++ dest.bytes ++ [0, 17] ++ [x, y] ++
        udpMessage srcPort destPort payload [z, w]) =
      wordSum 256 1 (src.bytes ++ dest.bytes ++ [0, 17] ++ [0, 0] ++
        udpMessage srcPort destPort payload [0, 0]) +
      (256 * x.toNat + y.toNat) + (256 * z.toNat + w.toNat) := by
  simp [udpMessage, wordSum, be16, Ip.bytes]
  omega

lemma datagram_checked_iff {packet : List Byte} (hp : 8 + payload.length ≤ packet.length)
    (hl : 20 + payload.length ≤ 4096) :
    Checked src dest 17 (built (buildUdpPacket packet srcPort destPort payload src dest)) ↔
      (8 + payload.length) % 256 = (8 + payload.length) / 256 := by
  set message := udpMessage srcPort destPort payload with hu
  have hn (f : List Byte) (hf : f.length = 2) : (message f).length = 8 + payload.length := by
    simp [hu, udpMessage, be16, hf]
    omega
  have hx : 8 + payload.length < 2 ^ 16 := by omega
  set s := wordSum 256 1 (src.bytes ++ dest.bytes ++ [0, 17] ++ le16 (8 + payload.length) ++
    message [0, 0]) with hs
  have hm := add_complement_mod s
  have hc : udpChecksum src dest (message [0, 0]) =
      if complement s = 0 then 0xFFFF else complement s := by
    have hb := wordSum_le (src.bytes ++ dest.bytes ++ [0, 17] ++ le16 (8 + payload.length) ++
      message [0, 0])
    simp only [List.length_append, hn [0, 0] rfl, Ip.bytes, le16, List.length_cons,
      List.length_nil] at hb
    rw [udpChecksum, hn _ rfl, if_neg (by omega)]
    simp only [← hs]
    rw [Nat.mod_eq_of_lt (by rw [hs]; simp only [Ip.bytes, le16]; omega)]
  have hr : udpChecksum src dest (message [0, 0]) < 2 ^ 16 ∧
      udpChecksum src dest (message [0, 0]) % 65535 = complement s % 65535 := by
    have hk := complement_lt s
    rw [hc]
    split <;> omega
  have hz : s = _ := wordSum_datagram src dest srcPort destPort _ _ 0 0
  have hv : wordSum 256 1 (pseudoHeader src dest 17 (8 + payload.length) ++
      message (be16 (udpChecksum src dest (message [0, 0])))) = _ :=
    wordSum_datagram src dest srcPort destPort _ _ _ _
  rw [be16_word hx, be16_word hr.1] at hv
  rw [le16_word hx, show 256 * (0 : Byte).toNat + (0 : Byte).toNat = 0 from rfl, Nat.add_zero] at hz
  rw [buildUdpPacket, ← hu, built_place (by rw [hn _ rfl]; exact hp), Checked, hn _ rfl, Valid, hv,
    fold_eq_max (by omega)]
  exact swap_mod_iff hx hr.2 (by rwa [← hz])

/-- When the checksums of segments and datagrams are valid. -/
theorem transport_checksums_valid_iff (p : Tcp.Packet) (payload packet : List Byte) :
    (20 + payload.length ≤ packet.length → 20 + payload.length < 2 ^ 16 →
      let c := calculateChecksum src dest (tcpHeader srcPort destPort p [0, 0]) payload
      (Checked src dest 6 (built (buildTcpPacket packet src dest srcPort destPort p payload)) ↔
        c % 256 = c / 256)) ∧
    (8 + payload.length ≤ packet.length → 20 + payload.length ≤ 4096 →
      (Checked src dest 17 (built (buildUdpPacket packet srcPort destPort payload src dest)) ↔
        (8 + payload.length) % 256 = (8 + payload.length) / 256)) :=
  ⟨segment_checked_iff src dest srcPort destPort p, datagram_checked_iff src dest srcPort destPort⟩

theorem transport_checksums_valid_equal_bytes :
    Checked hostA hostB 6 (built (buildTcpPacket (List.replicate 200 0) hostA hostB 80 5000
      ⟨234, 0, Tcp.flagAck, 65535⟩ [])) ∧
    Checked hostA hostB 17 (built (buildUdpPacket (List.replicate 1500 0) 80 5000
      (List.replicate 249 0) hostA hostB)) :=
  have h := transport_checksums_valid_iff hostA hostB 80 5000 ⟨234, 0, Tcp.flagAck, 65535⟩
  ⟨((h [] (List.replicate 200 0)).1 (by rw [List.length_replicate]; decide) (by decide)).mpr
      (by decide +kernel),
    ((h (List.replicate 249 0) (List.replicate 1500 0)).2
      (by simp only [List.length_replicate]; decide) (by rw [List.length_replicate]; decide)).mpr
      (by rw [List.length_replicate])⟩

theorem transport_checksums_invalid :
    ¬Checked hostA hostB 6 (built (buildTcpPacket (List.replicate 200 0) hostA hostB 80 5000
      ⟨0, 0, Tcp.flagAck, 65535⟩ [])) ∧
    ¬Checked hostA hostB 17 (built (buildUdpPacket (List.replicate 1500 0) 80 5000 [] hostA
      hostB)) := by
  decide +kernel

end Udp

end Checksums

section Parse

variable (src dest : Ip) (protocol : Byte) {payload : List Byte}

def headerLength (data : List Byte) : ℕ := (data.getD 0 0 &&& 0x0F).toNat * 4

def totalLength (data : List Byte) : ℕ := (data.getD 2 0).toNat * 2 ^ 8 + (data.getD 3 0).toNat

/-- `parse_ipv4_packet`, which looks at two bytes of the header. -/
def parseIpv4Packet (data : List Byte) : Option (Byte × List Byte) :=
  if data.length < 20 then none
  else if data.length < headerLength data then none
  else some (data.getD 9 0, data.drop (headerLength data))

/-- A version 4 header with a correct checksum and a total length that fits. -/
structure WellFormed (data : List Byte) : Prop where
  version : data.getD 0 0 >>> 4 = 4
  header : 20 ≤ headerLength data
  checksum : Valid (data.take (headerLength data))
  start : headerLength data ≤ totalLength data
  total : totalLength data ≤ data.length

/-- The padding of a short packet. -/
def pad (data : List Byte) : List Byte := data ++ List.replicate (60 - data.length) 0

lemma parseIpv4Packet_build {n : ℕ} (h : 20 + payload.length ≤ 1500)
    (hn : n = 60 - (20 + payload.length)) :
    parseIpv4Packet (pad (built (buildIpv4Packet (List.replicate 1500 0) src dest protocol
      payload))) = some (protocol, payload ++ List.replicate n 0) := by
  have hl (c : ℕ) := ipv4Header_length src dest protocol (20 + payload.length) (f := le16 c) rfl
  rw [buildIpv4Packet, built_place (by rwa [List.length_append, hl, List.length_replicate]), pad,
    List.length_append, hl, ← hn]
  generalize complement _ = c
  simp [ipv4Header, be16, le16, Ip.bytes, parseIpv4Packet, headerLength]

/-- What is accepted is well formed, and the payload ends at the total length. -/
def ParsedExactly (data : List Byte) : Prop :=
  ∀ protocol payload, parseIpv4Packet data = some (protocol, payload) → WellFormed data ∧
    protocol = data.getD 9 0 ∧ payload = (data.take (totalLength data)).drop (headerLength data)

/-- Bytes are parsed as they should be if they are too short for their header, or a well-formed
packet without padding; a packet that was built comes back if it needs no padding. -/
theorem parseIpv4Packet_exact_iff (data : List Byte) (src dest : Ip) (protocol : Byte)
    (payload : List Byte) (hl : 20 + payload.length ≤ 1500) :
    (ParsedExactly data ↔ data.length < 20 ∨ data.length < headerLength data ∨
      (WellFormed data ∧ data.length = totalLength data)) ∧
    (parseIpv4Packet (pad (built (buildIpv4Packet (List.replicate 1500 0) src dest protocol
      payload))) = some (protocol, payload) ↔ 40 ≤ payload.length) := by
  constructor
  · unfold ParsedExactly parseIpv4Packet
    split_ifs with hshort hheader
    · simp [hshort]
    · simp [hheader]
    · constructor
      · intro h
        obtain ⟨hw, -, hp⟩ := h _ _ rfl
        have hlen := congrArg List.length hp
        have hstart := hw.start
        have htotal := hw.total
        rw [List.length_drop, List.length_drop, List.length_take, min_eq_left htotal] at hlen
        exact .inr (.inr ⟨hw, by omega⟩)
      · rintro (hbad | hbad | ⟨hw, he⟩) protocol payload heq
        · exact absurd hbad hshort
        · exact absurd hbad hheader
        · obtain ⟨rfl, rfl⟩ := Prod.mk.inj (Option.some.inj heq)
          exact ⟨hw, rfl, by rw [← he, List.take_length]⟩
  · rw [parseIpv4Packet_build src dest protocol hl rfl, Option.some.injEq, Prod.mk.injEq,
      List.append_right_eq_self]
    simp only [List.replicate_eq_nil_iff, true_and]
    omega

def fullPacket : List Byte :=
  built (buildIpv4Packet (List.replicate 1500 0) hostA hostB 17 (List.replicate 40 1))

theorem parseIpv4Packet_exact_iff_full : ParsedExactly fullPacket ∧
    parseIpv4Packet (pad fullPacket) = some (17, List.replicate 40 1) := by
  have h := parseIpv4Packet_exact_iff fullPacket hostA hostB 17 (List.replicate 40 1)
    (by rw [List.length_replicate]; decide)
  exact ⟨h.1.2 (.inr (.inr ⟨⟨by decide +kernel, by decide +kernel, by decide +kernel,
    by decide +kernel, by decide +kernel⟩, by decide +kernel⟩)),
    h.2.2 (by rw [List.length_replicate])⟩

/-- Twenty zeros are taken for a packet without a header, and padding for payload. -/
theorem parseIpv4Packet_lax :
    (parseIpv4Packet (List.replicate 20 0) = some (0, List.replicate 20 0) ∧
      ¬WellFormed (List.replicate 20 0)) ∧
    parseIpv4Packet (pad (built (buildIpv4Packet (List.replicate 1500 0) hostA hostB 17 [1]))) =
      some (17, 1 :: List.replicate 39 0) :=
  ⟨⟨rfl, fun h => absurd h.version (by decide)⟩,
    parseIpv4Packet_build hostA hostB 17 (by decide) rfl⟩

end Parse

end Elitra.Packet
