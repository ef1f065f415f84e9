import Elitra.Packets

namespace Elitra.Packet
open List

structure Mac where
  (a b c d e f : Byte)
  deriving DecidableEq

def Mac.bytes (m : Mac) : List Byte := [m.a, m.b, m.c, m.d, m.e, m.f]

def buildArp (op : Byte) (packet : List Byte) (mac : Mac) (ip : Ip) (tmac : Mac) (tip : Ip) :
    List Byte :=
  [0, 1, 8, 0, 6, 4, 0, op] ++ mac.bytes ++ ip.bytes ++ tmac.bytes ++ tip.bytes ++ packet.drop 28

def buildArpRequest (packet : List Byte) (mac : Mac) (ip : Ip) : Ip → List Byte :=
  buildArp 1 packet mac ip ⟨0, 0, 0, 0, 0, 0⟩
def buildArpReply : List Byte → Mac → Ip → Mac → Ip → List Byte := buildArp 2

def parseEthernetFrame (data : List Byte) : Option (ℕ × List Byte) :=
  if data.length < 14 then none
  else some ((data.getD 12 0).toNat * 2 ^ 8 + (data.getD 13 0).toNat, data.drop 14)

def parseArpPacket (data : List Byte) : Option (ℕ × Mac × Ip) :=
  if data.length < 28 then none
  else
    let x i := data.getD i 0
    some ((x 6).toNat * 2 ^ 8 + (x 7).toNat, ⟨x 8, x 9, x 10, x 11, x 12, x 13⟩,
      ⟨x 14, x 15, x 16, x 17⟩)

def arpOf (data : List Byte) : Option (ℕ × Mac × Ip) :=
  (parseEthernetFrame data).bind fun (type, payload) =>
    if type = 0x0806 then parseArpPacket payload else none

/-- What `process_packet` sends for an ARP message. -/
def arpAnswer (mac : Mac) (ip : Ip) (data : List Byte) : Option (List Byte) :=
  (arpOf data).bind fun (op, m, i) =>
    if op = 1 then some (buildArpReply (replicate 42 0) mac ip m i) else none

lemma arpOf_buildArp (op : Byte) (mac tmac : Mac) (ip tip : Ip) :
    arpOf (buildArp op (replicate 42 0) mac ip tmac tip) =
      if mac.e.toNat * 2 ^ 8 + mac.f.toNat = 0x0806 then
        some (tmac.c.toNat * 2 ^ 8 + tmac.d.toNat, ⟨tmac.e, tmac.f, tip.a, tip.b, tip.c, tip.d⟩,
          ⟨0, 0, 0, 0⟩)
      else none :=
  rfl

lemma word_eq_iff (x y a b : Byte) :
    x.toNat * 2 ^ 8 + y.toNat = a.toNat * 2 ^ 8 + b.toNat ↔ x = a ∧ y = b := by
  rw [← BitVec.toNat_inj, ← BitVec.toNat_inj]
  omega

/-- No host answers a request, and a reply is understood by chance only. -/
theorem arp_understood_iff (mac tmac : Mac) (ip tip : Ip) :
    arpAnswer tmac tip (buildArpRequest (replicate 42 0) mac ip tip) = none ∧
    (arpOf (buildArpReply (replicate 42 0) mac ip tmac tip) = some (2, mac, ip) ↔
      (mac.e = 8 ∧ mac.f = 6) ∧ (tmac.c = 0 ∧ tmac.d = 2) ∧
        ⟨tmac.e, tmac.f, tip.a, tip.b, tip.c, tip.d⟩ = mac ∧ ⟨0, 0, 0, 0⟩ = ip) := by
  constructor
  · rw [arpAnswer, buildArpRequest, arpOf_buildArp]
    split
    · simp
    · rfl
  have he : _ = 0x0806 ↔ _ := word_eq_iff mac.e mac.f 8 6
  have hc : _ = 2 ↔ _ := word_eq_iff tmac.c tmac.d 0 2
  rw [buildArpReply, arpOf_buildArp]
  simp only [Option.ite_none_right_eq_some, he, Option.some.injEq, Prod.mk.injEq, hc]

theorem arp_misunderstood :
    let mac : Mac := ⟨2, 0, 0, 0, 0, 1⟩
    arpOf (buildArpRequest (replicate 42 0) mac hostA hostB) = none ∧
      arpOf (buildArpReply (replicate 42 0) mac hostA mac hostB) = none ∧
      (arpAnswer mac hostB (replicate 12 0 ++ [8, 6] ++
        buildArpRequest [] mac hostA hostA)).isSome = true := by
  decide

end Elitra.Packet
