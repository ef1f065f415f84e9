import Elitra.TcpCalls

namespace Elitra.Tcp

section Window

inductive WindowEvent where
  | segment (s : Segment)
  | send (data : List Byte)

/-- A connection and the window that the peer advertised last. -/
structure Flow where
  conn : TcpConnection
  advertised : ℕ

def Flow.step (v : Flow) : WindowEvent → Flow
  | .segment s => ⟨(processSegment v.conn s).1, s.windowSize⟩
  | .send data => ⟨(sendData v.conn data).1, v.advertised⟩

/-- A connection that was just opened. A passive open got a first window with the SYN. -/
inductive Flow.Opened : Flow → Prop where
  | active {isn : ℕ} (h : isn < 2 ^ 32) : Flow.Opened ⟨(activeOpen isn).1, 0⟩
  | passive (isn seqNum window : ℕ) : Flow.Opened ⟨(passiveOpen isn seqNum).1, window⟩

/-- The numbers of a segment fit their fields. -/
structure Segment.InRange (s : Segment) : Prop where
  ackNum : s.ackNum < 2 ^ 32
  windowSize : s.windowSize < 2 ^ 16

/-- What the peer has to keep to for the window to hold: an ACK acknowledges something between the
oldest byte in flight and the last one sent, and the window that the connection kept is not larger
than the one advertised last when it sends. -/
def Flow.Admits (v : Flow) : WindowEvent → Prop
  | .segment s => v.conn.state = .established ∨ v.conn.state = .finWait1 →
      has s.flags flagAck = true → wrappingSub s.ackNum v.conn.sendUnack ≤ bytesInFlight v.conn
  | .send _ => v.conn.state = .established → v.conn.sendWindow ≤ v.advertised

def WindowEvent.InRange : WindowEvent → Prop
  | .segment s => s.InRange
  | .send _ => True

def Orderly : Flow → List WindowEvent → Prop
  | _, [] => True
  | v, e :: events => e.InRange ∧ v.Admits e ∧ Orderly (v.step e) events

def WindowEvent.Sends (v : Flow) : WindowEvent → Prop
  | .segment _ => False
  | .send data => (sendData v.conn data).2.isSome

/-- The counters of the bytes acknowledged and sent since the start, without wrap-around. -/
structure Counts (base una nxt : ℕ) (c : TcpConnection) : Prop where
  sendUnack : c.sendUnack = (base + una) % 2 ^ 32
  sendSeq : c.sendSeq = (base + nxt) % 2 ^ 32
  le : una ≤ nxt

/-- Along the run `una` only grows, stays at or below `nxt`, which grows by what is sent, and after
a send no more than the advertised window lies between them. -/
def Slides (base : ℕ) : ℕ → ℕ → Flow → List WindowEvent → Prop
  | una, nxt, v, [] => Counts base una nxt v.conn
  | una, nxt, v, e :: events =>
    let nxt' := nxt + wrappingSub (v.step e).conn.sendSeq v.conn.sendSeq
    Counts base una nxt v.conn ∧ ∃ una', una ≤ una' ∧
      (e.Sends v → nxt' - una' ≤ v.advertised) ∧ Slides base una' nxt' (v.step e) events

/-- The states before the first FIN. -/
def BeforeFin (state : TcpState) : Prop :=
  state = .synSent ∨ state = .synReceived ∨ state = .established

lemma send_processAck (c : TcpConnection) (s : Segment) :
    (processAck c s).sendSeq = c.sendSeq ∧
      ((processAck c s).sendUnack = c.sendUnack ∨
        has s.flags flagAck = true ∧ (processAck c s).sendUnack = s.ackNum) ∧
      ((processAck c s).sendWindow = c.sendWindow ∨
        (processAck c s).sendWindow = s.windowSize) := by
  unfold processAck
  split
  · rename_i hack
    refine ⟨rfl, .inr ⟨hack, rfl⟩, ?_⟩
    dsimp only
    split
    · exact .inr rfl
    · exact .inl rfl
  · exact ⟨rfl, .inl rfl, .inl rfl⟩

lemma send_processData (c : TcpConnection) (s : Segment) :
    (processData c s).1.sendSeq = c.sendSeq ∧ (processData c s).1.sendUnack = c.sendUnack ∧
      (processData c s).1.sendWindow = c.sendWindow := by
  unfold processData
  split <;> exact ⟨rfl, rfl, rfl⟩

lemma processSegment_send (c : TcpConnection) (s : Segment) :
    (BeforeFin (processSegment c s).1.state → BeforeFin c.state) ∧
      ((processSegment c s).1.sendWindow = c.sendWindow ∨
        (processSegment c s).1.sendWindow = s.windowSize) ∧
      ((processSegment c s).1.sendSeq = c.sendSeq ∧
          ((processSegment c s).1.sendUnack = c.sendUnack ∨
            (c.state = .established ∨ c.state = .finWait1) ∧ has s.flags flagAck = true ∧
              (processSegment c s).1.sendUnack = s.ackNum) ∨
        c.state = .closeWait ∧ (processSegment c s).1.state = .lastAck ∧
          (processSegment c s).1.sendSeq = wrappingAdd c.sendSeq 1 ∧
          (processSegment c s).1.sendUnack = c.sendUnack) := by
  -- Only `Established` and `FinWait1` read the acknowledgement; only `CloseWait` sends something
  -- that takes a number, its FIN.
  cases hs : c.state with
  | established =>
    obtain ⟨hseq, hu, hw⟩ := send_processAck c s
    obtain ⟨hseq', hu', hw'⟩ := send_processData (processAck c s) s
    rw [hseq] at hseq'
    have hn : (processSegment c s).1.sendSeq = c.sendSeq ∧
        (processSegment c s).1.sendUnack = (processAck c s).sendUnack ∧
        (processSegment c s).1.sendWindow = (processAck c s).sendWindow := by
      simp only [processSegment, hs]
      split <;> exact ⟨hseq', hu', hw'⟩
    refine ⟨fun _ => .inr (.inr rfl), ?_, .inl ⟨hn.1, ?_⟩⟩
    · rwa [hn.2.2]
    rw [hn.2.1]
    exact hu.imp_right fun hack => ⟨.inl rfl, hack⟩
  | finWait1 =>
    simp only [processSegment, hs]
    repeat' split
    all_goals simp_all [BeforeFin]
  | _ =>
    simp only [processSegment, hs]
    repeat' split
    all_goals simp [BeforeFin, hs]

lemma sendData_cases (c : TcpConnection) (data : List Byte) :
    sendData c data = (c, none) ∨
      c.state = .established ∧ ∃ n p, n + bytesInFlight c ≤ c.sendWindow ∧
        sendData c data = ({ c with sendSeq := wrappingAdd c.sendSeq n }, some p) := by
  unfold sendData
  dsimp only
  split
  · exact .inl rfl
  rename_i hs
  split
  · exact .inl rfl
  rename_i ha
  split
  · exact .inl rfl
  refine .inr ⟨not_not.mp hs, _, _, ?_, rfl⟩
  rw [List.length_take]
  omega

/-- What the counters and the state keep to along the run. -/
structure Flow.Inv (base una nxt : ℕ) (v : Flow) : Prop where
  counts : Counts base una nxt v.conn
  window : v.conn.sendWindow < 2 ^ 16
  inFlight : BeforeFin v.conn.state → nxt - una < 2 ^ 32

section Counts

variable {base una nxt : ℕ} {c c' : TcpConnection}

section

variable (h : Counts base una nxt c)
include h

lemma Counts.bytesInFlight : bytesInFlight c = (nxt - una) % 2 ^ 32 := by
  have hle := h.le
  rw [Tcp.bytesInFlight, wrappingSub, h.sendUnack, h.sendSeq]
  omega

lemma Counts.wrappingSub_self (hseq : c'.sendSeq = c.sendSeq) :
    wrappingSub c'.sendSeq c.sendSeq = 0 := by
  have hlt : c.sendSeq < 2 ^ 32 := h.sendSeq ▸ Nat.mod_lt _ (by decide)
  rw [hseq, wrappingSub]
  omega

lemma Counts.advance {n : ℕ} (hn : n < 2 ^ 32)
    (hseq : c'.sendSeq = wrappingAdd c.sendSeq n) (hu : c'.sendUnack = c.sendUnack) :
    wrappingSub c'.sendSeq c.sendSeq = n ∧ Counts base una (nxt + n) c' := by
  have hlt : c.sendSeq < 2 ^ 32 := h.sendSeq ▸ Nat.mod_lt _ (by decide)
  refine ⟨?_, hu.trans h.sendUnack, ?_, Nat.le_add_right_of_le h.le⟩
  · rw [hseq, wrappingSub, wrappingAdd]
    omega
  rw [hseq, wrappingAdd, h.sendSeq]
  omega

lemma Counts.acknowledge {ackNum : ℕ} (hlt : ackNum < 2 ^ 32)
    (hle : wrappingSub ackNum c.sendUnack ≤ Tcp.bytesInFlight c) (hseq : c'.sendSeq = c.sendSeq)
    (hu : c'.sendUnack = ackNum) :
    Counts base (una + wrappingSub ackNum c.sendUnack) nxt c' := by
  rw [h.bytesInFlight] at hle
  have hmod := Nat.mod_le (nxt - una) (2 ^ 32)
  have hc := h.le
  refine ⟨?_, hseq.trans h.sendSeq, by omega⟩
  rw [hu, wrappingSub, h.sendUnack]
  omega

end

end Counts

section Step

variable {base una nxt : ℕ} {v : Flow}

lemma Flow.Inv.segment (h : v.Inv base una nxt) {s : Segment} (hr : s.InRange)
    (ha : v.Admits (.segment s)) :
    ∃ una', una ≤ una' ∧ Flow.Inv base una'
      (nxt + wrappingSub (v.step (.segment s)).conn.sendSeq v.conn.sendSeq)
      (v.step (.segment s)) := by
  obtain ⟨hb, hw, hse⟩ := processSegment_send v.conn s
  have hc : (v.step (.segment s)).conn = (processSegment v.conn s).1 := rfl
  have hw' : (v.step (.segment s)).conn.sendWindow < 2 ^ 16 := by
    obtain hw | hw := hw <;> rw [hc, hw]
    · exact h.window
    · exact hr.windowSize
  have hf : BeforeFin (v.step (.segment s)).conn.state → nxt - una < 2 ^ 32 := fun hs =>
    h.inFlight (hb hs)
  obtain ⟨hseq, hu | ⟨hs, hfl, hu⟩⟩ | ⟨-, hl, hseq, hu⟩ := hse
  · refine ⟨una, le_rfl, ?_⟩
    rw [hc, h.counts.wrappingSub_self hseq]
    exact ⟨⟨hu.trans h.counts.sendUnack, hseq.trans h.counts.sendSeq, h.counts.le⟩, hw', hf⟩
  · -- `process_ack` takes any number; that this one lies in the window is the peer's doing.
    refine ⟨una + wrappingSub s.ackNum v.conn.sendUnack, Nat.le_add_right .., ?_⟩
    rw [hc, h.counts.wrappingSub_self hseq]
    refine ⟨h.counts.acknowledge hr.ackNum (ha hs hfl) hseq hu, hw', ?_⟩
    intro hb
    have := hf hb
    omega
  obtain ⟨hone, hco⟩ := h.counts.advance (n := 1) (by decide) hseq hu
  refine ⟨una, le_rfl, ?_⟩
  rw [hc, hone]
  refine ⟨hco, hw', ?_⟩
  -- The FIN has been answered with one of our own.
  intro hb
  simp [Flow.step, BeforeFin, hl] at hb

lemma Flow.Inv.send (h : v.Inv base una nxt) (data : List Byte) :
    Flow.Inv base una (nxt + wrappingSub (v.step (.send data)).conn.sendSeq v.conn.sendSeq)
        (v.step (.send data)) ∧
      ((sendData v.conn data).2.isSome →
        nxt + wrappingSub (v.step (.send data)).conn.sendSeq v.conn.sendSeq - una ≤
          v.conn.sendWindow) := by
  obtain hno | ⟨hst, n, p, hfi, hso⟩ := sendData_cases v.conn data
  · have hs : v.step (.send data) = v := by simp only [Flow.step, hno]
    rw [hs, h.counts.wrappingSub_self rfl, hno]
    exact ⟨h, nofun⟩
  -- The wrapped difference is the true one as long as less than 2^32 bytes are in flight.
  have hf : bytesInFlight v.conn = nxt - una := by
    rw [h.counts.bytesInFlight, Nat.mod_eq_of_lt (h.inFlight (.inr (.inr hst)))]
  have hw := h.window
  have hle := h.counts.le
  have hs : v.step (.send data) =
      ⟨{ v.conn with sendSeq := wrappingAdd v.conn.sendSeq n }, v.advertised⟩ := by
    simp only [Flow.step, hso]
  have hseq : (v.step (.send data)).conn.sendSeq = wrappingAdd v.conn.sendSeq n := by rw [hs]
  have hu : (v.step (.send data)).conn.sendUnack = v.conn.sendUnack := by rw [hs]
  obtain ⟨hn, hc⟩ := h.counts.advance (by omega) hseq hu
  rw [hn]
  rw [hs] at hc ⊢
  refine ⟨⟨hc, hw, fun _ => ?_⟩, fun _ => ?_⟩ <;> omega

lemma Flow.Inv.slides {events : List WindowEvent} (h : v.Inv base una nxt)
    (ho : Orderly v events) : Slides base una nxt v events := by
  induction events generalizing una nxt v with
  | nil => exact h.counts
  | cons e events ih =>
    obtain ⟨hra, ha, hr⟩ := ho
    refine ⟨h.counts, ?_⟩
    cases e with
    | segment s =>
      obtain ⟨una', hle, hinv⟩ := h.segment hra ha
      exact ⟨una', hle, nofun, ih hinv hr⟩
    | send data =>
      obtain ⟨hinv, hw⟩ := h.send data
      refine ⟨una, le_rfl, fun hse => ?_, ih hinv hr⟩
      have hs : v.conn.state = .established := by
        obtain hn | ⟨hs, -⟩ := sendData_cases v.conn data
        · simp [WindowEvent.Sends, hn] at hse
        · exact hs
      exact (hw hse).trans (ha hs)

lemma Flow.Opened.inv (h : v.Opened) :
    v.Inv v.conn.sendUnack 0 (bytesInFlight v.conn) := by
  cases h with
  | active hisn =>
    refine ⟨⟨?_, ?_, Nat.zero_le _⟩, ?_, fun _ => ?_⟩ <;>
      simp only [activeOpen_eq, Tcp.bytesInFlight, wrappingSub, wrappingAdd, defaultWindow] <;>
      omega
  | passive isn seqNum window =>
    refine ⟨⟨?_, ?_, Nat.zero_le _⟩, ?_, fun _ => ?_⟩ <;>
      simp only [passiveOpen_eq, Tcp.bytesInFlight, wrappingSub, wrappingAdd, defaultWindow] <;>
      omega

end Step

/-- With a peer that acknowledges in order and announces what it expects to be kept, `send_unack`
and `send_seq` follow two counters that only grow, the first never ahead of the second and after a
send never further behind it than the advertised window. -/
theorem opened_slides {v : Flow} {events : List WindowEvent} (hopened : v.Opened)
    (horderly : Orderly v events) : Slides v.conn.sendUnack 0 (bytesInFlight v.conn) v events :=
  hopened.inv.slides horderly

/-- The handshake, a byte, its acknowledgement and one more byte. -/
def exchange : List WindowEvent :=
  [.segment ⟨flagSyn ||| flagAck, 100, 1, 4096, []⟩, .segment ⟨flagAck, 101, 1, 4096, []⟩,
    .send [0x61], .segment ⟨flagAck, 101, 2, 4096, []⟩, .send [0x62]]

theorem opened_slides_exchange :
    Orderly ⟨(activeOpen 0).1, 0⟩ exchange ∧ Slides 0 0 1 ⟨(activeOpen 0).1, 0⟩ exchange := by
  have ho : Orderly ⟨(activeOpen 0).1, 0⟩ exchange := by
    refine ⟨⟨by decide, by decide⟩, by simp [Flow.Admits, activeOpen_eq], ⟨by decide, by decide⟩,
      fun _ _ => by decide, trivial, fun _ => by decide, ⟨by decide, by decide⟩, fun _ _ => by decide,
      trivial, fun _ => by decide, trivial⟩
  exact ⟨ho, opened_slides (.active (by decide)) ho⟩

/-- The acknowledgement of the handshake comes once more after that of a byte. -/
def repeated : List WindowEvent :=
  [.segment ⟨flagSyn ||| flagAck, 100, 1, 4096, []⟩, .segment ⟨flagAck, 101, 1, 4096, []⟩,
    .send [0x61], .segment ⟨flagAck, 101, 2, 4096, []⟩, .segment ⟨flagAck, 101, 1, 4096, []⟩]

/-- An acknowledgement of bytes that were never sent. -/
def forged : List WindowEvent :=
  [.segment ⟨flagSyn ||| flagAck, 100, 1, 4096, []⟩, .segment ⟨flagAck, 101, 5000, 4096, []⟩]

/-- The peer closes its window before the byte is sent. -/
def closedWindow : List WindowEvent :=
  [.segment ⟨flagSyn ||| flagAck, 100, 1, 4096, []⟩, .segment ⟨flagAck, 101, 1, 0, []⟩,
    .send [0x61]]

lemma Counts.eq_sendUnack {una nxt : ℕ} {c : TcpConnection} (h : Counts 0 una nxt c)
    (hlt : nxt < 2 ^ 32) : una = c.sendUnack := by
  have hle := h.le
  rw [h.sendUnack]
  omega

theorem acks_and_windows_not_checked :
    ¬ Slides 0 0 1 ⟨(activeOpen 0).1, 0⟩ repeated ∧ ¬ Slides 0 0 1 ⟨(activeOpen 0).1, 0⟩ forged ∧
      ¬ Slides 0 0 1 ⟨(activeOpen 0).1, 0⟩ closedWindow := by
  refine ⟨?_, ?_, ?_⟩
  · rintro ⟨-, -, -, -, -, -, -, -, -, -, -, -, -, a, -, -, hc, b, hle, -, hc'⟩
    have ha : a = 2 := (hc.eq_sendUnack (by decide)).trans (by decide)
    have hb : b = 1 := (Counts.eq_sendUnack hc' (by decide)).trans (by decide)
    omega
  · rintro ⟨-, -, -, -, -, a, -, -, hc⟩
    have ha : a = 5000 := (Counts.eq_sendUnack hc (by decide)).trans (by decide)
    have hle : a ≤ 1 := Counts.le hc
    omega
  rintro ⟨-, -, -, -, -, -, -, -, -, a, -, hs, hc⟩
  have ha : a = 1 := (Counts.eq_sendUnack hc (by decide)).trans (by decide)
  have hfit := hs (by unfold WindowEvent.Sends; decide)
  rw [ha] at hfit
  exact absurd hfit (by decide)

end Window

end Elitra.Tcp
