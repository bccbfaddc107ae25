import RexOs.Net.TcpSocket

/-! The bounds of a socket.

`snd_una` and `seq` are seen modulo `2 ^ 32`. As long as fewer than `2 ^ 32` numbers are
in flight, `tx_buf` holds no more bytes than that, and an acknowledgement moves `snd_una`
to a number of `(snd_una, seq]` or not at all.
-/

set_option autoImplicit false

namespace RexOs.Net

open RexOs.Library

/-- The numbers in flight after a step: those from the new `snd_una` on, and those that the
step adds to `seq`. -/
def inFlightAfter (s : Socket) (op : SocketOp) : Nat :=
  (s.seq - (op.apply s).1.sndUna).toNat + ((op.apply s).1.seq - s.seq).toNat

structure Bounds (s : Socket) : Prop where
  rx : s.rxBuf.length ≤ tcpRxBufSize
  tx : s.txBuf.length ≤ tcpTxBufSize
  flight : s.txBuf.length ≤ (s.seq - s.sndUna).toNat
  mss : s.peerMss = 0 ∨ 64 ≤ s.peerMss.toNat ∧ s.peerMss.toNat ≤ tcpOurMss

section
variable {s : Socket}

theorem parseOptionsLoop_bounds (fuel : Nat) (peerMss : UInt16) (opt : List UInt8) :
    parseOptionsLoop peerMss fuel opt = peerMss ∨
      64 ≤ (parseOptionsLoop peerMss fuel opt).toNat ∧ (parseOptionsLoop peerMss fuel opt).toNat ≤ tcpOurMss := by
  induction fuel generalizing peerMss opt with
  | zero => exact Or.inl rfl
  | succ fuel ih =>
    cases opt with
    | nil => exact Or.inl rfl
    | cons kind rest =>
      simp only [parseOptionsLoop]
      split
      · exact Or.inl rfl
      split
      · exact ih peerMss rest
      split
      · exact Or.inl rfl
      split
      · exact Or.inl rfl
      rename_i olen body _
      split
      · -- the option sets `peer_mss`, which later options keep or set again
        rcases ih _ (body.drop (olen.toNat - 2)) with same | inside
        · refine Or.inr ?_
          rw [same]
          split
          · rename_i range
            have small : (body.getD 0 0).toNat * 256 + (body.getD 1 0).toNat < 2 ^ 16 :=
              Nat.lt_of_le_of_lt range.2 (by decide)
            rw [UInt16.toNat_ofNat_of_lt' small]
            exact range
          · decide
        · exact Or.inr inside
      · exact ih peerMss _

theorem synAckMss_bounds (s : Socket) (tcp : TcpHeader) (ok : Bounds s) :
    64 ≤ (synAckMss s tcp).toNat ∧ (synAckMss s tcp).toNat ≤ tcpOurMss := by
  unfold synAckMss
  split
  · decide
  · rename_i some
    simp only [tcpParseOptions] at some ⊢
    rcases parseOptionsLoop_bounds _ s.peerMss _ with same | inside
    · rw [same] at some ⊢
      exact ok.mss.resolve_left some
    · exact inside

def Acks (s : Socket) (number : UInt32) (s' : Socket) : Prop :=
  s'.txBuf = s.txBuf ∧ s'.sndUna = s.sndUna ∨
    InFlight s number ∧ s'.txBuf = s.txBuf.drop (number - s.sndUna).toNat ∧ s'.sndUna = number

theorem Acks.refl (s : Socket) (number : UInt32) : Acks s number s := Or.inl ⟨rfl, rfl⟩

theorem Acks.handleAck (s : Socket) (number : UInt32) (now : Nat) : Acks s number (tcpHandleAck s number now) := by
  rcases tcpHandleAck_cases s number now with ⟨_, same⟩ | ⟨inside, same⟩
  · rw [same]
    exact Acks.refl s number
  · rw [same]
    exact Or.inr ⟨inside, rfl, rfl⟩

theorem receiveSocket_acks (s : Socket) (tcp : TcpHeader) (now : Nat) :
    Acks s tcp.ack (receiveSocket s tcp now).1 := by
  have kept := Acks.refl s tcp.ack
  have acked := Acks.handleAck s tcp.ack now
  unfold receiveSocket
  simp only [synAckMss_eq]
  split
  · exact kept
  split
  · split
    · exact Acks.handleAck { s with peerMss := synAckMss s tcp } tcp.ack now
    · exact kept
  · obtain ⟨s', from_, rx, ack, shape⟩ := receiveEstablished_fields s tcp.flags tcp.seq tcp.ack tcp.data now
    have side : Acks s tcp.ack s' := by rcases from_ with rfl | rfl <;> assumption
    rcases shape with same | ⟨seq, same⟩ <;> rw [same] <;> exact side
  · split <;> exact kept
  · -- in `FIN_WAIT_1` the acknowledgement is taken before the FIN
    have first : Acks s tcp.ack (if tcp.flags &&& tcpAck ≠ 0 then
        if tcp.ack = (tcpHandleAck s tcp.ack now).seq then
          { tcpHandleAck s tcp.ack now with state := .finWait2 }
        else tcpHandleAck s tcp.ack now
      else s) := by
      split
      · split <;> exact acked
      · exact kept
    split
    · exact first
    · exact first
  · split <;> exact kept
  · exact kept

def known (s : Socket) (remoteSeq : UInt32) : Nat := (s.ack - remoteSeq).toNat

/-- The segment starts at or before `ack` and goes beyond it. -/
def Brings (s : Socket) (remoteSeq : UInt32) (data : List UInt8) : Prop :=
  known s remoteSeq < 2 ^ 31 ∧ known s remoteSeq < data.length

def taken (s : Socket) (new : List UInt8) : Socket :=
  { s with rxBuf := s.rxBuf ++ new, ack := s.ack + UInt32.ofNat new.length }

theorem takeData_cases (remoteSeq : UInt32) {data : List UInt8} (small : data.length < 2 ^ 16)
    (room : s.rxBuf.length ≤ tcpRxBufSize) :
    (Brings s remoteSeq data ∧
      (s.rxBuf.length + (data.length - known s remoteSeq) ≤ tcpRxBufSize ∧
        takeData s remoteSeq data = ⟨taken s (data.drop (known s remoteSeq)), s.ack,
          data.drop (known s remoteSeq), true, []⟩ ∨
      tcpRxBufSize < s.rxBuf.length + (data.length - known s remoteSeq) ∧
        takeData s remoteSeq data = ⟨s, s.ack, data.drop (known s remoteSeq), false, tcpSendSegment s tcpAck []⟩)) ∨
    ¬ Brings s remoteSeq data ∧ ∃ sent, (sent = [] ∨ sent = tcpSendSegment s tcpAck []) ∧
      takeData s remoteSeq data = ⟨s, remoteSeq, data, false, sent⟩ := by
  have size : (UInt32.ofNat data.length).toNat = data.length := UInt32.toNat_ofNat_of_lt' (by simp only [UInt32.size]; omega)
  unfold takeData
  simp only
  by_cases empty : data.length = 0
  · rw [if_pos empty]
    exact Or.inr ⟨fun brings => by have := brings.2; omega, [], Or.inl rfl, rfl⟩
  rw [if_neg empty]
  by_cases new : s.ack - remoteSeq < 0x80000000 ∧ s.ack - remoteSeq < UInt32.ofNat data.length
  · rw [if_pos new]
    have brings : Brings s remoteSeq data := by
      simp only [UInt32.lt_iff_toNat_lt, size] at new
      exact new
    have start : remoteSeq + (s.ack - remoteSeq) = s.ack := distance_add _ _
    have tail : (data.drop (s.ack - remoteSeq).toNat).length = data.length - known s remoteSeq := List.length_drop
    have sum : (UInt32.ofNat s.rxBuf.length + UInt32.ofNat (data.drop (s.ack - remoteSeq).toNat).length).toNat =
        s.rxBuf.length + (data.length - known s remoteSeq) := by
      simp only [tcpRxBufSize] at room
      rw [tail, UInt32.toNat_add, UInt32.toNat_ofNat', UInt32.toNat_ofNat']
      omega
    have whole : (UInt32.ofNat tcpRxBufSize).toNat = tcpRxBufSize := by decide
    refine Or.inl ⟨brings, ?_⟩
    simp only [start, UInt32.le_iff_toNat_le, sum, whole]
    by_cases fits : s.rxBuf.length + (data.length - known s remoteSeq) ≤ tcpRxBufSize
    · exact Or.inl ⟨fits, by rw [if_pos fits]; rfl⟩
    · exact Or.inr ⟨by omega, by rw [if_neg fits]; rfl⟩
  · rw [if_neg new]
    refine Or.inr ⟨fun brings => new ?_, _, Or.inr rfl, rfl⟩
    simp only [UInt32.lt_iff_toNat_lt, size]
    exact brings

theorem takeData_rx {remoteSeq : UInt32} {data : List UInt8} (small : data.length < 2 ^ 16)
    (room : s.rxBuf.length ≤ tcpRxBufSize) : (takeData s remoteSeq data).socket.rxBuf.length ≤ tcpRxBufSize := by
  rcases takeData_cases remoteSeq small room with ⟨_, ⟨fits, same⟩ | ⟨_, same⟩⟩ | ⟨_, _, _, same⟩
  · rw [same]
    simp only [taken, List.length_append, List.length_drop]
    exact fits
  · rw [same]
    exact room
  · rw [same]
    exact room

def heard (s : Socket) (flags : UInt8) (remoteAck : UInt32) (now : Nat) : Socket :=
  if flags &&& tcpAck ≠ 0 then tcpHandleAck s remoteAck now else s

def finish (flags : UInt8) (cut : Cut) : Socket × List Sent :=
  let s := cut.socket
  if flags &&& tcpFin ≠ 0 then
    if cut.remoteSeq + UInt32.ofNat cut.data.length = s.ack then
      let s := { s with ack := s.ack + 1 }
      let acked := tcpSendSegment s tcpAck []
      let fin := tcpSendSegment { s with state := .closeWait } (tcpFin ||| tcpAck) []
      ({ s with seq := s.seq + 1, state := .lastAck }, cut.sent ++ acked ++ fin)
    else (s, cut.sent)
  else if cut.consumed then (s, cut.sent ++ tcpSendSegment s tcpAck [])
  else (s, cut.sent)

theorem receiveEstablished_eq (s : Socket) (flags : UInt8) (remoteSeq remoteAck : UInt32) (data : List UInt8)
    (now : Nat) : receiveEstablished s flags remoteSeq remoteAck data now =
      finish flags (takeData (heard s flags remoteAck now) remoteSeq data) := rfl

theorem heard_fields (s : Socket) (flags : UInt8) (remoteAck : UInt32) (now : Nat) :
    (heard s flags remoteAck now).state = s.state ∧ (heard s flags remoteAck now).id = s.id ∧
    (heard s flags remoteAck now).rxBuf = s.rxBuf ∧ (heard s flags remoteAck now).ack = s.ack := by
  unfold heard
  split
  · exact tcpHandleAck_fields s remoteAck now
  · exact ⟨rfl, rfl, rfl, rfl⟩

theorem finish_rx (flags : UInt8) (cut : Cut) : (finish flags cut).1.rxBuf = cut.socket.rxBuf := by
  unfold finish
  simp only
  split
  · split <;> rfl
  · split <;> rfl

theorem receiveEstablished_rx {flags : UInt8} {remoteSeq remoteAck : UInt32} {data : List UInt8} {now : Nat}
    (small : data.length < 2 ^ 16) (room : s.rxBuf.length ≤ tcpRxBufSize) :
    (receiveEstablished s flags remoteSeq remoteAck data now).1.rxBuf.length ≤ tcpRxBufSize := by
  have same := (heard_fields s flags remoteAck now).2.2.1
  rw [receiveEstablished_eq, finish_rx]
  exact takeData_rx small (by rw [same]; exact room)

theorem tcpHandleAck_mss (s : Socket) (remoteAck : UInt32) (now : Nat) :
    (tcpHandleAck s remoteAck now).peerMss = s.peerMss := by
  rcases tcpHandleAck_cases s remoteAck now with ⟨_, same⟩ | ⟨_, same⟩ <;> rw [same]
  rfl

theorem receiveSocket_rx {tcp : TcpHeader} (now : Nat) (room : s.rxBuf.length ≤ tcpRxBufSize)
    (small : tcpHeaderSize + tcp.optionsAndPayload.length < 2 ^ 16) :
    (receiveSocket s tcp now).1.rxBuf.length ≤ tcpRxBufSize := by
  have acked : (tcpHandleAck s tcp.ack now).rxBuf.length ≤ tcpRxBufSize := by
    rw [(tcpHandleAck_fields s tcp.ack now).2.2.1]
    exact room
  unfold receiveSocket
  simp only [synAckMss_eq]
  split
  · exact room
  split
  · split
    · show (tcpHandleAck { s with peerMss := synAckMss s tcp } tcp.ack now).rxBuf.length ≤ _
      rw [(tcpHandleAck_fields _ tcp.ack now).2.2.1]
      exact room
    · exact room
  · apply receiveEstablished_rx _ room
    simp only [TcpHeader.data, List.length_drop]
    omega
  · split <;> exact room
  · split
    · split
      · split <;> exact acked
      · exact room
    · split
      · split <;> exact acked
      · exact room
  · split <;> exact room
  · exact room

theorem receiveSocket_mss (s : Socket) (tcp : TcpHeader) (now : Nat) :
    (receiveSocket s tcp now).1.peerMss = s.peerMss ∨ (receiveSocket s tcp now).1.peerMss = synAckMss s tcp := by
  have acked := tcpHandleAck_mss s tcp.ack now
  unfold receiveSocket
  simp only [synAckMss_eq]
  split
  · exact Or.inl rfl
  split
  · split
    · exact Or.inr (tcpHandleAck_mss { s with peerMss := synAckMss s tcp } tcp.ack now)
    · exact Or.inl rfl
  · obtain ⟨s', from_, rx, ack, shape⟩ := receiveEstablished_fields s tcp.flags tcp.seq tcp.ack tcp.data now
    have side : s'.peerMss = s.peerMss := by
      rcases from_ with rfl | rfl
      · rfl
      · exact acked
    rcases shape with same | ⟨seq, same⟩ <;> rw [same] <;> exact Or.inl side
  · split <;> exact Or.inl rfl
  · left
    split
    · split
      · split <;> exact acked
      · rfl
    · split
      · split <;> exact acked
      · rfl
  · split <;> exact Or.inl rfl
  · exact Or.inl rfl

theorem flight_add {a b c : UInt32} (few : (b - a).toNat + (c - b).toNat < 2 ^ 32) :
    (c - a).toNat = (b - a).toNat + (c - b).toNat := by
  simp only [UInt32.toNat_sub] at few ⊢
  have := a.toNat_lt
  have := b.toNat_lt
  have := c.toNat_lt
  omega

theorem Acks.flight {number : UInt32} {s' : Socket} (acks : Acks s number s')
    (flight : s.txBuf.length ≤ (s.seq - s.sndUna).toNat) : s'.txBuf.length ≤ (s.seq - s'.sndUna).toNat := by
  rcases acks with ⟨tx, una⟩ | ⟨⟨k, positive, le, rfl⟩, tx, una⟩
  · rw [tx, una]
    exact flight
  · have distance : (s.sndUna + UInt32.ofNat k - s.sndUna).toNat = k := by
      have := serial_sub (n := s.sndUna) (Nat.zero_le k) (Nat.lt_of_le_of_lt le (UInt32.toNat_lt _))
      simpa using this
    have rest : (s.seq - (s.sndUna + UInt32.ofNat k)).toNat = (s.seq - s.sndUna).toNat - k := by
      simp only [UInt32.toNat_sub, UInt32.toNat_add, UInt32.toNat_ofNat'] at le ⊢
      have := s.seq.toNat_lt
      have := s.sndUna.toNat_lt
      omega
    rw [tx, una, rest, distance, List.length_drop]
    omega

structure StepBounds (s s' : Socket) : Prop where
  rx : s'.rxBuf.length ≤ tcpRxBufSize
  tx : s'.txBuf.length ≤ tcpTxBufSize
  flight : s'.txBuf.length ≤ (s.seq - s'.sndUna).toNat + (s'.seq - s.seq).toNat
  mss : s'.peerMss = 0 ∨ 64 ≤ s'.peerMss.toNat ∧ s'.peerMss.toNat ≤ tcpOurMss

theorem Bounds.same (ok : Bounds s) : StepBounds s s := ⟨ok.rx, ok.tx, Nat.le_trans ok.flight (Nat.le_add_right _ _), ok.mss⟩

theorem Bounds.send (ok : Bounds s) {data : List UInt8} (now : Nat) (fits : data.length < 2 ^ 32) :
    StepBounds s (tcpSendData s data now).1 := by
  by_cases empty : data = []
  · simpa only [tcpSendData, empty, if_true] using ok.same
  by_cases up : s.state = .established
  · obtain ⟨tries, deadline, after, _⟩ := tcpSendData_spec now up empty
    have spent : (s.seq + UInt32.ofNat data.length - s.seq).toNat = data.length := by
      have := serial_sub (n := s.seq) (Nat.zero_le data.length) fits
      simpa using this
    have flight := ok.flight
    have tx := ok.tx
    rw [after]
    refine ⟨ok.rx, ?_, ?_, ok.mss⟩
    · simp only [List.length_append, List.length_take]
      omega
    · simp only [List.length_append, List.length_take, spent]
      omega
  · simpa only [tcpSendData, empty, up, if_false, ne_eq, not_false_eq_true, if_true] using ok.same

theorem Bounds.step (ok : Bounds s) {op : SocketOp} (fits : op.Fits) : StepBounds s (op.apply s).1 := by
  cases op with
  | send data now => exact ok.send now fits
  | receive tcp now =>
    have acks := receiveSocket_acks s tcp now
    refine ⟨receiveSocket_rx now ok.rx fits, ?_, Nat.le_trans (acks.flight ok.flight) (Nat.le_add_right _ _), ?_⟩
    · rcases acks with ⟨tx, _⟩ | ⟨_, tx, _⟩
      · simp only [SocketOp.apply, tx]
        exact ok.tx
      · simp only [SocketOp.apply, tx, List.length_drop]
        exact Nat.le_trans (Nat.sub_le _ _) ok.tx
    · rcases receiveSocket_mss s tcp now with same | same
      · simp only [SocketOp.apply, same]
        exact ok.mss
      · simp only [SocketOp.apply, same]
        exact Or.inr (synAckMss_bounds s tcp ok)
  | poll now =>
    rcases pollSocket_cases now s with same | ⟨_, _, _, _, same⟩ | ⟨_, _, _, same, _⟩
    all_goals
      simp only [SocketOp.apply, same]
      exact ⟨ok.same.rx, ok.same.tx, ok.same.flight, ok.same.mss⟩
  | recv maxLen =>
    simp only [SocketOp.apply, sysNetRecv]
    split
    · split <;> exact ok.same
    · refine ⟨?_, ok.same.tx, ok.same.flight, ok.same.mss⟩
      simp only [List.length_drop]
      exact Nat.le_trans (Nat.sub_le _ _) ok.rx
  | close =>
    simp only [SocketOp.apply, tcpClose]
    split
    · exact ok.same
    · exact ⟨ok.rx, ok.tx, Nat.le_trans ok.flight (Nat.le_add_right _ _), ok.mss⟩

theorem tcpSendData_idle {data : List UInt8} (now : Nat) (idle : data = [] ∨ s.state ≠ .established) :
    tcpSendData s data now = (s, []) := by
  unfold tcpSendData
  rcases idle with empty | down
  · rw [if_pos empty]
  · rw [if_pos down, ite_self]

theorem apply_rx_call (op : SocketOp) (call : ∀ tcp now, op ≠ .receive tcp now) :
    (op.apply s).1.rxBuf.length ≤ s.rxBuf.length := by
  cases op with
  | send data now =>
    by_cases idle : data = [] ∨ s.state ≠ .established
    · exact Nat.le_of_eq (by rw [SocketOp.apply, tcpSendData_idle now idle])
    · obtain ⟨some, up⟩ := not_or.mp idle
      obtain ⟨tries, deadline, after, _⟩ := tcpSendData_spec now (not_not.mp up) some
      exact Nat.le_of_eq (by rw [SocketOp.apply, after])
  | receive tcp now => exact absurd rfl (call tcp now)
  | poll now =>
    rcases pollSocket_cases now s with same | ⟨_, _, _, _, same⟩ | ⟨_, _, _, same, _⟩
    all_goals simp only [SocketOp.apply, same, Nat.le_refl]
  | recv maxLen =>
    simp only [SocketOp.apply, sysNetRecv]
    split
    · split <;> exact Nat.le_refl _
    · simp only [List.length_drop]
      exact Nat.sub_le _ _
  | close =>
    simp only [SocketOp.apply, tcpClose]
    split <;> exact Nat.le_refl _

theorem apply_rx {op : SocketOp} (fits : op.Fits) (room : s.rxBuf.length ≤ tcpRxBufSize) :
    (op.apply s).1.rxBuf.length ≤ tcpRxBufSize := by
  by_cases segment : ∃ tcp now, op = .receive tcp now
  · obtain ⟨tcp, now, rfl⟩ := segment
    exact receiveSocket_rx now room fits
  · exact Nat.le_trans (apply_rx_call op fun tcp now same => segment ⟨tcp, now, same⟩) room

theorem Bounds.apply (ok : Bounds s) {op : SocketOp} (fits : op.Fits) (few : inFlightAfter s op < 2 ^ 32) :
    Bounds (op.apply s).1 := by
  have step := ok.step fits
  refine ⟨step.rx, step.tx, ?_, step.mss⟩
  rw [flight_add few]
  exact step.flight

end

/-- The step keeps fewer than `2 ^ 32` numbers in flight. -/
def FewInFlight (s : Socket) (op : SocketOp) : Prop := op.Fits ∧ inFlightAfter s op < 2 ^ 32

/-- The bounds hold in every state of every history, and acknowledgements only move `snd_una`
forward in `(snd_una, seq]`. -/
theorem tcp_bounds {ops : List TcpOp} {l : TcpLine} (run : Run (GuardedStep FewInFlight) bootLine ops l) {s : Socket}
    (member : s ∈ l.tcp.sockets) :
    Bounds s ∧ ∀ number now,
      (¬ InFlight s number → tcpHandleAck s number now = s) ∧
      (InFlight s number → (tcpHandleAck s number now).sndUna = number ∧
        (s.seq - number).toNat < (s.seq - s.sndUna).toNat) := by
  refine ⟨?_, fun number now => ⟨fun outside => ?_, fun inside => ⟨?_, ?_⟩⟩⟩
  · refine sockets_invariant Bounds ?_ ?_ run s member
    · intro s fresh
      exact ⟨by simp [fresh.rx], by simp [fresh.tx], by simp [fresh.tx], Or.inl fresh.mss⟩
    · intro s op ok few
      exact ok.apply few.1 few.2
  · exact ((tcpHandleAck_cases s number now).resolve_right fun other => outside other.1).2
  · have moved := ((tcpHandleAck_cases s number now).resolve_left fun other => other.1 inside).2
    rw [moved]
    rfl
  · obtain ⟨k, positive, le, rfl⟩ := inside
    simp only [UInt32.toNat_sub, UInt32.toNat_add, UInt32.toNat_ofNat'] at le ⊢
    have := s.seq.toNat_lt
    have := s.sndUna.toNat_lt
    omega

/-- Three bytes in flight on the connection of `openLine`. -/
theorem tcp_bounds_threeBytes : ∃ l, Run (GuardedStep FewInFlight) bootLine [openOp, synAckOp, .send 1 [1, 2, 3] 102] l ∧
    ∀ s ∈ l.tcp.sockets, Bounds s := by
  have up : Run (GuardedStep FewInFlight) bootLine [openOp, synAckOp] ((bootLine.next openOp).next synAckOp) := by
    refine (openOp_run _).snoc ⟨⟨trivial, rfl⟩, fun s member seen view => ?_⟩
    obtain rfl : s = _ := List.mem_singleton.mp member
    obtain rfl : _ = seen := Option.some.inj view
    exact ⟨by decide, by decide⟩
  have sent : Run (GuardedStep FewInFlight) bootLine [openOp, synAckOp, .send 1 [1, 2, 3] 102]
      (((bootLine.next openOp).next synAckOp).next (.send 1 [1, 2, 3] 102)) := by
    refine up.snoc ⟨⟨show [1, 2, 3].length < 2 ^ 32 by decide, rfl⟩, fun s member seen view => ?_⟩
    obtain rfl : s = _ := List.mem_singleton.mp member
    obtain rfl : _ = seen := Option.some.inj view
    exact ⟨by decide, by decide⟩
  exact ⟨_, sent, fun s member => (tcp_bounds sent member).1⟩

end RexOs.Net
