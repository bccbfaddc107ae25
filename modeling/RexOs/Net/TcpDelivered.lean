import RexOs.Net.TcpBounds

/-! Acknowledged data has been delivered.

`ack` moves over the SYN|ACK, over data that goes to `rx_buf` at exactly that place, and
over a FIN that follows it. The exception is a FIN in `FIN_WAIT_1` or `FIN_WAIT_2`, which
sets `ack` to the end of its segment wherever that is.
-/

set_option autoImplicit false

namespace RexOs.Net

open RexOs.Library

/-- The segment carries the acknowledgement number and the window of `s`. Only a SYN has
no number. -/
structure Carries (s : Socket) (x : Sent) : Prop where
  flagged : s.state = .synSent ∨ x.segment.flags &&& tcpAck ≠ 0
  ack : x.segment.flags &&& tcpAck ≠ 0 → x.segment.ack = s.ack
  window : x.segment.windowSize = tcpFreeWindow s

/-- Segments sent by `s` and then by `s'`. -/
def Emits (s s' : Socket) (sent : List Sent) : Prop :=
  ∃ before after, sent = before ++ after ∧ (∀ x ∈ before, Carries s x) ∧ ∀ x ∈ after, Carries s' x

section
variable {s s' b : Socket} {flags : UInt8} {seq : UInt32} {data : List UInt8} {x : Sent} {sent : List Sent}

theorem carries_tcpOutput (member : x ∈ tcpOutput b flags seq data) (flagged : s.state = .synSent ∨ flags &&& tcpAck ≠ 0)
    (ack : b.ack = s.ack) (rx : b.rxBuf = s.rxBuf) : Carries s x := by
  unfold tcpOutput at member
  simp only [List.mem_ite_nil_left, List.mem_singleton] at member
  obtain ⟨_, rfl⟩ := member
  exact ⟨flagged, fun flag => (if_pos flag).trans ack, by simp only [tcpFreeWindow, rx]⟩

theorem carries_tcpSendSegment (member : x ∈ tcpSendSegment b flags data) (flagged : flags &&& tcpAck ≠ 0)
    (ack : b.ack = s.ack) (rx : b.rxBuf = s.rxBuf) : Carries s x :=
  carries_tcpOutput member (Or.inr flagged) ack rx

theorem dataFlags_ack (last : Prop) [Decidable last] : (tcpAck ||| (if last then tcpPsh else 0)) &&& tcpAck ≠ 0 := by
  split <;> decide

theorem carries_sendLoop (mss fuel : Nat) (data : List UInt8) (ack : b.ack = s.ack) (rx : b.rxBuf = s.rxBuf) :
    ∀ x ∈ (sendLoop mss fuel b data).2, Carries s x := by
  induction fuel generalizing b data with
  | zero => exact fun x member => absurd member List.not_mem_nil
  | succ fuel ih =>
    intro x member
    simp only [sendLoop] at member
    split at member
    · exact absurd member List.not_mem_nil
    · rcases List.mem_append.mp member with now | later
      · exact carries_tcpSendSegment now (dataFlags_ack _) ack rx
      · exact ih _ (by exact ack) (by exact rx) x later

theorem carries_resendLoop (mss fuel off : Nat) (ack : b.ack = s.ack) (rx : b.rxBuf = s.rxBuf) :
    ∀ x ∈ resendLoop b mss fuel off, Carries s x := by
  induction fuel generalizing off with
  | zero => exact fun x member => absurd member List.not_mem_nil
  | succ fuel ih =>
    intro x member
    simp only [resendLoop, List.mem_ite_nil_right, List.mem_append] at member
    obtain ⟨_, now | later⟩ := member
    · exact carries_tcpOutput now (Or.inr (dataFlags_ack _)) ack rx
    · exact ih _ x later

theorem Emits.nil (s s' : Socket) : Emits s s' [] := ⟨[], [], rfl, nofun, nofun⟩

theorem Emits.first (carried : ∀ x ∈ sent, Carries s x) : Emits s s' sent :=
  ⟨sent, [], (List.append_nil sent).symm, carried, nofun⟩

theorem Emits.answer (flag : flags &&& tcpAck ≠ 0) (ack : b.ack = s'.ack) (rx : b.rxBuf = s'.rxBuf) :
    Emits s s' (tcpSendSegment b flags data) :=
  ⟨[], _, rfl, nofun, fun _ member => carries_tcpSendSegment member flag ack rx⟩

theorem finish_emits {cut : Cut} (before : ∀ x ∈ cut.sent, Carries s x) : Emits s (finish flags cut).1 (finish flags cut).2 := by
  unfold finish
  simp only
  split
  · split
    · refine ⟨cut.sent, _, List.append_assoc .., before, fun x member => ?_⟩
      rcases List.mem_append.mp member with acked | fin
      · exact carries_tcpSendSegment acked (by decide) rfl rfl
      · exact carries_tcpSendSegment fin (by decide) rfl rfl
    · exact Emits.first before
  · split
    · exact ⟨cut.sent, _, rfl, before, fun x member => carries_tcpSendSegment member (by decide) rfl rfl⟩
    · exact Emits.first before

theorem takeData_sent (remoteSeq : UInt32) (data : List UInt8) (ack : b.ack = s.ack) (rx : b.rxBuf = s.rxBuf) :
    ∀ x ∈ (takeData b remoteSeq data).sent, Carries s x := by
  intro x member
  unfold takeData at member
  simp only at member
  split at member
  · exact absurd member List.not_mem_nil
  split at member
  · split at member
    · exact absurd member List.not_mem_nil
    · dsimp only at member
      exact carries_tcpSendSegment member (by decide) ack rx
  · dsimp only at member
    exact carries_tcpSendSegment member (by decide) ack rx

theorem receiveSocket_emits (s : Socket) (tcp : TcpHeader) (now : Nat) :
    Emits s (receiveSocket s tcp now).1 (receiveSocket s tcp now).2 := by
  unfold receiveSocket
  simp only [synAckMss_eq]
  split
  · exact Emits.nil _ _
  split
  · split
    · dsimp only
      exact Emits.answer (by decide) rfl rfl
    · exact Emits.nil _ _
  · obtain ⟨_, _, rx, ack⟩ := heard_fields s tcp.flags tcp.ack now
    rw [receiveEstablished_eq]
    exact finish_emits (takeData_sent tcp.seq tcp.data ack rx)
  · split <;> exact Emits.nil _ _
  · split
    · dsimp only
      exact Emits.answer (by decide) rfl rfl
    · exact Emits.nil _ _
  · split
    · dsimp only
      exact Emits.answer (by decide) rfl rfl
    · exact Emits.nil _ _
  · exact Emits.nil _ _

theorem windowUpdate_emits (b : Socket) (choked : Bool) :
    Emits s b (if choked then tcpSendWindowUpdate b else []) := by
  unfold tcpSendWindowUpdate
  split
  · split
    · exact Emits.nil _ _
    · exact Emits.answer (by decide) rfl rfl
  · exact Emits.nil _ _

theorem apply_emits (s : Socket) (op : SocketOp) : Emits s (op.apply s).1 (op.apply s).2 := by
  cases op with
  | send data now =>
    simp only [SocketOp.apply, tcpSendData]
    split
    · exact Emits.nil _ _
    split
    · exact Emits.nil _ _
    · exact Emits.first (carries_sendLoop _ _ _ (by rfl) (by rfl))
  | receive tcp now => exact receiveSocket_emits s tcp now
  | poll now =>
    simp only [SocketOp.apply, pollSocket]
    split
    · exact Emits.nil _ _
    split
    · exact Emits.nil _ _
    split
    · rename_i opening
      dsimp only
      exact Emits.first fun x member => carries_tcpOutput member (Or.inl opening) rfl rfl
    split
    · exact Emits.first (carries_resendLoop _ _ _ (by rfl) (by rfl))
    · exact Emits.nil _ _
  | recv maxLen =>
    simp only [SocketOp.apply, sysNetRecv]
    by_cases empty : s.rxBuf.length = 0
    · rw [if_pos empty]
      split <;> exact Emits.nil _ _
    · rw [if_neg empty]
      exact windowUpdate_emits _ _
  | close =>
    simp only [SocketOp.apply, tcpClose]
    split
    · exact Emits.nil _ _
    · dsimp only
      exact Emits.first fun x member => carries_tcpSendSegment member (by decide) rfl rfl

end

/-- `ack` moves over `new`, the data of the segment from `ack` on, which goes to the end of
`rx_buf`, and over the FIN right behind it. -/
structure Delivers (s s' : Socket) (tcp : TcpHeader) (new : List UInt8) (fin : Bool) : Prop where
  stored : s'.rxBuf = s.rxBuf ++ new
  moved : s'.ack = s.ack + UInt32.ofNat new.length + (if fin then 1 else 0)
  place : new = [] ∨ ∃ k, tcp.seq + UInt32.ofNat k = s.ack ∧ new = tcp.data.drop k
  next : fin → tcp.flags &&& tcpFin ≠ 0 ∧
    tcp.seq + UInt32.ofNat tcp.data.length = s.ack + UInt32.ofNat new.length

def AckMoves (s s' : Socket) (op : SocketOp) : Prop :=
  s'.ack = s.ack ∨ ∃ tcp now, op = .receive tcp now ∧
    (s.state = .synSent ∧ tcp.IsSynAck ∧ s'.ack = tcp.seq + 1 ∨ ∃ new fin, Delivers s s' tcp new fin)

def AcksDelivered (s : Socket) (op : SocketOp) : Prop :=
  AckMoves s (op.apply s).1 op ∧ ∀ x ∈ (op.apply s).2, x.segment.flags &&& tcpAck ≠ 0 →
    x.segment.ack = s.ack ∨ x.segment.ack = (op.apply s).1.ack

/-- A FIN that comes in `FIN_WAIT_1` or `FIN_WAIT_2` is the next number or the last one. -/
def FinInOrder (s : Socket) (op : SocketOp) : Prop :=
  ∀ tcp now, op = .receive tcp now → s.state = .finWait1 ∨ s.state = .finWait2 → tcp.flags &&& tcpRst = 0 →
    tcp.flags &&& tcpFin ≠ 0 → tcp.seq + UInt32.ofNat tcp.data.length = s.ack ∨
      tcp.seq + UInt32.ofNat tcp.data.length + 1 = s.ack

section
variable {s : Socket} {tcp : TcpHeader} {now : Nat}

theorem Delivers.nothing {s' : Socket} (rx : s'.rxBuf = s.rxBuf) (ack : s'.ack = s.ack) : Delivers s s' tcp [] false :=
  ⟨by rw [rx, List.append_nil], by simp [ack], Or.inl rfl, nofun⟩

theorem finish_delivers {cut : Cut} {new : List UInt8} (data : Delivers s cut.socket tcp new false)
    (place : cut.remoteSeq + UInt32.ofNat cut.data.length = tcp.seq + UInt32.ofNat tcp.data.length) :
    ∃ fin, Delivers s (finish tcp.flags cut).1 tcp new fin := by
  have moved : cut.socket.ack = s.ack + UInt32.ofNat new.length := by simpa using data.moved
  unfold finish
  simp only
  split
  · rename_i flagged
    split
    · rename_i next
      refine ⟨true, data.stored, ?_, data.place, fun _ => ⟨flagged, ?_⟩⟩
      · simp only [moved, if_true]
      · rw [← place, next, moved]
    · exact ⟨false, data⟩
  · split <;> exact ⟨false, data⟩

theorem known_start (s : Socket) (remoteSeq : UInt32) : remoteSeq + UInt32.ofNat (known s remoteSeq) = s.ack := by
  rw [known, UInt32.ofNat_toNat, distance_add]

theorem heard_known (s : Socket) (flags : UInt8) (remoteSeq remoteAck : UInt32) (now : Nat) :
    known (heard s flags remoteAck now) remoteSeq = known s remoteSeq := by
  simp only [known, (heard_fields s flags remoteAck now).2.2.2]

theorem known_end {remoteSeq : UInt32} {data : List UInt8} (inside : known s remoteSeq < data.length) :
    s.ack + UInt32.ofNat (data.drop (known s remoteSeq)).length = remoteSeq + UInt32.ofNat data.length := by
  conv => lhs; rw [← known_start s remoteSeq]
  rw [List.length_drop, serial_add]
  congr 2
  omega

theorem receiveEstablished_takes (now : Nat) (small : tcp.data.length < 2 ^ 16) (brings : Brings s tcp.seq tcp.data)
    (fits : s.rxBuf.length + (tcp.data.length - known s tcp.seq) ≤ tcpRxBufSize) :
    ∃ fin, Delivers s (receiveEstablished s tcp.flags tcp.seq tcp.ack tcp.data now).1 tcp
      (tcp.data.drop (known s tcp.seq)) fin := by
  obtain ⟨_, _, rx, ack⟩ := heard_fields s tcp.flags tcp.ack now
  have same := heard_known s tcp.flags tcp.seq tcp.ack now
  rw [receiveEstablished_eq]
  rcases takeData_cases tcp.seq small (by rw [rx]; omega) with ⟨_, ⟨_, cut⟩ | ⟨full, _⟩⟩ | ⟨stale, _⟩
  · apply finish_delivers
    · rw [cut, same]
      exact ⟨by simp only [taken, rx], by simp [taken, ack], Or.inr ⟨_, known_start s tcp.seq, rfl⟩, nofun⟩
    · rw [cut, same, ack]
      exact known_end brings.2
  · rw [rx, same] at full
    omega
  · exact absurd (by rw [Brings, same]; exact brings) stale

theorem receiveEstablished_delivers (now : Nat) (small : tcp.data.length < 2 ^ 16) (room : s.rxBuf.length ≤ tcpRxBufSize) :
    ∃ new fin, Delivers s (receiveEstablished s tcp.flags tcp.seq tcp.ack tcp.data now).1 tcp new fin := by
  by_cases whole : Brings s tcp.seq tcp.data ∧ s.rxBuf.length + (tcp.data.length - known s tcp.seq) ≤ tcpRxBufSize
  · exact ⟨_, receiveEstablished_takes now small whole.1 whole.2⟩
  obtain ⟨_, _, rx, ack⟩ := heard_fields s tcp.flags tcp.ack now
  have same := heard_known s tcp.flags tcp.seq tcp.ack now
  rw [receiveEstablished_eq]
  -- nothing is taken, and the FIN may still be the next number
  rcases takeData_cases tcp.seq small (by rw [rx]; exact room) with ⟨⟨near, inside⟩, ⟨fits, _⟩ | ⟨_, cut⟩⟩ | ⟨_, _, _, cut⟩
  · rw [same] at near inside fits
    rw [rx] at fits
    exact absurd ⟨⟨near, inside⟩, fits⟩ whole
  · refine ⟨[], finish_delivers ?_ ?_⟩
    · rw [cut]
      exact Delivers.nothing rx ack
    · rw [same] at inside
      rw [cut, same, ack]
      exact known_end inside
  · refine ⟨[], finish_delivers ?_ ?_⟩
    · rw [cut]
      exact Delivers.nothing rx ack
    · rw [cut]

theorem receiveSocket_finWait (now : Nat) (waiting : s.state = .finWait1 ∨ s.state = .finWait2) (quiet : tcp.flags &&& tcpRst = 0) :
    (receiveSocket s tcp now).1.rxBuf = s.rxBuf ∧
      (receiveSocket s tcp now).1.ack =
        if tcp.flags &&& tcpFin ≠ 0 then tcp.seq + UInt32.ofNat tcp.data.length + 1 else s.ack := by
  obtain ⟨_, _, rx, ack⟩ := tcpHandleAck_fields s tcp.ack now
  unfold receiveSocket
  rcases waiting with one | two
  · simp only [quiet, one, ne_eq, not_true_eq_false, if_false]
    split
    · split
      · split <;> exact ⟨rx, rfl⟩
      · exact ⟨rfl, rfl⟩
    · split
      · split <;> exact ⟨rx, ack⟩
      · exact ⟨rfl, rfl⟩
  · simp only [quiet, two, ne_eq, not_true_eq_false, if_false]
    split <;> exact ⟨rfl, rfl⟩

theorem receiveSocket_moves (small : tcpHeaderSize + tcp.optionsAndPayload.length < 2 ^ 16)
    (room : s.rxBuf.length ≤ tcpRxBufSize) (other : ¬ (s.state = .finWait1 ∨ s.state = .finWait2)) :
    AckMoves s (receiveSocket s tcp now).1 (.receive tcp now) := by
  by_cases opening : s.state = .synSent
  · rcases receiveSocket_opening tcp now opening with ⟨reset, _⟩ | ⟨_, _, same⟩ | ⟨_, answer, same⟩
    · left
      simp only [receiveSocket, reset, ne_eq, not_false_eq_true, if_true]
    · exact Or.inl (by rw [same])
    · exact Or.inr ⟨tcp, now, rfl, Or.inl ⟨opening, answer, by rw [same]⟩⟩
  · unfold receiveSocket
    simp only
    split
    · exact Or.inl rfl
    split
    · rename_i opened
      exact absurd opened opening
    · refine Or.inr ⟨tcp, now, rfl, Or.inr (receiveEstablished_delivers now ?_ room)⟩
      simp only [TcpHeader.data, List.length_drop]
      omega
    · split <;> exact Or.inl rfl
    · rename_i one
      exact absurd (Or.inl one) other
    · rename_i two
      exact absurd (Or.inr two) other
    · exact Or.inl rfl

theorem apply_ack (op : SocketOp) (call : ∀ tcp now, op ≠ .receive tcp now) : (op.apply s).1.ack = s.ack := by
  cases op with
  | send data now =>
    by_cases idle : data = [] ∨ s.state ≠ .established
    · rw [SocketOp.apply, tcpSendData_idle now idle]
    · obtain ⟨some, up⟩ := not_or.mp idle
      obtain ⟨tries, deadline, after, _⟩ := tcpSendData_spec now (not_not.mp up) some
      rw [SocketOp.apply, after]
  | receive tcp now => exact absurd rfl (call tcp now)
  | poll now =>
    rcases pollSocket_cases now s with same | ⟨_, _, _, _, same⟩ | ⟨_, _, _, same, _⟩
    all_goals simp only [SocketOp.apply, same]
  | recv maxLen =>
    obtain ⟨rx, same⟩ := sysNetRecv_fields s maxLen
    simp only [SocketOp.apply, same]
  | close =>
    simp only [SocketOp.apply, tcpClose]
    split <;> rfl

theorem apply_moves_iff {op : SocketOp} (fits : op.Fits) (room : s.rxBuf.length ≤ tcpRxBufSize) :
    AckMoves s (op.apply s).1 op ↔ FinInOrder s op := by
  by_cases segment : ∃ tcp now, op = .receive tcp now
  · obtain ⟨tcp, now, rfl⟩ := segment
    by_cases waiting : s.state = .finWait1 ∨ s.state = .finWait2
    · constructor
      · rintro moves _ _ ⟨rfl⟩ _ quiet flagged
        obtain ⟨rx, ack⟩ := receiveSocket_finWait now waiting quiet
        rw [if_pos flagged] at ack
        rcases moves with same | ⟨_, _, ⟨rfl⟩, ⟨opening, _⟩ | ⟨new, fin, delivers⟩⟩
        · exact Or.inr (ack.symm.trans same)
        · rw [opening] at waiting
          exact absurd waiting (by decide)
        · have stored := delivers.stored
          have moved := delivers.moved
          simp only [SocketOp.apply, rx, List.self_eq_append_right] at stored
          subst stored
          simp only [SocketOp.apply, ack, List.length_nil] at moved
          cases fin with
          | false => exact Or.inr (by simpa using moved)
          | true => exact Or.inl (by simpa using moved)
      · intro ordered
        by_cases quiet : tcp.flags &&& tcpRst = 0
        · obtain ⟨rx, ack⟩ := receiveSocket_finWait now waiting quiet
          by_cases flagged : tcp.flags &&& tcpFin ≠ 0
          · rw [if_pos flagged] at ack
            rcases ordered tcp now rfl waiting quiet flagged with next | last
            · refine Or.inr ⟨tcp, now, rfl, Or.inr ⟨[], true, by simp [SocketOp.apply, rx], ?_, Or.inl rfl, ?_⟩⟩
              · simp [SocketOp.apply, ack, next]
              · exact fun _ => ⟨flagged, by simp [next]⟩
            · exact Or.inl (ack.trans last)
          · rw [if_neg flagged] at ack
            exact Or.inl ack
        · left
          simp only [SocketOp.apply, receiveSocket, quiet, ne_eq, not_false_eq_true, if_true]
    · exact ⟨fun _ _ _ _ inside => absurd inside waiting, fun _ => receiveSocket_moves fits room waiting⟩
  · have call : ∀ tcp now, op ≠ .receive tcp now := fun tcp now same => segment ⟨tcp, now, same⟩
    exact ⟨fun _ tcp now same => absurd same (call tcp now), fun _ => Or.inl (apply_ack op call)⟩

end

def FitsLength (_ : Socket) (op : SocketOp) : Prop := op.Fits

variable {ops : List TcpOp} {l : TcpLine} {s : Socket}

theorem reachable_rx (run : Run (GuardedStep FitsLength) bootLine ops l) (member : s ∈ l.tcp.sockets) :
    s.rxBuf.length ≤ tcpRxBufSize := by
  apply sockets_invariant (fun s => s.rxBuf.length ≤ tcpRxBufSize) _ _ run s member
  · intro s fresh
    rw [fresh.rx]
    exact Nat.zero_le _
  · intro s op room fits
    exact apply_rx fits room

/-- In every history, the next call or segment moves `ack` over delivered bytes and
acknowledges nothing else, exactly if it is not a FIN out of order in `FIN_WAIT`. -/
theorem tcp_acks_delivered (run : Run (GuardedStep FitsLength) bootLine ops l) (member : s ∈ l.tcp.sockets)
    (op : SocketOp) (fits : op.Fits) : AcksDelivered s op ↔ FinInOrder s op := by
  have moves := apply_moves_iff fits (reachable_rx run member)
  constructor
  · intro delivered
    exact moves.mp delivered.1
  · intro ordered
    refine ⟨moves.mpr ordered, fun x member flag => ?_⟩
    obtain ⟨before, after, parts, first, last⟩ := apply_emits s op
    rw [parts] at member
    rcases List.mem_append.mp member with early | late
    · exact Or.inl ((first x early).ack flag)
    · exact Or.inr ((last x late).ack flag)

/-- The connection of `openLine`, closed by its task. -/
def closedLine : TcpLine := ((bootLine.next openOp).next synAckOp).next (.close 1)

theorem closedLine_run : Run (GuardedStep FitsLength) bootLine [openOp, synAckOp, .close 1] closedLine := by
  have up : Run (GuardedStep FitsLength) bootLine [openOp, synAckOp] ((bootLine.next openOp).next synAckOp) := by
    refine (openOp_run _).snoc ⟨⟨trivial, rfl⟩, fun s member seen view => ?_⟩
    obtain rfl : s = _ := List.mem_singleton.mp member
    obtain rfl : _ = seen := Option.some.inj view
    show SocketOp.Fits _
    decide
  refine up.snoc ⟨⟨trivial, rfl⟩, fun s member seen view => ?_⟩
  obtain rfl : s = _ := List.mem_singleton.mp member
  obtain rfl : _ = seen := Option.some.inj view
  trivial

/-- The FIN that the peer sends next. -/
theorem tcp_acks_delivered_fin : ∃ s, s ∈ closedLine.tcp.sockets ∧
    AcksDelivered s (.receive (peerSegment (tcpFin ||| tcpAck) 7001 (firstIss + 2) []) 103) := by
  have member : _ ∈ closedLine.tcp.sockets := List.mem_singleton.mpr rfl
  refine ⟨_, member, (tcp_acks_delivered closedLine_run member _ (by decide)).mpr ?_⟩
  rintro tcp now ⟨rfl⟩ _ _ _
  exact Or.inl (by decide)

def lastSegment : TcpHeader := peerSegment (tcpFin ||| tcpAck) 7001 (firstIss + 2) [5]

/-- The byte is acknowledged and lost. -/
theorem fin_acks_undelivered : ¬ ∀ ops l op s seen, Run (GuardedStep FitsLength) bootLine ops l →
    s ∈ l.tcp.sockets → TcpOp.view l.tcp s.id op = some seen → seen.Fits → AcksDelivered s seen := by
  intro delivered
  have step := delivered _ _ (.receive peerIp hostIp lastSegment 103) _ (.receive lastSegment 103) closedLine_run
    (List.mem_singleton.mpr rfl) (by decide) (by decide)
  have ordered := (apply_moves_iff (by decide) (by decide)).mp step.1
  exact absurd (ordered lastSegment 103 rfl (by decide) (by decide) (by decide)) (by decide)

end RexOs.Net
