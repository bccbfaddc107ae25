import RexOs.Library.Run
import RexOs.Library.Serial
import RexOs.Net.Tcp

/-! The retransmission buffer.

`Sending s log stream acked` ties a socket to the bytes its application has sent:
the byte at position `k` of `stream` has the number `iss + 1 + k`, `acked` of the
numbers from `iss` on have been acknowledged, and `tx_buf` holds a piece of the
stream that starts at the first unacknowledged number.
-/

set_option autoImplicit false

namespace RexOs.Net

open RexOs.Library

def transmitted (sent : List Sent) : List (UInt32 × UInt8) :=
  sent.flatMap fun x => numbered x.segment.seq x.segment.data

@[simp] theorem transmitted_nil : transmitted [] = [] := rfl

@[simp] theorem transmitted_append (xs ys : List Sent) :
    transmitted (xs ++ ys) = transmitted xs ++ transmitted ys := List.flatMap_append

section
variable {s : Socket} {flags : UInt8} {seq : UInt32} {data : List UInt8}

theorem mem_tcpOutput {x : Sent} (member : x ∈ tcpOutput s flags seq data) :
    x.segment.seq = seq ∧ x.segment.data = data := by
  unfold tcpOutput at member
  simp only [List.mem_ite_nil_left, List.mem_singleton] at member
  obtain ⟨_, rfl⟩ := member
  refine ⟨rfl, ?_⟩
  by_cases syn : flags &&& tcpSyn ≠ 0
  · simp only [TcpHeader.data, TcpHeader.hdrLen, if_pos syn]
    rfl
  · simp only [TcpHeader.data, TcpHeader.hdrLen, if_neg syn]
    rfl

theorem transmitted_tcpOutput (plain : flags &&& tcpSyn = 0) (small : data.length ≤ tcpOurMss) :
    transmitted (tcpOutput s flags seq data) = numbered seq data := by
  have fits : ¬ tcpHeaderSize + 0 + data.length > 2048 := by
    simp only [tcpOurMss, tcpHeaderSize] at *
    omega
  simp only [tcpOutput, plain, ne_eq, not_true_eq_false, if_false, List.length_nil, fits]
  simp only [transmitted, List.flatMap_cons, List.flatMap_nil, List.append_nil]
  rfl

end

theorem sendLoop_spec (mss : Nat) (positive : 0 < mss) (small : mss ≤ tcpOurMss) :
    ∀ (fuel : Nat) (s : Socket) (data : List UInt8), data.length ≤ fuel →
      (sendLoop mss fuel s data).1 = { s with seq := s.seq + UInt32.ofNat data.length } ∧
      transmitted (sendLoop mss fuel s data).2 = numbered s.seq data := by
  intro fuel
  induction fuel with
  | zero =>
    intro s data enough
    obtain rfl : data = [] := List.eq_nil_of_length_eq_zero (by omega)
    simp [sendLoop, numbered]
  | succ fuel ih =>
    intro s data enough
    by_cases empty : data = []
    · subst empty
      simp [sendLoop, numbered]
    have nonempty : 0 < data.length := List.length_pos_iff.mpr empty
    obtain ⟨rest, wire⟩ := ih { s with seq := s.seq + UInt32.ofNat (data.take mss).length } (data.drop mss)
      (by rw [List.length_drop]; omega)
    have plain : ∀ last : Prop, [Decidable last] →
        (tcpAck ||| (if last then tcpPsh else 0)) &&& tcpSyn = 0 := by
      intro last _
      split <;> decide
    have whole : (data.take mss).length + (data.drop mss).length = data.length := by
      rw [← List.length_append, List.take_append_drop]
    simp only [sendLoop, empty, if_false]
    constructor
    · rw [rest]
      simp only [serial_add, whole]
    · rw [transmitted_append, wire, tcpSendSegment, transmitted_tcpOutput (plain _) (by rw [List.length_take]; omega),
        ← numbered_append, List.take_append_drop]

theorem Socket.mss_positive (s : Socket) : 0 < s.mss := by
  unfold Socket.mss
  split
  · rename_i some
    exact Nat.pos_of_ne_zero fun zero => some (UInt16.toNat_inj.mp zero)
  · decide

theorem tcpSendData_spec {s : Socket} {data : List UInt8} (now : Nat) (up : s.state = .established)
    (some : data ≠ []) :
    ∃ tries deadline, (tcpSendData s data now).1 =
        { s with
          txBuf := s.txBuf ++ data.take (tcpTxBufSize - s.txBuf.length)
          seq := s.seq + UInt32.ofNat data.length
          rtoTries := tries
          rtoDeadline := deadline } ∧
      transmitted (tcpSendData s data now).2 = numbered s.seq data := by
  have positive := s.mss_positive
  have spec := sendLoop_spec (if s.mss > tcpOurMss then tcpOurMss else s.mss)
    (by split <;> simp only [tcpOurMss] at * <;> omega) (by split <;> omega) data.length
    { s with txBuf := s.txBuf ++ data.take (tcpTxBufSize - s.txBuf.length) } data (Nat.le_refl _)
  rw [tcpSendData, if_neg some, if_neg (not_not_intro up)]
  simp only
  generalize sendLoop _ _ _ data = out at spec ⊢
  obtain ⟨s', sent⟩ := out
  obtain ⟨rfl, wire⟩ := spec
  by_cases idle : s.rtoDeadline = 0
  · exact ⟨0, now + tcpRtoBaseTicks, by simp [idle], wire⟩
  · exact ⟨s.rtoTries, s.rtoDeadline, by simp [idle], wire⟩

structure Sending (s : Socket) (log : List (UInt32 × UInt8)) (stream : List UInt8) (acked : Nat) : Prop where
  logged : log = numbered (s.iss + 1) stream
  next : s.seq = s.iss + UInt32.ofNat (stream.length + 1)
  una : s.sndUna = s.iss + UInt32.ofNat acked
  behind : acked ≤ stream.length + 1
  near : stream.length + 1 < acked + 2 ^ 32
  copied : s.txBuf = [] ∨ 0 < acked ∧ s.txBuf <+: stream.drop (acked - 1)

structure SameSender (s' s : Socket) : Prop where
  iss : s'.iss = s.iss
  seq : s'.seq = s.seq
  una : s'.sndUna = s.sndUna
  tx : s'.txBuf = s.txBuf

section
variable {s : Socket} {log : List (UInt32 × UInt8)} {stream : List UInt8} {acked : Nat}

theorem Sending.outstanding (ok : Sending s log stream acked) :
    (s.seq - s.sndUna).toNat = stream.length + 1 - acked := by
  rw [ok.next, ok.una]
  exact serial_sub ok.behind (by have := ok.near; omega)

theorem Sending.congr (ok : Sending s log stream acked) {s' : Socket} (same : SameSender s' s) :
    Sending s' log stream acked where
  logged := by rw [same.iss]; exact ok.logged
  next := by rw [same.iss, same.seq]; exact ok.next
  una := by rw [same.iss, same.una]; exact ok.una
  behind := ok.behind
  near := ok.near
  copied := by rw [same.tx]; exact ok.copied

theorem Sending.handleAck (ok : Sending s log stream acked) (remoteAck : UInt32) (now : Nat) :
    ∃ acked', Sending (tcpHandleAck s remoteAck now) log stream acked' := by
  unfold tcpHandleAck
  simp only
  split
  · exact ⟨acked, ok⟩
  rename_i accepted
  obtain ⟨_, inside⟩ := not_or.mp accepted
  generalize count : remoteAck - s.sndUna = d at *
  have bound : d.toNat ≤ stream.length + 1 - acked := by
    rw [← ok.outstanding]
    simpa [UInt32.lt_iff_toNat_lt] using inside
  refine ⟨acked + d.toNat, ok.logged, ok.next, ?_, ?_, ?_, ?_⟩
  · simp only [ok.una, ← serial_add, UInt32.ofNat_toNat]
  · have := ok.behind
    omega
  · have := ok.near
    omega
  · rcases ok.copied with empty | ⟨positive, rest, split⟩
    · exact Or.inl (by simp [empty])
    · -- what is left of the copy still starts at the first unacknowledged number
      by_cases whole : d.toNat > s.txBuf.length
      · exact Or.inl (by simp [whole])
      · refine Or.inr ⟨by omega, rest, ?_⟩
        have place : acked + d.toNat - 1 = acked - 1 + d.toNat := by omega
        rw [place, ← List.drop_drop, ← split, List.drop_append_of_le_length (by omega)]
        simp [whole]

/-- A call of `tcp_send_data` keeps the copy in step: nothing unacknowledged is missing
from `tx_buf`, or the buffer is full and takes nothing; and the numbers do not wrap. -/
def Aligned (s : Socket) (data : List UInt8) : Prop :=
  (s.txBuf.length = tcpTxBufSize ∨ s.txBuf.length = (s.seq - s.sndUna).toNat) ∧
  (s.seq - s.sndUna).toNat + data.length < 2 ^ 32

theorem Sending.sendData (ok : Sending s log stream acked) {data : List UInt8} (now : Nat)
    (up : s.state = .established) (some : data ≠ []) (aligned : Aligned s data) :
    Sending (tcpSendData s data now).1 (log ++ transmitted (tcpSendData s data now).2) (stream ++ data) acked := by
  obtain ⟨tries, deadline, after, wire⟩ := tcpSendData_spec now up some
  obtain ⟨inStep, bounded⟩ := aligned
  rw [ok.outstanding] at inStep bounded
  have behind := ok.behind
  rw [after, wire]
  refine ⟨?_, ?_, ok.una, ?_, ?_, ?_⟩
  · have first : s.seq = s.iss + 1 + UInt32.ofNat stream.length := by
      rw [ok.next, Nat.add_comm, ← serial_add]
      rfl
    simp only [numbered_append, ok.logged, first]
  · simp only [ok.next, serial_add, List.length_append]
    congr 2
    omega
  · rw [List.length_append]
    omega
  · rw [List.length_append]
    omega
  · rcases inStep with full | level
    · have none : tcpTxBufSize - s.txBuf.length = 0 := by omega
      simp only [none, List.take_zero, List.append_nil]
      rcases ok.copied with empty | ⟨positive, ahead⟩
      · exact Or.inl empty
      · refine Or.inr ⟨positive, ahead.trans ?_⟩
        rw [List.drop_append_of_le_length (by omega)]
        exact List.prefix_append _ _
    · -- the copy reaches to the end of the stream, so it may be continued there
      have started : 0 < acked := by
        rcases ok.copied with empty | ⟨positive, _⟩
        · rw [empty, List.length_nil] at level
          omega
        · exact positive
      have reach : s.txBuf = stream.drop (acked - 1) := by
        rcases ok.copied with empty | ⟨_, ahead⟩
        · rw [empty, List.length_nil] at level
          rw [empty, List.drop_eq_nil_of_le (by omega)]
        · exact ahead.eq_of_length (by rw [List.length_drop]; omega)
      refine Or.inr ⟨started, ?_⟩
      rw [List.drop_append_of_le_length (by omega)]
      simp only [← reach]
      exact (List.prefix_append_right_inj _).mpr (List.take_prefix _ _)

theorem Sending.faithful (ok : Sending s log stream acked) {i : Nat} (inside : i < s.txBuf.length) :
    latest log (s.sndUna + UInt32.ofNat i) = some s.txBuf[i] := by
  rcases ok.copied with empty | ⟨positive, rest, split⟩
  · simp [empty] at inside
  have near := ok.near
  have size : s.txBuf.length + rest.length = stream.length - (acked - 1) := by
    rw [← List.length_append, split, List.length_drop]
  have place : s.sndUna + UInt32.ofNat i = s.iss + 1 + UInt32.ofNat (acked - 1 + i) := by
    have number : acked + i = 1 + (acked - 1 + i) := by omega
    rw [ok.una, serial_add, number, ← serial_add]
    rfl
  have byte : s.txBuf[i] = stream.get ⟨acked - 1 + i, by omega⟩ := by
    have here : (stream.drop (acked - 1))[i]? = some s.txBuf[i] := by
      rw [← split, List.getElem?_append_left inside, List.getElem?_eq_getElem inside]
    rw [List.getElem?_drop, List.getElem?_eq_getElem (by omega), Option.some.injEq] at here
    exact here.symm
  rw [ok.logged, place, latest_numbered (by omega) (by omega), byte]
  rfl

theorem Sending.resent (ok : Sending s log stream acked) {mss fuel off : Nat} {x : Sent}
    (member : x ∈ resendLoop s mss fuel off) {i : Nat} (inside : i < x.segment.data.length) :
    latest log (x.segment.seq + UInt32.ofNat i) = some x.segment.data[i] := by
  induction fuel generalizing off with
  | zero => simp [resendLoop] at member
  | succ fuel ih =>
    simp only [resendLoop, List.mem_ite_nil_right, List.mem_append] at member
    obtain ⟨_, now | later⟩ := member
    · obtain ⟨number, payload⟩ := mem_tcpOutput now
      have bound : off + i < s.txBuf.length := by
        rw [payload, List.length_take, List.length_drop] at inside
        omega
      simp only [number, payload, serial_add, List.getElem_take, List.getElem_drop]
      exact ok.faithful bound
    · exact ih later

end

def SendOk (s : Socket) (log : List (UInt32 × UInt8)) : Prop :=
  s.state = .synSent ∨ s.state = .established → ∃ stream acked, Sending s log stream acked

section
variable {s : Socket} {log : List (UInt32 × UInt8)}

theorem tcpHandleAck_fields (s : Socket) (remoteAck : UInt32) (now : Nat) :
    (tcpHandleAck s remoteAck now).state = s.state ∧ (tcpHandleAck s remoteAck now).id = s.id ∧
    (tcpHandleAck s remoteAck now).rxBuf = s.rxBuf ∧ (tcpHandleAck s remoteAck now).ack = s.ack := by
  unfold tcpHandleAck
  simp only
  split <;> exact ⟨rfl, rfl, rfl, rfl⟩

theorem takeData_fields (s : Socket) (remoteSeq : UInt32) (data : List UInt8) :
    ∃ rx ack, (takeData s remoteSeq data).socket = { s with rxBuf := rx, ack := ack } := by
  unfold takeData
  simp only
  split
  · exact ⟨s.rxBuf, s.ack, rfl⟩
  · split
    · split
      · exact ⟨_, _, rfl⟩
      · exact ⟨s.rxBuf, s.ack, rfl⟩
    · exact ⟨s.rxBuf, s.ack, rfl⟩

theorem receiveEstablished_fields (s : Socket) (flags : UInt8) (remoteSeq remoteAck : UInt32)
    (data : List UInt8) (now : Nat) :
    ∃ s', (s' = s ∨ s' = tcpHandleAck s remoteAck now) ∧
      ∃ rx ack, (receiveEstablished s flags remoteSeq remoteAck data now).1 = { s' with rxBuf := rx, ack := ack } ∨
        ∃ seq, (receiveEstablished s flags remoteSeq remoteAck data now).1 =
          { s' with rxBuf := rx, ack := ack, seq := seq, state := .lastAck } := by
  unfold receiveEstablished
  simp only
  refine ⟨if flags &&& tcpAck ≠ 0 then tcpHandleAck s remoteAck now else s, ?_, ?_⟩
  · split
    · exact Or.inr rfl
    · exact Or.inl rfl
  · generalize (if flags &&& tcpAck ≠ 0 then tcpHandleAck s remoteAck now else s) = s'
    obtain ⟨rx, ack, taken⟩ := takeData_fields s' remoteSeq data
    rw [taken]
    split
    · split
      · exact ⟨rx, ack + 1, Or.inr ⟨_, rfl⟩⟩
      · exact ⟨rx, ack, Or.inl rfl⟩
    · split
      · exact ⟨rx, ack, Or.inl rfl⟩
      · exact ⟨rx, ack, Or.inl rfl⟩

def Socket.home (s : Socket) : Nat × UInt16 := (s.id, s.localPort)

theorem tcpHandleAck_home (s : Socket) (remoteAck : UInt32) (now : Nat) : (tcpHandleAck s remoteAck now).home = s.home := by
  unfold tcpHandleAck
  simp only
  split <;> rfl

theorem receiveSocket_home (s : Socket) (tcp : TcpHeader) (now : Nat) : (receiveSocket s tcp now).1.home = s.home := by
  have acked := tcpHandleAck_home
  unfold receiveSocket
  simp only
  split
  · rfl
  split
  · split
    · refine (acked _ tcp.ack now).trans ?_
      split <;> rfl
    · rfl
  · obtain ⟨s', from_, rx, ack, same | ⟨seq, same⟩⟩ :=
      receiveEstablished_fields s tcp.flags tcp.seq tcp.ack tcp.data now
    all_goals
      rw [same]
      rcases from_ with rfl | rfl
      · rfl
      · exact acked _ _ _
  · split <;> rfl
  · split <;> split <;> (try split) <;> first | rfl | exact acked _ _ _
  · split <;> rfl
  · rfl

theorem receiveSocket_id (s : Socket) (tcp : TcpHeader) (now : Nat) : (receiveSocket s tcp now).1.id = s.id :=
  congrArg Prod.fst (receiveSocket_home s tcp now)

theorem receiveSocket_sender (s : Socket) (tcp : TcpHeader) (now : Nat) :
    (receiveSocket s tcp now).1 = s ∨
    ((receiveSocket s tcp now).1.state ≠ .synSent ∧ (receiveSocket s tcp now).1.state ≠ .established) ∨
    ((s.state = .synSent ∨ s.state = .established) ∧ ∃ base, SameSender base s ∧
      (SameSender (receiveSocket s tcp now).1 base ∨
        SameSender (receiveSocket s tcp now).1 (tcpHandleAck base tcp.ack now))) := by
  unfold receiveSocket
  simp only
  split
  · exact Or.inr (Or.inl ⟨nofun, nofun⟩)
  split
  · rename_i opening
    split
    · refine Or.inr (Or.inr ⟨Or.inl opening, _, ?_, Or.inr ⟨rfl, rfl, rfl, rfl⟩⟩)
      split <;> exact ⟨rfl, rfl, rfl, rfl⟩
    · exact Or.inl rfl
  · rename_i up
    obtain ⟨s', from_, rx, ack, same | ⟨seq, same⟩⟩ :=
      receiveEstablished_fields s tcp.flags tcp.seq tcp.ack tcp.data now
    · refine Or.inr (Or.inr ⟨Or.inr up, s, ⟨rfl, rfl, rfl, rfl⟩, ?_⟩)
      rw [same]
      rcases from_ with rfl | rfl
      · exact Or.inl ⟨rfl, rfl, rfl, rfl⟩
      · exact Or.inr ⟨rfl, rfl, rfl, rfl⟩
    · rw [same]
      exact Or.inr (Or.inl ⟨nofun, nofun⟩)
  · rename_i closing
    split
    · exact Or.inr (Or.inl ⟨nofun, nofun⟩)
    · exact Or.inl rfl
  · rename_i closing
    refine Or.inr (Or.inl ?_)
    have kept : (tcpHandleAck s tcp.ack now).state = .finWait1 := by
      rw [(tcpHandleAck_fields s tcp.ack now).1, closing]
    split
    · exact ⟨nofun, nofun⟩
    · split
      · split
        · exact ⟨nofun, nofun⟩
        · rw [kept]
          exact ⟨nofun, nofun⟩
      · rw [closing]
        exact ⟨nofun, nofun⟩
  · split
    · exact Or.inr (Or.inl ⟨nofun, nofun⟩)
    · exact Or.inl rfl
  · exact Or.inl rfl

theorem SendOk.receive (ok : SendOk s log) (tcp : TcpHeader) (now : Nat) : SendOk (receiveSocket s tcp now).1 log := by
  rcases receiveSocket_sender s tcp now with same | ⟨one, two⟩ | ⟨active, base, before, after⟩
  · rw [same]
    exact ok
  · intro active
    exact absurd active (not_or.mpr ⟨one, two⟩)
  · intro _
    obtain ⟨stream, acked, sending⟩ := ok active
    have sending := sending.congr before
    rcases after with after | after
    · exact ⟨stream, acked, sending.congr after⟩
    · obtain ⟨acked', sending⟩ := sending.handleAck tcp.ack now
      exact ⟨stream, acked', sending.congr after⟩

theorem SendOk.sendData (ok : SendOk s log) {data : List UInt8} (now : Nat)
    (aligned : s.state = .established → data ≠ [] → Aligned s data) :
    SendOk (tcpSendData s data now).1 (log ++ transmitted (tcpSendData s data now).2) := by
  by_cases empty : data = []
  · simpa [tcpSendData, empty] using ok
  by_cases up : s.state = .established
  · intro _
    obtain ⟨stream, acked, sending⟩ := ok (Or.inr up)
    exact ⟨_, _, sending.sendData now up empty (aligned up empty)⟩
  · simpa [tcpSendData, empty, up] using ok

theorem tcpSendData_home (s : Socket) (data : List UInt8) (now : Nat) : (tcpSendData s data now).1.home = s.home := by
  by_cases empty : data = []
  · simp [tcpSendData, empty]
  by_cases up : s.state = .established
  · obtain ⟨_, _, after, _⟩ := tcpSendData_spec now up empty
    rw [after]
    rfl
  · simp [tcpSendData, empty, up]

theorem tcpSendData_id (s : Socket) (data : List UInt8) (now : Nat) : (tcpSendData s data now).1.id = s.id :=
  congrArg Prod.fst (tcpSendData_home s data now)

theorem pollSocket_cases (now : Nat) (s : Socket) :
    (pollSocket now s = (s, [])) ∨ (∃ state deadline, state ≠ .synSent ∧ state ≠ .established ∧
      pollSocket now s = ({ s with state := state, rtoDeadline := deadline }, [])) ∨
    ∃ tries deadline sent, pollSocket now s = ({ s with rtoTries := tries, rtoDeadline := deadline }, sent) ∧
      (sent = [] ∨ (∃ s', sent = tcpOutput s' tcpSyn s.iss []) ∨
        s.state = .established ∧ ∃ mss fuel, sent = resendLoop { s with rtoTries := tries, rtoDeadline := deadline }
          mss fuel 0) := by
  unfold pollSocket
  simp only
  split
  · exact Or.inl rfl
  split
  · exact Or.inr (Or.inl ⟨.closed, 0, nofun, nofun, rfl⟩)
  split
  · exact Or.inr (Or.inr ⟨_, _, _, rfl, Or.inr (Or.inl ⟨_, rfl⟩)⟩)
  split
  · rename_i up
    exact Or.inr (Or.inr ⟨_, _, _, rfl, Or.inr (Or.inr ⟨up.1, _, _, rfl⟩)⟩)
  · exact Or.inr (Or.inr ⟨_, _, _, rfl, Or.inl rfl⟩)

theorem pollSocket_home (now : Nat) (s : Socket) : (pollSocket now s).1.home = s.home := by
  rcases pollSocket_cases now s with same | ⟨_, _, _, _, same⟩ | ⟨_, _, _, same, _⟩ <;> rw [same] <;> rfl

theorem pollSocket_id (now : Nat) (s : Socket) : (pollSocket now s).1.id = s.id :=
  congrArg Prod.fst (pollSocket_home now s)

theorem SendOk.poll (ok : SendOk s log) (now : Nat) : SendOk (pollSocket now s).1 log := by
  rcases pollSocket_cases now s with same | ⟨state, deadline, one, two, same⟩ | ⟨_, _, _, same, _⟩
  · rw [same]
    exact ok
  · rw [same]
    intro active
    exact absurd active (not_or.mpr ⟨one, two⟩)
  · rw [same]
    intro active
    obtain ⟨stream, acked, sending⟩ := ok active
    exact ⟨stream, acked, sending.congr ⟨rfl, rfl, rfl, rfl⟩⟩

theorem sysNetRecv_fields (s : Socket) (maxLen : Nat) :
    ∃ rx, (sysNetRecv s maxLen).2.1 = { s with rxBuf := rx } := by
  unfold sysNetRecv
  simp only
  split
  · split <;> exact ⟨s.rxBuf, rfl⟩
  · exact ⟨_, rfl⟩

theorem SendOk.recv (ok : SendOk s log) (maxLen : Nat) : SendOk (sysNetRecv s maxLen).2.1 log := by
  obtain ⟨rx, same⟩ := sysNetRecv_fields s maxLen
  rw [same]
  intro active
  obtain ⟨stream, acked, sending⟩ := ok active
  exact ⟨stream, acked, sending.congr ⟨rfl, rfl, rfl, rfl⟩⟩

theorem SendOk.close (ok : SendOk s log) : SendOk (tcpClose s).1 log := by
  unfold tcpClose
  split
  · exact ok
  · rintro (active | active) <;> cases active

theorem SendOk.resent (ok : SendOk s log) {now : Nat} {x : Sent} (member : x ∈ (pollSocket now s).2) {i : Nat}
    (inside : i < x.segment.data.length) :
    latest log (x.segment.seq + UInt32.ofNat i) = some x.segment.data[i] := by
  rcases pollSocket_cases now s with same | ⟨_, _, _, _, same⟩ | ⟨tries, deadline, sent, same, kind⟩
  · simp [same] at member
  · simp [same] at member
  · simp only [same] at member
    rcases kind with rfl | ⟨s', rfl⟩ | ⟨up, mss, fuel, rfl⟩
    · simp at member
    · rw [(mem_tcpOutput member).2] at inside
      simp at inside
    · obtain ⟨stream, acked, sending⟩ := ok (Or.inr up)
      have again : Sending { s with rtoTries := tries, rtoDeadline := deadline } log stream acked :=
        sending.congr ⟨rfl, rfl, rfl, rfl⟩
      exact again.resent member inside

end

end RexOs.Net
