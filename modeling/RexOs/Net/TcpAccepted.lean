import RexOs.Net.TcpDelivered

/-! Bytes that `SYS_NET_SEND` accepts.

`tcp_send_data` copies to `tx_buf` what there is room for and sends the rest without a
copy. A ghost stream records, for each byte put on the connection, whether it was copied;
the copied bytes that are not acknowledged stay in `tx_buf`, at their place, and the
retransmission timer runs.
-/

set_option autoImplicit false

namespace RexOs.Net

open RexOs.Library

/-- `SYS_NET_SEND` on a valid socket; `mapped` is what `uptr_mapped` says of the buffer. -/
def sysNetSend (s : Socket) (mapped : Bool) (data : List UInt8) (now : Nat) : Option Nat × Socket × List Sent :=
  if data.length > 2 ^ 20 then (none, s, [])
  else if !mapped then (none, s, [])
  else (some data.length, tcpSendData s data now)

structure SendLine where
  socket : Socket
  /-- The bytes sent, each with whether `tx_buf` took it. -/
  stream : List (UInt8 × Bool)
  /-- How far `snd_una` has moved, the number of the SYN included. -/
  acked : Nat

/-- The bytes that `tcp_send_data` puts on the connection: a first part with a copy, the
rest without. -/
def accepted (s : Socket) : SocketOp → List (UInt8 × Bool)
  | .send data _ =>
      if s.state = .established then
        let keep := tcpTxBufSize - s.txBuf.length
        (data.take keep).map (·, true) ++ (data.drop keep).map (·, false)
      else []
  | _ => []

def SendLine.after (w : SendLine) (op : SocketOp) : SendLine :=
  let s' := (op.apply w.socket).1
  ⟨s', w.stream ++ accepted w.socket op, w.acked + (s'.sndUna - w.socket.sndUna).toNat⟩

/-- A send is one that `SYS_NET_SEND` lets through, and finds the copy in step with
`snd_una` or full. -/
def SendStep (w : SendLine) (op : SocketOp) (next : SendLine) : Prop :=
  (∀ data now, op = .send data now → data.length ≤ 2 ^ 20 ∧
    (w.socket.state = .established → data ≠ [] → Aligned w.socket data)) ∧ next = w.after op

structure Kept (w : SendLine) : Prop where
  opened : w.acked = 0 → w.stream = []
  copy : ∃ rest : List UInt8, w.stream.drop (w.acked - 1) = w.socket.txBuf.map (·, true) ++ rest.map (·, false)
  live : w.socket.state = .synSent ∨ w.socket.state = .established →
    w.socket.seq = w.socket.iss + UInt32.ofNat (w.stream.length + 1) ∧
    w.socket.sndUna = w.socket.iss + UInt32.ofNat w.acked ∧
    w.acked ≤ w.stream.length + 1 ∧ w.stream.length + 1 < w.acked + 2 ^ 32
  opening : w.socket.state = .synSent → w.socket.txBuf = []
  timer : w.socket.state = .established → w.socket.txBuf ≠ [] → w.socket.rtoDeadline ≠ 0

section
variable {s : Socket} {w : SendLine}

theorem tcpSendData_timer {data : List UInt8} (now : Nat) (some : data ≠ []) (up : s.state = .established) :
    (tcpSendData s data now).1.rtoDeadline ≠ 0 := by
  simp only [tcpSendData, some, up, if_false, ne_eq, not_true_eq_false]
  generalize sendLoop _ _ _ _ = out
  split
  · simp [tcpRtoBaseTicks]
  · assumption

theorem Kept.outstanding (kept : Kept w) (active : w.socket.state = .synSent ∨ w.socket.state = .established) :
    (w.socket.seq - w.socket.sndUna).toNat = w.stream.length + 1 - w.acked := by
  obtain ⟨next, una, behind, near⟩ := kept.live active
  rw [next, una]
  exact serial_sub behind (by omega)

theorem Kept.level (kept : Kept w) (up : w.socket.state = .established)
    (level : w.socket.txBuf.length = (w.socket.seq - w.socket.sndUna).toNat) :
    0 < w.acked ∧ w.stream.drop (w.acked - 1) = w.socket.txBuf.map (·, true) := by
  rw [kept.outstanding (Or.inr up)] at level
  obtain ⟨rest, parts⟩ := kept.copy
  have size := congrArg List.length parts
  simp only [List.length_drop, List.length_append, List.length_map] at size
  have started : 0 < w.acked := by
    apply Nat.pos_of_ne_zero
    intro none
    have empty := kept.opened none
    rw [empty, List.length_nil] at level size
    omega
  have whole : rest = [] := List.length_eq_zero_iff.mp (by omega)
  rw [whole, List.map_nil, List.append_nil] at parts
  exact ⟨started, parts⟩

theorem Kept.send (kept : Kept w) {data : List UInt8} (now : Nat) (some : data ≠ []) (up : w.socket.state = .established)
    (aligned : Aligned w.socket data) : Kept (w.after (.send data now)) := by
  obtain ⟨tries, deadline, after, _⟩ := tcpSendData_spec now up some
  obtain ⟨inStep, bounded⟩ := aligned
  have outstanding := kept.outstanding (Or.inr up)
  obtain ⟨next, una, behind, near⟩ := kept.live (Or.inr up)
  have armed := tcpSendData_timer now some up
  have size : (accepted w.socket (.send data now)).length = data.length := by
    simp only [accepted, up, if_true, List.length_append, List.length_map, List.length_take, List.length_drop]
    omega
  have started : 0 < w.acked ∧ ∃ rest : List UInt8, (w.stream ++ accepted w.socket (.send data now)).drop (w.acked - 1) =
      (w.socket.txBuf ++ data.take (tcpTxBufSize - w.socket.txBuf.length)).map (·, true) ++ rest.map (·, false) := by
    rcases inStep with full | level
    · -- a full copy takes nothing more
      have none : tcpTxBufSize - w.socket.txBuf.length = 0 := by omega
      obtain ⟨rest, parts⟩ := kept.copy
      have some : 0 < w.stream.length := by
        have := congrArg List.length parts
        simp only [List.length_drop, List.length_append, List.length_map, full, tcpTxBufSize] at this
        omega
      have started : 0 < w.acked := by
        apply Nat.pos_of_ne_zero
        intro zero
        rw [kept.opened zero] at some
        exact absurd some (Nat.lt_irrefl 0)
      refine ⟨started, rest ++ data, ?_⟩
      rw [List.drop_append_of_le_length (by omega), parts]
      simp [accepted, up, none]
    · obtain ⟨started, parts⟩ := kept.level up level
      refine ⟨started, data.drop (tcpTxBufSize - w.socket.txBuf.length), ?_⟩
      rw [List.drop_append_of_le_length (by omega), parts]
      simp [accepted, up]
  have same : w.after (.send data now) =
      ⟨(tcpSendData w.socket data now).1, w.stream ++ accepted w.socket (.send data now), w.acked⟩ := by
    simp [SendLine.after, SocketOp.apply, after]
  rw [same]
  refine ⟨fun zero => absurd zero (Nat.ne_of_gt started.1), ?_, fun _ => ?_, ?_, fun _ _ => armed⟩
  · simpa only [after] using started.2
  · simp only [after, List.length_append, size]
    refine ⟨?_, una, by omega, by omega⟩
    rw [next, serial_add]
    congr 2
    omega
  · simp only [after, up]
    rintro ⟨⟩

theorem Acks.drop {number : UInt32} {s' : Socket} (acks : Acks s number s') :
    s'.txBuf = s.txBuf.drop (s'.sndUna - s.sndUna).toNat := by
  rcases acks with ⟨tx, una⟩ | ⟨_, tx, una⟩
  · rw [tx, una, UInt32.sub_self]
    rfl
  · rw [tx, una]

theorem Acks.within {number : UInt32} {s' : Socket} (acks : Acks s number s') :
    (s'.sndUna - s.sndUna).toNat ≤ (s.seq - s.sndUna).toNat := by
  rcases acks with ⟨_, una⟩ | ⟨⟨k, _, le, place⟩, _, una⟩
  · rw [una, UInt32.sub_self]
    exact Nat.zero_le _
  · have distance := serial_sub (n := s.sndUna) (Nat.zero_le k) (Nat.lt_of_le_of_lt le (UInt32.toNat_lt _))
    have whole : (s.sndUna + UInt32.ofNat k - s.sndUna).toNat = k := by simpa using distance
    rw [una, place, whole]
    exact le

theorem Kept.acks (kept : Kept w) {number : UInt32} {s' : Socket} (acks : Acks w.socket number s')
    (active : s'.state = .synSent ∨ s'.state = .established →
      (w.socket.state = .synSent ∨ w.socket.state = .established) ∧ s'.seq = w.socket.seq ∧ s'.iss = w.socket.iss)
    (opening : s'.state = .synSent → w.socket.state = .synSent)
    (timer : s'.state = .established → s'.txBuf ≠ [] → s'.rtoDeadline ≠ 0) :
    Kept ⟨s', w.stream, w.acked + (s'.sndUna - w.socket.sndUna).toNat⟩ := by
  have tx := acks.drop
  obtain ⟨rest, parts⟩ := kept.copy
  refine ⟨fun none => kept.opened (Nat.eq_zero_of_add_eq_zero_right none), ?_, fun now => ?_, fun now => ?_, timer⟩
  · by_cases started : w.acked = 0
    · rw [kept.opened started, List.drop_nil] at parts
      have none : w.socket.txBuf = [] := List.map_eq_nil_iff.mp (List.append_eq_nil_iff.mp parts.symm).1
      refine ⟨[], ?_⟩
      simp [kept.opened started, tx, none]
    · refine ⟨rest.drop ((s'.sndUna - w.socket.sndUna).toNat - w.socket.txBuf.length), ?_⟩
      have place : w.acked + (s'.sndUna - w.socket.sndUna).toNat - 1 =
          w.acked - 1 + (s'.sndUna - w.socket.sndUna).toNat := by omega
      simp only [place, ← List.drop_drop, parts, tx, List.drop_append, List.map_drop, List.length_map]
  · obtain ⟨before, seq, iss⟩ := active now
    obtain ⟨next, una, behind, near⟩ := kept.live before
    have within := acks.within
    rw [kept.outstanding before] at within
    simp only [seq, iss]
    refine ⟨next, ?_, by omega, by omega⟩
    rw [← serial_add, ← una, UInt32.ofNat_toNat, distance_add]
  · simp only [tx, kept.opening (opening now), List.drop_nil]

theorem receiveSocket_active {tcp : TcpHeader} {now : Nat}
    (open_ : (receiveSocket s tcp now).1.state = .synSent ∨ (receiveSocket s tcp now).1.state = .established) :
    (s.state = .synSent ∨ s.state = .established) ∧ (receiveSocket s tcp now).1.seq = s.seq ∧
      (receiveSocket s tcp now).1.iss = s.iss := by
  rcases receiveSocket_sender s tcp now with same | ⟨one, two⟩ | ⟨active, base, before, after⟩
  · rw [same] at open_ ⊢
    exact ⟨open_, rfl, rfl⟩
  · exact absurd open_ (not_or.mpr ⟨one, two⟩)
  · refine ⟨active, ?_⟩
    rcases after with after | after
    · exact ⟨after.seq.trans before.seq, after.iss.trans before.iss⟩
    · rcases tcpHandleAck_cases base tcp.ack now with ⟨_, same⟩ | ⟨_, same⟩
      · rw [same] at after
        exact ⟨after.seq.trans before.seq, after.iss.trans before.iss⟩
      · rw [same] at after
        exact ⟨after.seq.trans before.seq, after.iss.trans before.iss⟩

theorem tcpHandleAck_timer {remoteAck : UInt32} {now : Nat} (timer : s.txBuf ≠ [] → s.rtoDeadline ≠ 0)
    (left : (tcpHandleAck s remoteAck now).txBuf ≠ []) : (tcpHandleAck s remoteAck now).rtoDeadline ≠ 0 := by
  rcases tcpHandleAck_cases s remoteAck now with ⟨_, same⟩ | ⟨_, same⟩
  · rw [same] at left ⊢
    exact timer left
  · rw [same] at left ⊢
    have some : ¬ s.txBuf.length ≤ (remoteAck - s.sndUna).toNat := fun all => left (List.drop_eq_nil_of_le all)
    simp [acknowledged, some, tcpRtoBaseTicks]

theorem receiveSocket_timer {tcp : TcpHeader} {now : Nat} (opening : s.state = .synSent → s.txBuf = [])
    (timer : s.state = .established → s.txBuf ≠ [] → s.rtoDeadline ≠ 0)
    (up : (receiveSocket s tcp now).1.state = .established) (left : (receiveSocket s tcp now).1.txBuf ≠ []) :
    (receiveSocket s tcp now).1.rtoDeadline ≠ 0 := by
  by_cases first : s.state = .synSent
  · have tx := (receiveSocket_acks s tcp now).drop
    rw [opening first, List.drop_nil] at tx
    exact absurd tx left
  · have before := (receiveSocket_left first).2 up
    by_cases quiet : tcp.flags &&& tcpRst = 0
    · have received : receiveSocket s tcp now = receiveEstablished s tcp.flags tcp.seq tcp.ack tcp.data now := by
        simp only [receiveSocket, before, quiet, ne_eq, not_true_eq_false, if_false]
      rw [received] at left ⊢
      obtain ⟨s', from_, rx, ack, shape⟩ := receiveEstablished_fields s tcp.flags tcp.seq tcp.ack tcp.data now
      have side : s'.txBuf ≠ [] → s'.rtoDeadline ≠ 0 := by
        rcases from_ with rfl | rfl
        · exact timer before
        · exact tcpHandleAck_timer (timer before)
      rcases shape with same | ⟨seq, same⟩
      · rw [same] at left ⊢
        exact side left
      · rw [same] at left ⊢
        exact side left
    · simp only [receiveSocket, quiet, ne_eq, not_false_eq_true, if_true] at up
      cases up

theorem pollSocket_timer {now : Nat} (timer : s.state = .established → s.txBuf ≠ [] → s.rtoDeadline ≠ 0)
    (up : (pollSocket now s).1.state = .established) (left : (pollSocket now s).1.txBuf ≠ []) :
    (pollSocket now s).1.rtoDeadline ≠ 0 := by
  unfold pollSocket at up left ⊢
  simp only at up left ⊢
  split at up
  · rename_i idle
    rw [if_pos idle] at left ⊢
    exact timer up left
  rename_i expired
  rw [if_neg expired] at left ⊢
  split at up
  · cases up
  rename_i again
  rw [if_neg again] at left ⊢
  split at up
  · rename_i first
    rw [up] at first
    cases first
  rename_i first
  rw [if_neg first] at left ⊢
  split at up
  · rename_i resends
    rw [if_pos resends]
    exact Nat.ne_of_gt (Nat.add_pos_right _ (Nat.mul_pos (by decide) (Nat.two_pow_pos _)))
  · rename_i nothing
    rw [if_neg nothing] at left
    exact absurd ⟨up, List.length_pos_iff.mpr left⟩ nothing

theorem Kept.after (kept : Kept w) {op : SocketOp}
    (aligned : ∀ data now, op = .send data now → w.socket.state = .established → data ≠ [] → Aligned w.socket data) :
    Kept (w.after op) := by
  cases op with
  | send data now =>
    by_cases idle : data = [] ∨ w.socket.state ≠ .established
    · have nothing : accepted w.socket (.send data now) = [] := by
        rcases idle with rfl | down
        · simp [accepted]
        · simp [accepted, down]
      simpa [SendLine.after, SocketOp.apply, tcpSendData_idle now idle, nothing] using kept
    · obtain ⟨some, up⟩ := not_or.mp idle
      exact kept.send now some (not_not.mp up) (aligned data now rfl (not_not.mp up) some)
  | receive tcp now =>
    have step := kept.acks (receiveSocket_acks w.socket tcp now) receiveSocket_active ?_
      (receiveSocket_timer kept.opening kept.timer)
    · simpa [SendLine.after, accepted, SocketOp.apply] using step
    · intro opening
      by_contra left
      exact (receiveSocket_left left).1 opening
  | poll now =>
    have same : (pollSocket now w.socket).1.txBuf = w.socket.txBuf ∧ (pollSocket now w.socket).1.sndUna = w.socket.sndUna := by
      rcases pollSocket_cases now w.socket with same | ⟨_, _, _, _, same⟩ | ⟨_, _, _, same, _⟩ <;> rw [same] <;> exact ⟨rfl, rfl⟩
    have step := kept.acks (Or.inl same : Acks w.socket 0 (pollSocket now w.socket).1) ?_ ?_ (pollSocket_timer kept.timer)
    · simpa [SendLine.after, accepted, SocketOp.apply] using step
    · rcases pollSocket_cases now w.socket with same | ⟨_, _, one, two, same⟩ | ⟨_, _, _, same, _⟩
      · rw [same]
        exact fun active => ⟨active, rfl, rfl⟩
      · rw [same]
        exact fun active => absurd active (not_or.mpr ⟨one, two⟩)
      · rw [same]
        exact fun active => ⟨active, rfl, rfl⟩
    · intro opening
      exact (@apply_opening w.socket (.poll now) opening).1
  | recv maxLen =>
    obtain ⟨rx, same⟩ := sysNetRecv_fields w.socket maxLen
    simp only [SendLine.after, SocketOp.apply, same, accepted, List.append_nil, UInt32.sub_self]
    exact ⟨kept.opened, kept.copy, kept.live, kept.opening, kept.timer⟩
  | close =>
    have same : Acks w.socket 0 (tcpClose w.socket).1 := by
      unfold tcpClose
      split <;> exact Or.inl ⟨rfl, rfl⟩
    have step := kept.acks same ?_ ?_ ?_
    · simpa [SendLine.after, accepted, SocketOp.apply] using step
    all_goals unfold tcpClose
    · split
      · exact fun active => ⟨active, rfl, rfl⟩
      · exact fun active => by rcases active with now | now <;> cases now
    · split
      · exact id
      · rintro ⟨⟩
    · split
      · exact kept.timer
      · rintro ⟨⟩

end

/-- In every history of a connection, `SYS_NET_SEND` in `ESTABLISHED` returns the number of
bytes and puts them on the connection; those it could copy and that are not acknowledged are in
`tx_buf`, and the retransmission timer runs. -/
theorem tcp_accepted_kept {s : Socket} (fresh : Fresh s) {ops : List SocketOp} {w : SendLine}
    (run : Run SendStep ⟨s, [], 0⟩ ops w) :
    (w.socket.state = .established → ∀ mapped data now n, (sysNetSend w.socket mapped data now).1 = some n →
      n = data.length ∧ transmitted (sysNetSend w.socket mapped data now).2.2 = numbered w.socket.seq data) ∧
    (w.socket.state = .established → w.socket.seq = w.socket.iss + UInt32.ofNat (w.stream.length + 1) ∧
      w.socket.sndUna = w.socket.iss + UInt32.ofNat w.acked) ∧
    ∀ k byte, w.stream[k]? = some (byte, true) → w.acked ≤ k + 1 →
      w.socket.txBuf[k + 1 - w.acked]? = some byte ∧
        (w.socket.state = .established → w.socket.rtoDeadline ≠ 0) := by
  have kept : Kept w := by
    refine run.invariant Kept ⟨fun _ => rfl, ⟨[], ?_⟩, fun _ => ?_, fun _ => fresh.tx, fun _ some => ?_⟩ ?_
    · simp [fresh.tx]
    · exact ⟨fresh.seq, by simp [fresh.una], Nat.zero_le _, show 0 + 1 < 0 + 2 ^ 32 by decide⟩
    · exact absurd fresh.tx some
    · rintro w op next kept ⟨sends, rfl⟩
      exact kept.after fun data now same => (sends data now same).2
  refine ⟨fun up mapped data now n returned => ?_, fun up => ?_, fun k byte listed waiting => ?_⟩
  · unfold sysNetSend at returned ⊢
    split at returned
    · cases returned
    rename_i short
    rw [if_neg short]
    split at returned
    · cases returned
    rename_i valid
    rw [if_neg valid]
    refine ⟨(Option.some.inj returned).symm, ?_⟩
    by_cases some : data = []
    · simp [some, tcpSendData, transmitted, numbered]
    · obtain ⟨_, _, _, wire⟩ := tcpSendData_spec now up some
      exact wire
  · obtain ⟨next, una, _, _⟩ := kept.live (Or.inr up)
    exact ⟨next, una⟩
  · -- the byte is in the unacknowledged part of the stream, and the copied ones come first there
    obtain ⟨rest, parts⟩ := kept.copy
    have started : 0 < w.acked := by
      apply Nat.pos_of_ne_zero
      intro none
      rw [kept.opened none] at listed
      cases listed
    have place : (w.stream.drop (w.acked - 1))[k + 1 - w.acked]? = some (byte, true) := by
      rw [List.getElem?_drop, ← listed]
      congr 1
      omega
    rw [parts, List.getElem?_append] at place
    split at place
    · rename_i inside
      rw [List.length_map] at inside
      have here : w.socket.txBuf[k + 1 - w.acked]? = some byte := by
        simpa using place
      refine ⟨here, fun up => kept.timer up ?_⟩
      exact List.length_pos_iff.mp (Nat.lt_of_le_of_lt (Nat.zero_le _) inside)
    · simp at place

theorem openSocket_sendLine : Run SendStep ⟨openingSocket, [], 0⟩
    [.receive (peerSegment (tcpSyn ||| tcpAck) 7000 (firstIss + 1) []) 101] ⟨openSocket, [], 1⟩ := by
  have run : Run SendStep ⟨openingSocket, [], 0⟩
      ([] ++ [.receive (peerSegment (tcpSyn ||| tcpAck) 7000 (firstIss + 1) []) 101]) ⟨openSocket, [], 1⟩ :=
    Run.nil.snoc ⟨nofun, rfl⟩
  exact run

theorem tcp_accepted_kept_twoBytes : ∃ w, Run SendStep ⟨openingSocket, [], 0⟩
    ([.receive (peerSegment (tcpSyn ||| tcpAck) 7000 (firstIss + 1) []) 101] ++ [.send [1, 2] 102]) w ∧
      w.socket.txBuf[1]? = some 2 ∧ w.socket.rtoDeadline ≠ 0 := by
  have sent : Run SendStep ⟨openingSocket, [], 0⟩
      ([.receive (peerSegment (tcpSyn ||| tcpAck) 7000 (firstIss + 1) []) 101] ++ [.send [1, 2] 102])
      (SendLine.after ⟨openSocket, [], 1⟩ (.send [1, 2] 102)) := by
    refine openSocket_sendLine.snoc ⟨?_, rfl⟩
    rintro data now ⟨rfl, rfl⟩
    exact ⟨by decide, fun _ _ => ⟨Or.inr (by decide), by decide⟩⟩
  have held := (tcp_accepted_kept openingSocket_fresh sent).2.2 1 2 (by decide) (by decide)
  exact ⟨_, sent, held.1, held.2 (by decide)⟩

theorem openSocket_overflows {bytes : List UInt8} (size : bytes.length = tcpTxBufSize) (last : UInt8) :
    ∃ w, Run SendStep ⟨openingSocket, [], 0⟩ ([.receive (peerSegment (tcpSyn ||| tcpAck) 7000 (firstIss + 1) []) 101] ++
        [.send (bytes ++ [last]) 102]) w ∧
      w.socket.state = .established ∧ w.socket.txBuf = bytes ∧ w.acked = 1 ∧
        w.stream[tcpTxBufSize]? = some (last, false) := by
  obtain ⟨_, _, after, _⟩ := @tcpSendData_spec openSocket _ 102 rfl (List.append_ne_nil_of_right_ne_nil bytes (List.cons_ne_nil last []))
  refine ⟨_, openSocket_sendLine.snoc ⟨?_, rfl⟩, ?_, ?_, ?_, ?_⟩
  · rintro data now ⟨rfl, rfl⟩
    have length : (bytes ++ [last]).length = 8193 := by rw [List.length_append, size]; rfl
    exact ⟨by rw [length]; decide, fun _ _ => ⟨Or.inr (by decide), by rw [length]; decide⟩⟩
  · simp only [SendLine.after, SocketOp.apply, after]
    rfl
  · have empty : openSocket.txBuf = [] := rfl
    simp [SendLine.after, SocketOp.apply, after, empty, ← size]
  · simp [SendLine.after, SocketOp.apply, after]
  · simp [SendLine.after, accepted, openSocket, ← size]

theorem uncopied_byte_accepted : ¬ ∀ s ops w, Fresh s → Run SendStep ⟨s, [], 0⟩ ops w → w.socket.state ≠ .closed →
    ∀ k byte copied, w.stream[k]? = some (byte, copied) → w.acked ≤ k + 1 → byte ∈ w.socket.txBuf := by
  intro held
  obtain ⟨w, sent, up, copy, acked, last⟩ := openSocket_overflows (List.length_replicate (n := tcpTxBufSize) (a := 0)) 1
  have kept := held openingSocket _ w openingSocket_fresh sent (by rw [up]; nofun) tcpTxBufSize 1 false last
    (by rw [acked]; exact Nat.le_add_left _ _)
  rw [copy, List.mem_replicate] at kept
  exact absurd kept.2 (by decide)

end RexOs.Net
