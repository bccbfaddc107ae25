import RexOs.Net.TcpBounds

/-! Cutting a payload into segments.

`tcp_send_data` and the replay in `tcp_poll` cut their bytes in two different loops. Both are
described by `Segments`: the slices follow each other, in the payload and in the numbers.
-/

set_option autoImplicit false

namespace RexOs.Net

open RexOs.Library

variable {limit : Nat} {start : UInt32} {payload : List UInt8} {sent : List Sent} {s : Socket}

def carried (sent : List Sent) : List UInt8 := sent.flatMap fun x => x.segment.data

/-- The payload in slices of `limit` bytes, one segment for each, numbered from `start` on. -/
structure Segments (limit : Nat) (start : UInt32) (payload : List UInt8) (sent : List Sent) : Prop where
  whole : carried sent = payload
  count : sent.length = (payload.length + (limit - 1)) / limit
  small : ∀ x ∈ sent, x.segment.data.length ≤ limit
  numbers : ∀ i x, sent[i]? = some x → x.segment.seq = start + UInt32.ofNat (carried (sent.take i)).length
  pushed : ∀ i x, sent[i]? = some x → (x.segment.flags &&& tcpPsh ≠ 0 ↔ i + 1 = sent.length)

theorem Segments.nil (limit : Nat) (start : UInt32) : Segments limit start [] [] where
  whole := rfl
  count := by
    cases limit with
    | zero => rfl
    | succ n => exact (Nat.div_eq_of_lt (by simp)).symm
  small := by
    intro x member
    cases member
  numbers := by
    intro i x found
    cases found
  pushed := by
    intro i x found
    cases found

theorem Segments.cons (positive : 0 < limit) {x : Sent} (nonempty : payload ≠ []) (data : x.segment.data = payload.take limit)
    (number : x.segment.seq = start) (push : x.segment.flags &&& tcpPsh ≠ 0 ↔ payload.length ≤ limit)
    (rest : Segments limit (start + UInt32.ofNat (payload.take limit).length) (payload.drop limit) sent) :
    Segments limit start payload (x :: sent) := by
  have some : 0 < payload.length := List.length_pos_iff.mpr nonempty
  have later : (payload.drop limit).length = payload.length - limit := List.length_drop
  -- a slice that is not full is the last one, so the number of slices is rounded up
  have count : (x :: sent).length = (payload.length + (limit - 1)) / limit := by
    rw [List.length_cons, rest.count, later]
    by_cases more : limit < payload.length
    · have parts : payload.length + (limit - 1) = (payload.length - limit + (limit - 1)) + limit := by omega
      rw [parts, Nat.add_div_right _ positive]
    · have none : (payload.length - limit + (limit - 1)) / limit = 0 := Nat.div_eq_of_lt (by omega)
      have one : (payload.length + (limit - 1)) / limit = 1 :=
        Nat.div_eq_of_lt_le (by omega) (by omega)
      rw [none, one]
  refine ⟨?_, count, ?_, ?_, ?_⟩
  · rw [carried, List.flatMap_cons, data]
    exact (congrArg _ rest.whole).trans (List.take_append_drop limit payload)
  · intro y member
    rcases List.mem_cons.mp member with rfl | member
    · rw [data, List.length_take]
      exact Nat.min_le_left _ _
    · exact rest.small y member
  · intro i y found
    cases i with
    | zero =>
      cases found
      rw [number]
      exact (UInt32.add_zero start).symm
    | succ i =>
      have before : (carried ((x :: sent).take (i + 1))).length =
          (payload.take limit).length + (carried (sent.take i)).length := by
        rw [List.take_succ_cons, carried, List.flatMap_cons, List.length_append, data]
        rfl
      rw [before, ← serial_add]
      exact rest.numbers i y found
  · -- the first slice is the last one when the payload fits into it
    intro i y found
    cases i with
    | zero =>
      cases found
      rw [push, count]
      constructor
      · intro short
        exact (Nat.div_eq_of_lt_le (by omega) (by omega)).symm
      · intro alone
        have room := Nat.lt_mul_div_succ (payload.length + (limit - 1)) positive
        rw [← alone] at room
        omega
    | succ i =>
      rw [rest.pushed i y found, List.length_cons]
      omega

theorem tcpAck_push (last : Prop) [Decidable last] :
    (tcpAck ||| (if last then tcpPsh else 0)) &&& tcpSyn = 0 ∧
      ((tcpAck ||| (if last then tcpPsh else 0)) &&& tcpPsh ≠ 0 ↔ last) := by
  by_cases holds : last
  · simp only [holds, if_true]
    decide
  · simp only [holds, if_false]
    decide

theorem tcpOutput_sends {flags : UInt8} (s : Socket) (seq : UInt32) (data : List UInt8) (plain : flags &&& tcpSyn = 0)
    (small : data.length ≤ tcpOurMss) :
    ∃ x, tcpOutput s flags seq data = [x] ∧ x.segment.seq = seq ∧ x.segment.data = data ∧ x.segment.flags = flags := by
  have fits : ¬ tcpHeaderSize + 0 + data.length > 2048 := by
    simp only [tcpOurMss, tcpHeaderSize] at *
    omega
  simp only [tcpOutput, plain, ne_eq, not_true_eq_false, if_false, List.length_nil, fits]
  exact ⟨_, rfl, rfl, rfl, rfl⟩

theorem sendLoop_segments {mss : Nat} (positive : 0 < mss) (small : mss ≤ tcpOurMss) :
    ∀ (fuel : Nat) (s : Socket) (data : List UInt8), data.length ≤ fuel →
      Segments mss s.seq data (sendLoop mss fuel s data).2 := by
  intro fuel
  induction fuel with
  | zero =>
    intro s data enough
    obtain rfl : data = [] := List.eq_nil_of_length_eq_zero (by omega)
    exact Segments.nil mss s.seq
  | succ fuel ih =>
    intro s data enough
    rw [sendLoop]
    by_cases empty : data = []
    · rw [if_pos empty, empty]
      exact Segments.nil mss s.seq
    rw [if_neg empty]
    have nonempty : 0 < data.length := List.length_pos_iff.mpr empty
    have short : (data.take mss).length = min mss data.length := List.length_take
    obtain ⟨plain, push⟩ := tcpAck_push ((data.take mss).length = data.length)
    obtain ⟨x, one, number, slice, flags⟩ := tcpOutput_sends s s.seq (data.take mss) plain (by omega)
    have rest := ih { s with seq := s.seq + UInt32.ofNat (data.take mss).length } (data.drop mss)
      (by rw [List.length_drop]; omega)
    simp only [tcpSendSegment, one, List.singleton_append]
    refine Segments.cons positive empty slice number ?_ rest
    rw [flags, push]
    omega

theorem resendLoop_segments (s : Socket) {mss : Nat} (positive : 0 < mss) (small : mss ≤ tcpOurMss) :
    ∀ fuel off : Nat, s.txBuf.length ≤ off + fuel →
      Segments mss (s.sndUna + UInt32.ofNat off) (s.txBuf.drop off) (resendLoop s mss fuel off) := by
  intro fuel
  induction fuel with
  | zero =>
    intro off enough
    rw [Nat.add_zero] at enough
    rw [List.drop_eq_nil_of_le enough]
    exact Segments.nil mss _
  | succ fuel ih =>
    intro off enough
    rw [resendLoop]
    by_cases more : off < s.txBuf.length
    · rw [if_pos more]
      have left : (s.txBuf.drop off).length = s.txBuf.length - off := List.length_drop
      obtain ⟨chunk, size⟩ : ∃ chunk, chunk = if s.txBuf.length - off > mss then mss else s.txBuf.length - off := ⟨_, rfl⟩
      simp only [← size]
      have least : chunk = min mss (s.txBuf.length - off) := by
        rw [size]
        split <;> omega
      -- the chunk is the slice that `tcp_send_data` cuts
      have slice : (s.txBuf.drop off).take chunk = (s.txBuf.drop off).take mss := by
        rw [least, ← left, ← List.take_eq_take_min]
      have length : ((s.txBuf.drop off).take mss).length = chunk := by rw [List.length_take, left, least]
      obtain ⟨plain, push⟩ := tcpAck_push (off + chunk = s.txBuf.length)
      obtain ⟨x, one, number, data, flags⟩ :=
        tcpOutput_sends s (s.sndUna + UInt32.ofNat off) ((s.txBuf.drop off).take mss) plain (by omega)
      have rest := ih (off + chunk) (by omega)
      have after : s.txBuf.drop (off + chunk) = (s.txBuf.drop off).drop mss := by
        rw [List.drop_drop]
        by_cases last : s.txBuf.length ≤ off + mss
        · rw [List.drop_eq_nil_of_le last, List.drop_eq_nil_of_le (by omega)]
        · have full : chunk = mss := by omega
          rw [full]
      rw [slice, one, List.singleton_append]
      refine Segments.cons positive (List.ne_nil_of_length_pos (by omega)) data number ?_ ?_
      · rw [flags, push, left]
        omega
      · rw [length, serial_add, ← after]
        exact rest
    · rw [if_neg more, List.drop_eq_nil_of_le (by omega)]
      exact Segments.nil mss _

/-- `min(peer_mss or 536, 1460)`. -/
def Socket.sliceSize (s : Socket) : Nat := min s.mss tcpOurMss

theorem Socket.sliceSize_positive (s : Socket) : 0 < s.sliceSize :=
  Nat.lt_min.mpr ⟨s.mss_positive, by decide⟩

theorem Bounds.sliceSize (ok : Bounds s) : s.mss = s.sliceSize := by
  refine (Nat.min_eq_left ?_).symm
  unfold Socket.mss
  split
  · rename_i some
    exact (ok.mss.resolve_left some).2
  · decide

/-- `tcp_poll` has something to replay for the socket. -/
structure Due (s : Socket) (now : Nat) : Prop where
  armed : s.rtoDeadline ≠ 0
  expired : s.rtoDeadline ≤ now
  tries : s.rtoTries < tcpMaxRetries
  pending : s.txBuf ≠ []

theorem tcpSendData_sent (s : Socket) (data : List UInt8) (now : Nat) (up : s.state = .established) :
    Segments s.sliceSize s.seq data (tcpSendData s data now).2 ∧
      (tcpSendData s data now).1.seq = s.seq + UInt32.ofNat data.length := by
  by_cases empty : data = []
  · subst empty
    refine ⟨Segments.nil _ _, (UInt32.add_zero s.seq).symm⟩
  have cap : (if s.mss > tcpOurMss then tcpOurMss else s.mss) = s.sliceSize := by
    rw [Socket.sliceSize]
    split <;> omega
  obtain ⟨_, _, after, _⟩ := tcpSendData_spec now up empty
  refine ⟨?_, by rw [after]⟩
  rw [tcpSendData, if_neg empty, if_neg (not_not_intro up)]
  simp only [cap]
  exact sendLoop_segments s.sliceSize_positive (Nat.min_le_right _ _) data.length
    { s with txBuf := s.txBuf ++ data.take (tcpTxBufSize - s.txBuf.length) } data (Nat.le_refl _)

theorem pollSocket_sent (ok : Bounds s) {now : Nat} (up : s.state = .established) (due : Due s now) :
    Segments s.sliceSize s.sndUna s.txBuf (pollSocket now s).2 := by
  have waiting : ¬ (s.rtoDeadline = 0 ∨ now < s.rtoDeadline) := by
    have armed := due.armed
    have expired := due.expired
    omega
  have calm : ¬ s.state = .synSent := by
    rw [up]
    decide
  have pending : s.state = .established ∧ s.txBuf.length > 0 := ⟨up, List.length_pos_iff.mpr due.pending⟩
  have replay := resendLoop_segments
    { s with rtoTries := s.rtoTries + 1, rtoDeadline := now + tcpRtoBaseTicks * 2 ^ (s.rtoTries + 1) }
    s.sliceSize_positive (Nat.min_le_right _ _) s.txBuf.length 0 (Nat.le_add_left _ _)
  simp only [show s.sndUna + UInt32.ofNat 0 = s.sndUna from UInt32.add_zero _, List.drop_zero] at replay
  rw [pollSocket, if_neg waiting, if_neg (Nat.not_le.mpr due.tries)]
  simp only
  rw [if_neg calm, if_pos pending]
  rw [← ok.sliceSize] at replay ⊢
  exact replay

theorem pollSocket_idle {now : Nat} (up : s.state = .established) (idle : ¬ Due s now) : (pollSocket now s).2 = [] := by
  have calm : ¬ s.state = .synSent := by
    rw [up]
    decide
  unfold pollSocket
  split
  · rfl
  split
  · rfl
  rename_i waiting tries
  simp only [calm, if_false]
  split
  · rename_i pending
    obtain ⟨armed, expired⟩ := not_or.mp waiting
    exact absurd ⟨armed, Nat.not_lt.mp expired, Nat.not_le.mp tries, List.length_pos_iff.mp pending.2⟩ idle
  · rfl

/-- Nothing is lost when a payload is cut into segments, for the first time or again. -/
theorem tcp_segmentation (ok : Bounds s) (up : s.state = .established) :
    (∀ data now, Segments s.sliceSize s.seq data (tcpSendData s data now).2 ∧
      (tcpSendData s data now).1.seq = s.seq + UInt32.ofNat data.length) ∧
    ∀ now, (Due s now → Segments s.sliceSize s.sndUna s.txBuf (pollSocket now s).2) ∧
      (¬ Due s now → (pollSocket now s).2 = []) :=
  ⟨fun data now => tcpSendData_sent s data now up,
    fun _ => ⟨fun due => pollSocket_sent ok up due, fun idle => pollSocket_idle up idle⟩⟩

def sendingSocket : Socket :=
  { id := 0, state := .established, devIp := ⟨10, 0, 2, 15⟩, remoteIp := ⟨10, 0, 2, 2⟩, localPort := 49152, remotePort := 80
    iss := 0, seq := 4, sndUna := 1, ack := 1, peerMss := 64, rxBuf := [], txBuf := [1, 2, 3], rtoDeadline := 30
    rtoTries := 0 }

theorem sendingSocket_bounds : Bounds sendingSocket := ⟨by decide, by decide, by decide, Or.inr (by decide)⟩

theorem tcp_segmentation_sendingSocket : Bounds sendingSocket ∧ sendingSocket.state = .established ∧
    (∀ data now, Segments 64 4 data (tcpSendData sendingSocket data now).2 ∧
      (tcpSendData sendingSocket data now).1.seq = 4 + UInt32.ofNat data.length) ∧
    ∀ now, (Due sendingSocket now → Segments 64 1 [1, 2, 3] (pollSocket now sendingSocket).2) ∧
      (¬ Due sendingSocket now → (pollSocket now sendingSocket).2 = []) :=
  ⟨sendingSocket_bounds, rfl, tcp_segmentation sendingSocket_bounds rfl⟩

end RexOs.Net
