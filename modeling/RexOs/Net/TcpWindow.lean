import RexOs.Net.TcpDelivered

/-! The window that a socket advertises.

Every segment tells the peer up to where it may send: `ack` and the free space of
`rx_buf`. Data moves both by the same amount and `SYS_NET_RECV` frees space only, so
this right edge never moves back, and what lies within it always fits into the buffer.
-/

set_option autoImplicit false

namespace RexOs.Net

open RexOs.Library

/-- A socket with what it has advertised while `ESTABLISHED`. -/
structure Window where
  socket : Socket
  /-- `ack` as a counter that does not wrap. -/
  pos : Nat
  /-- The right edges of the segments sent, in order. -/
  edges : List Nat

/-- The right edge of a segment that is sent while `ack` of `s` stands at `pos`. -/
def rightEdge (s : Socket) (pos : Nat) (x : Sent) : Nat :=
  pos + (x.segment.ack - s.ack).toNat + x.segment.windowSize.toNat

def Window.after (w : Window) (op : SocketOp) : Window :=
  let (s', sent) := op.apply w.socket
  if w.socket.state = .established then
    ⟨s', w.pos + (s'.ack - w.socket.ack).toNat, w.edges ++ sent.map (rightEdge w.socket w.pos)⟩
  else if s'.state = .established then ⟨s', s'.ack.toNat, sent.map (rightEdge s' s'.ack.toNat)⟩
  else ⟨s', w.pos, w.edges⟩

def WindowStep (w : Window) (op : SocketOp) (next : Window) : Prop := op.Fits ∧ next = w.after op

def space (s : Socket) : Nat := tcpRxBufSize - s.rxBuf.length

structure Promised (w : Window) : Prop where
  room : w.socket.rxBuf.length ≤ tcpRxBufSize
  sorted : w.edges.Pairwise (· ≤ ·)
  counter : w.socket.state = .established → UInt32.ofNat w.pos = w.socket.ack
  within : w.socket.state = .established → ∀ edge ∈ w.edges, edge ≤ w.pos + space w.socket

section
variable {s s' : Socket} {op : SocketOp}

theorem tcpFreeWindow_space (s : Socket) : (tcpFreeWindow s).toNat = space s := by
  have free : (if s.rxBuf.length ≥ tcpRxBufSize then 0 else tcpRxBufSize - s.rxBuf.length) = space s := by
    unfold space
    split <;> omega
  have short : ¬ space s > 0xFFFF := by
    simp only [space, tcpRxBufSize]
    omega
  unfold tcpFreeWindow
  simp only [free, if_neg short]
  exact UInt16.toNat_ofNat_of_lt' (Nat.lt_succ_of_le (Nat.not_lt.mp short))

theorem rightEdge_eq {x : Sent} (pos : Nat) (carries : Carries s' x) (flag : x.segment.flags &&& tcpAck ≠ 0) :
    rightEdge s pos x = pos + (s'.ack - s.ack).toNat + space s' := by
  rw [rightEdge, carries.ack flag, carries.window, tcpFreeWindow_space]

theorem Delivers.space {tcp : TcpHeader} {new : List UInt8} {fin : Bool} (delivers : Delivers s s' tcp new fin)
    (small : new.length < 2 ^ 16) : space s ≤ (s'.ack - s.ack).toNat + space s' := by
  have moved : (s'.ack - s.ack).toNat = new.length + (if fin then 1 else 0) := by
    rw [delivers.moved]
    cases fin with
    | false =>
      have := serial_sub (n := s.ack) (Nat.zero_le new.length) (by omega)
      simpa using this
    | true =>
      have := serial_sub (n := s.ack) (Nat.zero_le (new.length + 1)) (by omega)
      simpa [UInt32.add_assoc] using this
  have stored := congrArg List.length delivers.stored
  rw [List.length_append] at stored
  simp only [Net.space, moved, stored]
  omega

theorem receiveSocket_up {tcp : TcpHeader} (now : Nat) (up : s.state = .established)
    (small : tcpHeaderSize + tcp.optionsAndPayload.length < 2 ^ 16) (room : s.rxBuf.length ≤ tcpRxBufSize) :
    ∃ new fin, new.length < 2 ^ 16 ∧ Delivers s (receiveSocket s tcp now).1 tcp new fin := by
  have short : tcp.data.length < 2 ^ 16 := by
    simp only [TcpHeader.data, List.length_drop]
    omega
  by_cases quiet : tcp.flags &&& tcpRst = 0
  · obtain ⟨new, fin, delivers⟩ := receiveEstablished_delivers now short room
    refine ⟨new, fin, ?_, ?_⟩
    · rcases delivers.place with rfl | ⟨k, _, rfl⟩
      · exact Nat.two_pow_pos 16
      · rw [List.length_drop]
        omega
    · simpa only [receiveSocket, up, quiet, ne_eq, not_true_eq_false, if_false] using delivers
  · refine ⟨[], false, Nat.two_pow_pos 16, Delivers.nothing ?_ ?_⟩
    all_goals simp only [receiveSocket, quiet, ne_eq, not_false_eq_true, if_true]

theorem apply_edge (up : s.state = .established) (fits : op.Fits) (room : s.rxBuf.length ≤ tcpRxBufSize) :
    space s ≤ ((op.apply s).1.ack - s.ack).toNat + space (op.apply s).1 := by
  by_cases segment : ∃ tcp now, op = .receive tcp now
  · obtain ⟨tcp, now, rfl⟩ := segment
    obtain ⟨new, fin, small, delivers⟩ := receiveSocket_up now up fits room
    exact delivers.space small
  · -- a call leaves `ack` alone, and nothing but a segment fills `rx_buf`
    have call : ∀ tcp now, op ≠ .receive tcp now := fun tcp now same => segment ⟨tcp, now, same⟩
    have shorter := apply_rx_call (s := s) op call
    simp only [space]
    omega

theorem apply_established_sent (down : s.state ≠ .established) (after : (op.apply s).1.state = .established) :
    (op.apply s).2 = tcpSendSegment (op.apply s).1 tcpAck [] := by
  obtain ⟨tcp, now, rfl, opening, quiet, answer⟩ := apply_establishes down after
  unfold TcpHeader.IsSynAck at answer
  simp only [SocketOp.apply, receiveSocket, quiet, opening, answer, ne_eq, not_true_eq_false, if_false, if_true]

end

section
variable {w : Window} {op : SocketOp}

theorem sorted_of_eq {edges : List Nat} {edge : Nat} (same : ∀ a ∈ edges, a = edge) : edges.Pairwise (· ≤ ·) := by
  apply List.pairwise_of_forall_mem_list
  intro a inA b inB
  exact Nat.le_of_eq ((same a inA).trans (same b inB).symm)

theorem edges_append (up : w.socket.state = .established) (fits : op.Fits) (promised : Promised w) :
    (w.edges ++ (op.apply w.socket).2.map (rightEdge w.socket w.pos)).Pairwise (· ≤ ·) ∧
      ∀ edge ∈ w.edges ++ (op.apply w.socket).2.map (rightEdge w.socket w.pos),
        edge ≤ w.pos + ((op.apply w.socket).1.ack - w.socket.ack).toNat + space (op.apply w.socket).1 := by
  have forward := apply_edge up fits promised.room
  obtain ⟨before, after, parts, first, last⟩ := apply_emits w.socket op
  have left : w.socket.state ≠ .synSent := by
    rw [up]
    nofun
  have early : ∀ edge ∈ before.map (rightEdge w.socket w.pos), edge = w.pos + space w.socket := by
    intro edge member
    obtain ⟨x, sent, rfl⟩ := List.mem_map.mp member
    have flag := (first x sent).flagged.resolve_left left
    rw [rightEdge_eq w.pos (first x sent) flag, UInt32.sub_self]
    rfl
  have late : ∀ edge ∈ after.map (rightEdge w.socket w.pos),
      edge = w.pos + ((op.apply w.socket).1.ack - w.socket.ack).toNat + space (op.apply w.socket).1 := by
    intro edge member
    obtain ⟨x, sent, rfl⟩ := List.mem_map.mp member
    have flag := (last x sent).flagged.resolve_left (fun opening => left (apply_opening opening).1)
    exact rightEdge_eq w.pos (last x sent) flag
  rw [parts, List.map_append]
  constructor
  · refine List.pairwise_append.mpr ⟨promised.sorted, List.pairwise_append.mpr ⟨?_, ?_, ?_⟩, ?_⟩
    · exact sorted_of_eq early
    · exact sorted_of_eq late
    · intro a inA b inB
      rw [early a inA, late b inB]
      omega
    · intro a inA b inB
      have within := promised.within up a inA
      rcases List.mem_append.mp inB with inB | inB
      · rw [early b inB]
        exact within
      · rw [late b inB]
        omega
  · intro edge member
    rcases List.mem_append.mp member with old | new
    · have within := promised.within up edge old
      omega
    rcases List.mem_append.mp new with inB | inB
    · rw [early edge inB]
      omega
    · exact Nat.le_of_eq (late edge inB)

theorem Promised.after (promised : Promised w) (fits : op.Fits) : Promised (w.after op) := by
  have room := apply_rx fits promised.room
  unfold Window.after
  simp only
  split
  · rename_i up
    obtain ⟨sorted, within⟩ := edges_append up fits promised
    refine ⟨room, sorted, fun _ => ?_, fun _ => within⟩
    show UInt32.ofNat (w.pos + _) = _
    rw [UInt32.ofNat_add, promised.counter up, UInt32.ofNat_toNat, distance_add]
  rename_i down
  split
  · rename_i up
    -- the first segment of the connection sets the first edge
    have sent := apply_established_sent down up
    have first : ∀ edge ∈ (op.apply w.socket).2.map (rightEdge (op.apply w.socket).1 (op.apply w.socket).1.ack.toNat),
        edge = (op.apply w.socket).1.ack.toNat + space (op.apply w.socket).1 := by
      intro edge listed
      obtain ⟨x, member, rfl⟩ := List.mem_map.mp listed
      rw [sent] at member
      have carries := carries_tcpSendSegment (s := (op.apply w.socket).1) member (by decide) rfl rfl
      have flag := carries.flagged.resolve_left (by rw [up]; decide)
      rw [rightEdge_eq _ carries flag, UInt32.sub_self]
      rfl
    exact ⟨room, sorted_of_eq first, fun _ => UInt32.ofNat_toNat, fun _ edge listed => Nat.le_of_eq (first edge listed)⟩
  · rename_i down'
    exact ⟨room, promised.sorted, fun up => absurd up down', fun up => absurd up down'⟩

theorem receiveSocket_accepts {s : Socket} {tcp : TcpHeader} (now : Nat) (up : s.state = .established)
    (small : tcpHeaderSize + tcp.optionsAndPayload.length < 2 ^ 16) (room : s.rxBuf.length ≤ tcpRxBufSize)
    (quiet : tcp.flags &&& tcpRst = 0) (brings : Brings s tcp.seq tcp.data)
    (fits : tcp.data.length - known s tcp.seq ≤ space s) :
    ∃ fin, Delivers s (receiveSocket s tcp now).1 tcp (tcp.data.drop (known s tcp.seq)) fin := by
  have short : tcp.data.length < 2 ^ 16 := by
    simp only [TcpHeader.data, List.length_drop]
    omega
  have received : receiveSocket s tcp now = receiveEstablished s tcp.flags tcp.seq tcp.ack tcp.data now := by
    simp only [receiveSocket, up, quiet, ne_eq, not_true_eq_false, if_false]
  rw [received]
  exact receiveEstablished_takes now short brings (by simp only [space] at fits; omega)

end

/-- In every history of a connection the advertised edges are in order, and whatever the
last one allows the peer to send is stored. -/
theorem tcp_window_kept {s : Socket} (fresh : Fresh s) {ops : List SocketOp} {w : Window}
    (run : Run WindowStep ⟨s, 0, []⟩ ops w) :
    w.edges.Pairwise (· ≤ ·) ∧ (w.socket.state = .established → UInt32.ofNat w.pos = w.socket.ack ∧
      ∀ tcp now last, tcpHeaderSize + tcp.optionsAndPayload.length < 2 ^ 16 → tcp.flags &&& tcpRst = 0 →
        Brings w.socket tcp.seq tcp.data → last ∈ w.edges.getLast? →
        w.pos + (tcp.data.length - known w.socket tcp.seq) ≤ last →
        ∃ fin, Delivers w.socket (receiveSocket w.socket tcp now).1 tcp (tcp.data.drop (known w.socket tcp.seq)) fin) := by
  have promised : Promised w := by
    refine run.invariant Promised ⟨?_, List.Pairwise.nil, ?_, fun _ _ member => absurd member List.not_mem_nil⟩ ?_
    · show s.rxBuf.length ≤ _
      rw [fresh.rx]
      exact Nat.zero_le _
    · intro up
      have opening := fresh.state
      rw [up] at opening
      cases opening
    · rintro w op next promised ⟨fits, rfl⟩
      exact promised.after fits
  refine ⟨promised.sorted, fun up => ⟨promised.counter up, ?_⟩⟩
  intro tcp now last small quiet brings advertised inside
  apply receiveSocket_accepts now up small promised.room quiet brings
  have within := promised.within up last (List.mem_of_getLast? advertised)
  omega

/-- The first byte of the peer, right after the handshake. -/
theorem tcp_window_kept_firstByte :
    Run WindowStep ⟨openingSocket, 0, []⟩ [.receive (peerSegment (tcpSyn ||| tcpAck) 7000 (firstIss + 1) []) 101]
        ⟨openSocket, 7001, [7001 + 32768]⟩ ∧
      ∃ fin, Delivers openSocket (receiveSocket openSocket (peerSegment tcpAck 7001 (firstIss + 1) [5]) 102).1
        (peerSegment tcpAck 7001 (firstIss + 1) [5]) [5] fin := by
  have run : Run WindowStep ⟨openingSocket, 0, []⟩ ([] ++ [.receive (peerSegment (tcpSyn ||| tcpAck) 7000 (firstIss + 1) []) 101])
      ⟨openSocket, 7001, [7001 + 32768]⟩ := Run.nil.snoc ⟨by decide, rfl⟩
  refine ⟨run, ?_⟩
  exact ((tcp_window_kept openingSocket_fresh run).2 rfl).2 (peerSegment tcpAck 7001 (firstIss + 1) [5]) 102 (7001 + 32768)
    (by decide) (by decide) ⟨by decide, by decide⟩ rfl (by decide)

end RexOs.Net
