import RexOs.Net.TcpHistory

/-! The receiving side of a connection.

The peer sends a stream `S` whose first byte has the number `first`. `Receiving`
says what a socket has made of it: the bytes handed to the reader followed by the
bytes in `rx_buf` are a prefix of `S`, and `ack` is the number after them.
-/

set_option autoImplicit false

namespace RexOs.Net

open RexOs.Library

/-- A segment of the peer's stream, when the receiver has taken `taken` bytes of it. It
carries the bytes from `pos` on, and ends the stream if it has the FIN flag. IPv4 carries
less than `2 ^ 16` bytes. -/
def PeerSegment (S : List UInt8) (first : UInt32) (taken : Nat) (tcp : TcpHeader) : Prop :=
  ∃ pos, tcp.seq = first + UInt32.ofNat pos ∧ tcp.data = (S.drop pos).take tcp.data.length ∧
    pos ≤ taken + 2 ^ 31 ∧ taken ≤ pos + 2 ^ 31 ∧ tcp.data.length < 2 ^ 16 ∧
    (tcp.flags &&& tcpFin ≠ 0 → pos + tcp.data.length = S.length)

/-- `fin` tells whether the end of the stream has been accepted. -/
structure Receiving (S : List UInt8) (first : UInt32) (got : List UInt8) (fin : Bool) (s : Socket) : Prop where
  ordered : got ++ s.rxBuf <+: S
  counted : s.ack = first + UInt32.ofNat ((got ++ s.rxBuf).length + fin.toNat)
  finished : fin = true → got ++ s.rxBuf = S
  phase : s.state = .established ∧ fin = false ∨ s.state = .lastAck ∧ fin = true ∨ s.state = .closed
  room : s.rxBuf.length ≤ tcpRxBufSize

structure SameReceiver (s' s : Socket) : Prop where
  rx : s'.rxBuf = s.rxBuf
  ack : s'.ack = s.ack

section
variable {S got : List UInt8} {first : UInt32} {fin : Bool} {s : Socket}

theorem Receiving.congr (ok : Receiving S first got fin s) {s' : Socket} (same : SameReceiver s' s)
    (state : s'.state = s.state ∨ s'.state = .closed) : Receiving S first got fin s' where
  ordered := by rw [same.rx]; exact ok.ordered
  counted := by rw [same.rx, same.ack]; exact ok.counted
  finished := by rw [same.rx]; exact ok.finished
  phase := by
    rcases state with kept | closed
    · rw [kept]
      exact ok.phase
    · exact Or.inr (Or.inr closed)
  room := by rw [same.rx]; exact ok.room

theorem prefix_extend {xs : List UInt8} (ahead : xs <+: S) (n : Nat) :
    xs ++ (S.drop xs.length).take n <+: S := by
  obtain ⟨rest, rfl⟩ := ahead
  rw [List.drop_left]
  exact (List.prefix_append_right_inj _).mpr (List.take_prefix _ _)

theorem takeData_spec {pos : Nat} {data : List UInt8} (ordered : got ++ s.rxBuf <+: S)
    (counted : s.ack = first + UInt32.ofNat (got ++ s.rxBuf).length) (room : s.rxBuf.length ≤ tcpRxBufSize)
    (slice : data = (S.drop pos).take data.length) (ahead : pos ≤ (got ++ s.rxBuf).length + 2 ^ 31)
    (behind : (got ++ s.rxBuf).length ≤ pos + 2 ^ 31) (short : data.length < 2 ^ 16) :
    ∃ rx ack, (takeData s (first + UInt32.ofNat pos) data).socket = { s with rxBuf := rx, ack := ack } ∧
      got ++ rx <+: S ∧ ack = first + UInt32.ofNat (got ++ rx).length ∧ rx.length ≤ tcpRxBufSize ∧
      ((takeData s (first + UInt32.ofNat pos) data).remoteSeq +
          UInt32.ofNat (takeData s (first + UInt32.ofNat pos) data).data.length = ack →
        pos + data.length = (got ++ rx).length) := by
  generalize taken : (got ++ s.rxBuf).length = r at *
  have level : first + UInt32.ofNat pos + UInt32.ofNat data.length = s.ack → pos + data.length = r := by
    intro same
    rw [serial_add, counted] at same
    exact serial_inj same (by omega) (by omega)
  unfold takeData
  by_cases empty : data.length = 0
  · rw [if_pos empty]
    exact ⟨s.rxBuf, s.ack, rfl, ordered, by rw [taken]; exact counted, room, by rw [taken]; exact level⟩
  rw [if_neg empty]
  simp only
  by_cases overlap : s.ack - (first + UInt32.ofNat pos) < 0x80000000 ∧
      s.ack - (first + UInt32.ofNat pos) < UInt32.ofNat data.length
  · rw [if_pos overlap]
    obtain ⟨half, within⟩ := overlap
    rw [counted] at half within ⊢
    have old : pos ≤ r := by
      by_contra ahead_
      have := serial_sub_behind (n := first) (by omega : r < pos) ahead
      rw [UInt32.lt_iff_toNat_lt] at half
      exact absurd half (Nat.not_lt.mpr this)
    have known : (first + UInt32.ofNat r - (first + UInt32.ofNat pos)).toNat = r - pos :=
      serial_sub old (by omega)
    rw [UInt32.lt_iff_toNat_lt, known, UInt32.toNat_ofNat', Nat.mod_eq_of_lt (by omega)] at within
    have number : first + UInt32.ofNat pos + (first + UInt32.ofNat r - (first + UInt32.ofNat pos)) =
        first + UInt32.ofNat r := by
      rw [UInt32.add_comm, UInt32.sub_add_cancel]
    rw [known, number]
    -- the tail that is new starts where the stream taken so far ends
    have tail : data.drop (r - pos) = (S.drop (got ++ s.rxBuf).length).take (data.length - (r - pos)) := by
      have same : pos + (r - pos) = (got ++ s.rxBuf).length := by omega
      calc data.drop (r - pos) = ((S.drop pos).take data.length).drop (r - pos) := by rw [← slice]
        _ = (S.drop (pos + (r - pos))).take (data.length - (r - pos)) := by rw [List.drop_take, List.drop_drop]
        _ = (S.drop (got ++ s.rxBuf).length).take (data.length - (r - pos)) := by rw [same]
    have size : (data.drop (r - pos)).length = data.length - (r - pos) := List.length_drop
    by_cases fits : UInt32.ofNat s.rxBuf.length + UInt32.ofNat (data.drop (r - pos)).length ≤
        UInt32.ofNat tcpRxBufSize
    · rw [if_pos fits]
      have total : (got ++ (s.rxBuf ++ data.drop (r - pos))).length = pos + data.length := by
        rw [← List.append_assoc, List.length_append, taken, size]
        omega
      refine ⟨_, _, rfl, ?_, ?_, ?_, fun _ => total.symm⟩
      · rw [← List.append_assoc, tail]
        exact prefix_extend ordered _
      · rw [total, serial_add, size]
        congr 2
        omega
      · rw [List.length_append, size]
        rw [UInt32.le_iff_toNat_le, UInt32.toNat_add, size] at fits
        simp only [UInt32.toNat_ofNat', tcpRxBufSize] at *
        omega
    · rw [if_neg fits]
      refine ⟨s.rxBuf, s.ack, rfl, ordered, by rw [taken]; exact counted, room, ?_⟩
      intro same
      rw [counted, serial_add, size] at same
      have := serial_inj same (by omega) (by omega)
      omega
  · rw [if_neg overlap]
    exact ⟨s.rxBuf, s.ack, rfl, ordered, by rw [taken]; exact counted, room, by rw [taken]; exact level⟩

theorem Receiving.receiveEstablished (ok : Receiving S first got fin s) (up : s.state = .established)
    {tcp : TcpHeader} {now : Nat} (segment : PeerSegment S first (got ++ s.rxBuf).length tcp) :
    ∃ fin', Receiving S first got fin' (receiveEstablished s tcp.flags tcp.seq tcp.ack tcp.data now).1 := by
  obtain ⟨pos, number, slice, ahead, behind, short, final⟩ := segment
  have unfinished : fin = false := by
    rcases ok.phase with ⟨_, open_⟩ | ⟨last, _⟩ | closed
    · exact open_
    · rw [up] at last; cases last
    · rw [up] at closed; cases closed
  obtain ⟨state, _, rxSame, ackSame⟩ := tcpHandleAck_fields s tcp.ack now
  -- acknowledgements do not touch the receiving side
  obtain ⟨s', state', same, whole⟩ : ∃ s' : Socket, s'.state = .established ∧ SameReceiver s' s ∧
      (if tcp.flags &&& tcpAck ≠ 0 then tcpHandleAck s tcp.ack now else s) = s' := by
    refine ⟨_, ?_, ?_, rfl⟩
    · split
      · rw [state, up]
      · exact up
    · split
      · exact ⟨rxSame, ackSame⟩
      · exact ⟨rfl, rfl⟩
  have ok' := ok.congr same (Or.inl (by rw [state', up]))
  rw [← same.rx] at ahead behind
  subst unfinished
  obtain ⟨rx, ack, socket, ordered, counted, room, atEnd⟩ :=
    takeData_spec ok'.ordered ok'.counted ok'.room slice ahead behind short
  unfold Net.receiveEstablished
  simp only [whole, number]
  rw [socket]
  by_cases fin : tcp.flags &&& tcpFin ≠ 0
  · rw [if_pos fin]
    by_cases consumed : (takeData s' (first + UInt32.ofNat pos) tcp.data).remoteSeq +
        UInt32.ofNat (takeData s' (first + UInt32.ofNat pos) tcp.data).data.length = ack
    · rw [if_pos consumed]
      have all : got ++ rx = S := ordered.eq_of_length (by rw [← atEnd consumed, final fin])
      refine ⟨true, ordered, ?_, fun _ => all, Or.inr (Or.inl ⟨rfl, rfl⟩), room⟩
      simp only [counted, Bool.toNat_true, ← serial_add]
      rfl
    · rw [if_neg consumed]
      exact ⟨false, ordered, counted, nofun, Or.inl ⟨state', rfl⟩, room⟩
  · rw [if_neg fin]
    split <;> exact ⟨false, ordered, counted, nofun, Or.inl ⟨state', rfl⟩, room⟩

theorem Receiving.receive (ok : Receiving S first got fin s) {tcp : TcpHeader} {now : Nat}
    (segment : PeerSegment S first (got ++ s.rxBuf).length tcp) :
    ∃ fin', Receiving S first got fin' (receiveSocket s tcp now).1 := by
  unfold receiveSocket
  simp only
  split
  · exact ⟨fin, ok.congr ⟨rfl, rfl⟩ (Or.inr rfl)⟩
  rcases ok.phase with ⟨up, _⟩ | ⟨last, _⟩ | closed
  · simp only [up]
    exact ok.receiveEstablished up segment
  · simp only [last]
    split
    · exact ⟨fin, ok.congr ⟨rfl, rfl⟩ (Or.inr rfl)⟩
    · exact ⟨fin, ok⟩
  · simp only [closed]
    exact ⟨fin, ok⟩

theorem Receiving.poll (ok : Receiving S first got fin s) (now : Nat) :
    Receiving S first got fin (pollSocket now s).1 := by
  unfold pollSocket
  simp only
  split
  · exact ok
  split
  · exact ok.congr ⟨rfl, rfl⟩ (Or.inr rfl)
  split
  · exact ok.congr ⟨rfl, rfl⟩ (Or.inl rfl)
  split <;> exact ok.congr ⟨rfl, rfl⟩ (Or.inl rfl)

theorem Receiving.sendData (ok : Receiving S first got fin s) (data : List UInt8) (now : Nat) :
    Receiving S first got fin (tcpSendData s data now).1 := by
  by_cases empty : data = []
  · simpa [tcpSendData, empty] using ok
  by_cases up : s.state = .established
  · obtain ⟨_, _, after, _⟩ := tcpSendData_spec now up empty
    rw [after]
    exact ok.congr ⟨rfl, rfl⟩ (Or.inl rfl)
  · simpa [tcpSendData, empty, up] using ok

/-- The bytes a call of `SYS_NET_RECV` returns. -/
def RecvResult.data : RecvResult → List UInt8
  | .eof => []
  | .bytes data => data

theorem sysNetRecv_spec (s : Socket) (maxLen : Nat) :
    (sysNetRecv s maxLen).1.data ++ (sysNetRecv s maxLen).2.1.rxBuf = s.rxBuf ∧
    ((sysNetRecv s maxLen).1 = .eof → s.rxBuf = [] ∧ s.state ≠ .established ∧ s.state ≠ .synSent) := by
  unfold sysNetRecv
  by_cases empty : s.rxBuf.length = 0
  · have nothing : s.rxBuf = [] := List.eq_nil_of_length_eq_zero empty
    simp only [empty, if_true]
    split
    · rename_i left
      exact ⟨rfl, fun _ => ⟨nothing, left⟩⟩
    · exact ⟨rfl, nofun⟩
  · simp only [empty, if_false]
    exact ⟨List.take_append_drop _ _, nofun⟩

theorem Receiving.recv (ok : Receiving S first got fin s) (maxLen : Nat) :
    Receiving S first (got ++ (sysNetRecv s maxLen).1.data) fin (sysNetRecv s maxLen).2.1 := by
  obtain ⟨rx, same⟩ := sysNetRecv_fields s maxLen
  have moved := (sysNetRecv_spec s maxLen).1
  rw [same] at moved ⊢
  have whole : got ++ (sysNetRecv s maxLen).1.data ++ rx = got ++ s.rxBuf := by
    rw [List.append_assoc, moved]
  refine ⟨?_, ?_, ?_, ok.phase, ?_⟩
  · simp only [whole]
    exact ok.ordered
  · simp only [whole]
    exact ok.counted
  · simp only [whole]
    exact ok.finished
  · have := congrArg List.length moved
    rw [List.length_append] at this
    exact Nat.le_trans (by simp only at this ⊢; omega) ok.room

end

/-- The table and the bytes that `SYS_NET_RECV` has returned for one of its sockets. -/
structure Reader where
  tcp : Tcp
  got : List UInt8

/-- The bytes a step returns to the reader of the socket at `id`. -/
def TcpOp.returned (t : Tcp) (id : Nat) : TcpOp → List UInt8
  | .recv id' maxLen =>
      if id' = id then
        match t.socketAt id with
        | none => []
        | some s => (sysNetRecv s maxLen).1.data
      else []
  | _ => []

/-- The segments that reach the socket at `id` are the peer's; the socket is not closed
or released, and a new one gets memory of its own. -/
def TcpOp.FromPeer (S : List UInt8) (first : UInt32) (id : Nat) (r : Reader) : TcpOp → Prop
  | .connect id' _ _ _ _ _ | .close id' | .release id' => id' ≠ id
  | .receive srcIp _ tcp _ => ∀ s, tcpFindSocket r.tcp.sockets srcIp tcp.srcPort tcp.destPort = some s → s.id = id →
      PeerSegment S first (r.got ++ s.rxBuf).length tcp
  | _ => True

def ReaderStep (S : List UInt8) (first : UInt32) (id : Nat) (r : Reader) (op : TcpOp) (next : Reader) : Prop :=
  op.FromPeer S first id r ∧ next = ⟨(op.apply r.tcp).1, r.got ++ op.returned r.tcp id⟩

/-- The sockets at `id` have received what the reader's record says. -/
def ReaderOk (S : List UInt8) (first : UInt32) (id : Nat) (r : Reader) : Prop :=
  id ∈ r.tcp.sockets.map Socket.id ∧ ∀ s ∈ r.tcp.sockets, s.id = id → ∃ fin, Receiving S first r.got fin s

section
variable {S : List UInt8} {first : UInt32} {id : Nat}

theorem present_step {t : Tcp} {got : List UInt8} {op : TcpOp} (present : id ∈ t.sockets.map Socket.id)
    (peer : op.FromPeer S first id ⟨t, got⟩) : id ∈ (op.apply t).1.sockets.map Socket.id := by
  cases op with
  | connect id' devIp destIp destPort tsc now =>
    simp only [TcpOp.apply, tcpConnect, List.map_cons]
    exact List.mem_cons_of_mem _ present
  | send id' data now => rwa [TcpOp.apply, ids_on]
  | receive srcIp destIp tcp now => rwa [TcpOp.apply, ids_receive]
  | poll now =>
    obtain ⟨s, listed, rfl⟩ := List.mem_map.mp present
    exact List.mem_map.mpr ⟨_, List.mem_map_of_mem listed, pollSocket_id now s⟩
  | recv id' maxLen => rwa [TcpOp.apply, ids_on]
  | close id' => rwa [TcpOp.apply, ids_on]
  | release id' =>
    simp only [TcpOp.apply, tcpRelease]
    split
    · exact present
    · obtain ⟨s, listed, rfl⟩ := List.mem_map.mp present
      have other : ¬ (s.id == id') = true := by simpa using Ne.symm peer
      exact List.mem_map.mpr ⟨s, (List.mem_eraseP_of_neg (p := fun s => s.id == id') other).mpr listed, rfl⟩

theorem reader_step {r next : Reader} {op : TcpOp} (ok : ReaderOk S first id r)
    (step : ReaderStep S first id r op next) : ReaderOk S first id next := by
  obtain ⟨present, good⟩ := ok
  obtain ⟨peer, rfl⟩ := step
  refine ⟨present_step present peer, ?_⟩
  cases op with
  | connect id' devIp destIp destPort tsc now =>
    intro s member same
    simp only [TcpOp.apply, tcpConnect, List.mem_cons] at member
    simp only [TcpOp.returned, List.append_nil]
    rcases member with rfl | listed
    · exact absurd same peer
    · exact good s listed same
  | send id' data now =>
    simp only [TcpOp.returned, List.append_nil]
    refine on_keeps (fun s => s.id = id → ∃ fin, Receiving S first r.got fin s) good fun s _ ok same => ?_
    rw [tcpSendData_id] at same
    obtain ⟨fin, ok⟩ := ok same
    exact ⟨fin, ok.sendData data now⟩
  | receive srcIp destIp tcp now =>
    simp only [TcpOp.returned, List.append_nil]
    refine tcpReceive_keeps (fun s => s.id = id → ∃ fin, Receiving S first r.got fin s) good
      fun s found ok same => ?_
    rw [receiveSocket_id] at same
    obtain ⟨fin, ok⟩ := ok same
    exact ok.receive (peer s found same)
  | poll now =>
    intro s member same
    simp only [TcpOp.apply, tcpPoll, List.mem_map] at member
    simp only [TcpOp.returned, List.append_nil]
    obtain ⟨old, listed, rfl⟩ := member
    rw [pollSocket_id] at same
    obtain ⟨fin, ok⟩ := good old listed same
    exact ⟨fin, ok.poll now⟩
  | recv id' maxLen =>
    intro s member same
    simp only [TcpOp.apply, Tcp.on, TcpOp.returned] at member ⊢
    cases found : r.tcp.socketAt id' with
    | none =>
      simp only [found] at member
      have nothing : (if id' = id then match r.tcp.socketAt id with
          | none => []
          | some s => (sysNetRecv s maxLen).1.data
          else []) = ([] : List UInt8) := by
        split
        · rename_i ours
          rw [← ours, found]
        · rfl
      rw [nothing, List.append_nil]
      exact good s member same
    | some old =>
      simp only [found] at member
      obtain ⟨listed, rfl⟩ := socketAt_some found
      obtain ⟨rx, fields⟩ := sysNetRecv_fields old maxLen
      have kept : (sysNetRecv old maxLen).2.1.id = old.id := by rw [fields]
      rcases mem_put member with rfl | ⟨other, apart⟩
      · rw [kept] at same
        obtain ⟨fin, ok⟩ := good old listed same
        rw [if_pos same, ← same, found]
        exact ⟨fin, ok.recv maxLen⟩
      · rw [kept] at apart
        rw [if_neg (fun ours => apart (by rw [same, ours])), List.append_nil]
        exact good s other same
  | close id' =>
    simp only [TcpOp.returned, List.append_nil]
    refine on_keeps (fun s => s.id = id → ∃ fin, Receiving S first r.got fin s) good fun s found _ same => ?_
    have kept : (tcpClose s).1.id = s.id := by unfold tcpClose; split <;> rfl
    rw [kept, (socketAt_some found).2] at same
    exact absurd same peer
  | release id' =>
    intro s member same
    simp only [TcpOp.returned, List.append_nil]
    have listed : s ∈ r.tcp.sockets := by
      simp only [TcpOp.apply, tcpRelease] at member
      split at member
      · exact member
      · exact List.mem_of_mem_eraseP member
    exact good s listed same

/-- In every history of an established socket, what its reader has been given and what
waits in its buffer are a prefix of the peer's stream that ends at `ack`; the end of the
stream is accepted only when all of it is there. -/
theorem tcp_receive_reliable (S : List UInt8) (first : UInt32) (id : Nat) (t : Tcp)
    (present : id ∈ t.sockets.map Socket.id)
    (fresh : ∀ s ∈ t.sockets, s.id = id → s.state = .established ∧ s.rxBuf = [] ∧ s.ack = first)
    (ops : List TcpOp) (r : Reader) (run : Run (ReaderStep S first id) ⟨t, []⟩ ops r) :
    ∃ s, r.tcp.socketAt id = some s ∧ r.got ++ s.rxBuf <+: S ∧
      (∃ fin : Bool, s.ack = first + UInt32.ofNat ((r.got ++ s.rxBuf).length + fin.toNat) ∧
        (fin = true → r.got ++ s.rxBuf = S) ∧ (s.state = .established → fin = false) ∧
        (s.state = .lastAck → fin = true)) ∧
      ∀ maxLen, (sysNetRecv s maxLen).1 = .eof →
        s.rxBuf = [] ∧ s.state ≠ .established ∧ s.state ≠ .synSent := by
  have initial : ReaderOk S first id ⟨t, []⟩ := by
    refine ⟨present, fun s listed same => ⟨false, ?_⟩⟩
    obtain ⟨up, empty, level⟩ := fresh s listed same
    exact ⟨by simp [empty], by simp [empty, level], nofun, Or.inl ⟨up, rfl⟩, by simp [empty]⟩
  obtain ⟨present, good⟩ := Run.invariant (ReaderOk S first id) initial
    (fun _ _ _ ok step => reader_step ok step) run
  obtain ⟨s, found⟩ : ∃ s, r.tcp.socketAt id = some s := by
    obtain ⟨s, listed, same⟩ := List.mem_map.mp present
    exact Option.isSome_iff_exists.mp (List.find?_isSome.mpr ⟨s, listed, by simpa using same⟩)
  obtain ⟨listed, same⟩ := socketAt_some found
  obtain ⟨fin, ok⟩ := good s listed same
  refine ⟨s, found, ok.ordered, ⟨fin, ok.counted, ok.finished, ?_, ?_⟩, fun maxLen => (sysNetRecv_spec s maxLen).2⟩
  · intro up
    rcases ok.phase with ⟨_, open_⟩ | ⟨last, _⟩ | closed
    · exact open_
    · rw [up] at last; cases last
    · rw [up] at closed; cases closed
  · intro last
    rcases ok.phase with ⟨up, _⟩ | ⟨_, done⟩ | closed
    · rw [up] at last; cases last
    · exact done
    · rw [closed] at last; cases last

end

def finSegment : TcpHeader := peerSegment (tcpFin ||| tcpAck) 7001 (firstIss + 1) [5, 6]

/-- The peer ends its stream, and the reader takes one byte. -/
theorem tcp_receive_reliable_oneSegment :
    ∃ r, Run (ReaderStep [5, 6] 7001 1) ⟨⟨[openSocket], 49153⟩, []⟩
        ([.receive peerIp hostIp finSegment 110] ++ [.recv 1 1]) r ∧
      ∃ s, r.tcp.socketAt 1 = some s ∧ r.got ++ s.rxBuf <+: [5, 6] ∧ r.got = [5] ∧ s.state = .lastAck := by
  have fresh : ∀ s ∈ [openSocket], s.id = 1 → s.state = .established ∧ s.rxBuf = [] ∧ s.ack = 7001 := by
    intro s listed _
    rw [List.mem_singleton] at listed
    subst listed
    exact ⟨rfl, rfl, rfl⟩
  have peer : (TcpOp.receive peerIp hostIp finSegment 110).FromPeer [5, 6] 7001 1
      ⟨⟨[openSocket], 49153⟩, []⟩ := by
    intro s found _
    have listed : s ∈ [openSocket] := List.mem_of_find?_eq_some found
    rw [List.mem_singleton] at listed
    subst listed
    exact ⟨0, by decide⟩
  have received : Run (ReaderStep [5, 6] 7001 1) ⟨⟨[openSocket], 49153⟩, []⟩
      ([] ++ [.receive peerIp hostIp finSegment 110]) _ := Run.nil.snoc ⟨peer, rfl⟩
  have run : Run (ReaderStep [5, 6] 7001 1) ⟨⟨[openSocket], 49153⟩, []⟩
      ([.receive peerIp hostIp finSegment 110] ++ [.recv 1 1]) _ := received.snoc ⟨trivial, rfl⟩
  obtain ⟨s, found, ordered, _⟩ :=
    tcp_receive_reliable [5, 6] 7001 1 ⟨[openSocket], 49153⟩ (by decide) fresh _ _ run
  refine ⟨_, run, s, found, ordered, by decide, ?_⟩
  have state := congrArg (Option.map Socket.state) found
  rw [Option.map_some] at state
  exact Option.some.inj (state.symm.trans (by decide))

end RexOs.Net
