import RexOs.Net.TcpSend

/-! Histories of the socket table.

Tasks and the network interrupt act on the table one call at a time. A history
records, for each socket, the bytes its application has put on the wire.
-/

set_option autoImplicit false

namespace RexOs.Net

open RexOs.Library

inductive TcpOp where
  | connect (id : Nat) (devIp destIp : Ip4Addr) (destPort : UInt16) (tsc : UInt64) (now : Nat)
  | send (id : Nat) (data : List UInt8) (now : Nat)
  | receive (srcIp destIp : Ip4Addr) (tcp : TcpHeader) (now : Nat)
  | poll (now : Nat)
  | recv (id : Nat) (maxLen : Nat)
  | close (id : Nat)
  | release (id : Nat)

def Tcp.on (t : Tcp) (id : Nat) (call : Socket → Socket × List Sent) : Tcp × List Sent :=
  match t.socketAt id with
  | none => (t, [])
  | some s => (t.put (call s).1, (call s).2)

def TcpOp.apply (t : Tcp) : TcpOp → Tcp × List Sent
  | .connect id devIp destIp destPort tsc now => tcpConnect t id devIp destIp destPort tsc now
  | .send id data now => t.on id fun s => tcpSendData s data now
  | .receive srcIp destIp tcp now => tcpReceive t srcIp destIp tcp now
  | .poll now => tcpPoll t now
  | .recv id maxLen => t.on id fun s => (sysNetRecv s maxLen).2
  | .close id => t.on id tcpClose
  | .release id => tcpRelease t id

/-- The table and what each socket's application has put on the wire. -/
structure TcpLine where
  tcp : Tcp
  log : Nat → List (UInt32 × UInt8)

def TcpOp.logAfter (log : Nat → List (UInt32 × UInt8)) (sent : List Sent) : TcpOp → Nat → List (UInt32 × UInt8)
  | .connect id _ _ _ _ _ => Function.update log id []
  | .send id _ _ => Function.update log id (log id ++ transmitted sent)
  | _ => log

/-- `kmalloc` returns memory that no socket occupies, and a length is a 32-bit word. -/
def TcpOp.Allowed (l : TcpLine) : TcpOp → Prop
  | .connect id _ _ _ _ _ => ∀ s ∈ l.tcp.sockets, s.id ≠ id
  | .send _ data _ => data.length < 2 ^ 32
  | _ => True

def TcpStep (l : TcpLine) (op : TcpOp) (next : TcpLine) : Prop :=
  op.Allowed l ∧ next = ⟨(op.apply l.tcp).1, op.logAfter l.log (op.apply l.tcp).2⟩

def TcpOp.InStep (l : TcpLine) : TcpOp → Prop
  | .send id data _ => ∀ s, l.tcp.socketAt id = some s → s.state = .established → data ≠ [] → Aligned s data
  | _ => True

def AlignedStep (l : TcpLine) (op : TcpOp) (next : TcpLine) : Prop := op.InStep l ∧ TcpStep l op next

def bootLine : TcpLine := ⟨⟨[], 49152⟩, fun _ => []⟩

section
variable {t : Tcp} {id : Nat}

theorem socketAt_some {s : Socket} (found : t.socketAt id = some s) : s ∈ t.sockets ∧ s.id = id := by
  unfold Tcp.socketAt at found
  refine ⟨List.mem_of_find?_eq_some found, ?_⟩
  simpa using List.find?_some found

theorem ids_put {s : Socket} : (t.put s).sockets.map Socket.id = t.sockets.map Socket.id := by
  simp only [Tcp.put, List.map_map]
  refine List.map_congr_left fun old _ => ?_
  simp only [Function.comp_apply]
  split
  · exact Eq.symm ‹_›
  · rfl

theorem mem_put {s s' : Socket} (member : s' ∈ (t.put s).sockets) : s' = s ∨ s' ∈ t.sockets ∧ s'.id ≠ s.id := by
  simp only [Tcp.put, List.mem_map] at member
  obtain ⟨old, listed, rfl⟩ := member
  split
  · exact Or.inl rfl
  · exact Or.inr ⟨listed, ‹_›⟩

theorem on_keeps (Good : Socket → Prop) {call : Socket → Socket × List Sent} (good : ∀ s ∈ t.sockets, Good s)
    (kept : ∀ s, t.socketAt id = some s → Good s → Good (call s).1) :
    ∀ s ∈ (t.on id call).1.sockets, Good s := by
  unfold Tcp.on
  split
  · exact good
  · rename_i s found
    intro s' member
    rcases mem_put member with rfl | ⟨listed, _⟩
    · exact kept s found (good s (socketAt_some found).1)
    · exact good s' listed

theorem tcpReceive_keeps (Good : Socket → Prop) {srcIp destIp : Ip4Addr} {tcp : TcpHeader} {now : Nat}
    (good : ∀ s ∈ t.sockets, Good s)
    (kept : ∀ s, tcpFindSocket t.sockets srcIp tcp.srcPort tcp.destPort = some s → Good s →
      Good (receiveSocket s tcp now).1) :
    ∀ s ∈ (tcpReceive t srcIp destIp tcp now).1.sockets, Good s := by
  unfold tcpReceive
  simp only
  split
  · exact good
  split
  · exact good
  split
  · split <;> exact good
  · rename_i s found
    have listed : s ∈ t.sockets := List.mem_of_find?_eq_some found
    intro s' member
    rcases mem_put member with rfl | ⟨other, _⟩
    · exact kept s found (good s listed)
    · exact good s' other

theorem ids_on (t : Tcp) (id : Nat) (call : Socket → Socket × List Sent) :
    (t.on id call).1.sockets.map Socket.id = t.sockets.map Socket.id := by
  unfold Tcp.on
  split
  · rfl
  · exact ids_put

theorem ids_receive (t : Tcp) (srcIp destIp : Ip4Addr) (tcp : TcpHeader) (now : Nat) :
    (tcpReceive t srcIp destIp tcp now).1.sockets.map Socket.id = t.sockets.map Socket.id := by
  unfold tcpReceive
  simp only
  split
  · rfl
  split
  · rfl
  split
  · split <;> rfl
  · exact ids_put

end

theorem on_singleton (s : Socket) (port : UInt16) (call : Socket → Socket × List Sent)
    (same : (call s).1.id = s.id) : Tcp.on ⟨[s], port⟩ s.id call = (⟨[(call s).1], port⟩, (call s).2) := by
  simp [Tcp.on, Tcp.socketAt, Tcp.put, same]

theorem tcpReceive_singleton {s : Socket} {port : UInt16} {srcIp destIp : Ip4Addr} {tcp : TcpHeader} {now : Nat}
    (whole : ¬ (tcp.hdrLen < tcpHeaderSize ∨ tcpHeaderSize + tcp.optionsAndPayload.length < tcp.hdrLen))
    (sound : tcpChecksum srcIp destIp tcp.toBytes = 0) (ours : s.matches srcIp tcp.srcPort tcp.destPort = true) :
    tcpReceive ⟨[s], port⟩ srcIp destIp tcp now =
      (⟨[(receiveSocket s tcp now).1], port⟩, (receiveSocket s tcp now).2) := by
  simp [tcpReceive, whole, sound, tcpFindSocket, ours, Tcp.put, receiveSocket_id]

theorem receiveSocket_pureAck {s : Socket} {tcp : TcpHeader} {now : Nat} (up : s.state = .established)
    (bare : tcp.flags = tcpAck) (empty : tcp.data = []) :
    (receiveSocket s tcp now).1 = tcpHandleAck s tcp.ack now := by
  have plain : tcpAck &&& tcpRst = 0 ∧ tcpAck ≠ 0 ∧ tcpAck &&& tcpFin = 0 := by decide
  simp [receiveSocket, up, bare, empty, plain, receiveEstablished, takeData]

theorem tcpHandleAck_clears {s : Socket} {remoteAck : UInt32} {now : Nat} (some : remoteAck - s.sndUna ≠ 0)
    (inside : ¬ remoteAck - s.sndUna > s.seq - s.sndUna) (whole : s.txBuf.length ≤ (remoteAck - s.sndUna).toNat) :
    tcpHandleAck s remoteAck now = { s with
      txBuf := [], sndUna := s.sndUna + (remoteAck - s.sndUna), rtoTries := 0, rtoDeadline := 0 } := by
  have gone : s.txBuf.drop (if (remoteAck - s.sndUna).toNat > s.txBuf.length then s.txBuf.length
      else (remoteAck - s.sndUna).toNat) = [] := List.drop_eq_nil_of_le (by split <;> omega)
  rw [tcpHandleAck, if_neg (not_or.mpr ⟨some, inside⟩)]
  simp [gone]

def LineOk (l : TcpLine) : Prop := ∀ s ∈ l.tcp.sockets, SendOk s (l.log s.id)

theorem connect_ok {l : TcpLine} (ok : LineOk l) {id : Nat} {devIp destIp : Ip4Addr} {destPort : UInt16}
    {tsc : UInt64} {now : Nat} (fresh : ∀ s ∈ l.tcp.sockets, s.id ≠ id) :
    LineOk ⟨(tcpConnect l.tcp id devIp destIp destPort tsc now).1, Function.update l.log id []⟩ := by
  intro s member
  simp only [tcpConnect, List.mem_cons] at member
  rcases member with rfl | listed
  · intro _
    refine ⟨[], 0, ?_, ?_, ?_, by simp, by simp, Or.inl rfl⟩
    · simp [numbered]
    · rfl
    · simp
  · simp only [Function.update_of_ne (fresh s listed)]
    exact ok s listed

theorem line_step {l next : TcpLine} {op : TcpOp} (ok : LineOk l) (step : AlignedStep l op next) : LineOk next := by
  obtain ⟨inStep, allowed, rfl⟩ := step
  cases op with
  | connect id devIp destIp destPort tsc now => exact connect_ok ok allowed
  | send id data now =>
    intro s member
    simp only [TcpOp.apply, Tcp.on, TcpOp.logAfter] at member ⊢
    cases found : l.tcp.socketAt id with
    | none =>
      simp only [found] at member ⊢
      simpa using ok s member
    | some old =>
      simp only [found] at member ⊢
      obtain ⟨listed, rfl⟩ := socketAt_some found
      have sent := (ok old listed).sendData now (inStep old found)
      have same := tcpSendData_id old data now
      rcases mem_put member with rfl | ⟨other, apart⟩
      · simpa only [same, Function.update_self] using sent
      · rw [same] at apart
        simpa only [Function.update_of_ne apart] using ok s other
  | receive srcIp destIp tcp now =>
    exact tcpReceive_keeps (fun s => SendOk s (l.log s.id)) ok fun s _ good => by
      simpa only [receiveSocket_id] using good.receive tcp now
  | poll now =>
    intro s member
    simp only [TcpOp.apply, tcpPoll, List.mem_map] at member
    obtain ⟨old, listed, rfl⟩ := member
    simpa only [TcpOp.logAfter, pollSocket_id] using (ok old listed).poll now
  | recv id maxLen =>
    refine on_keeps (fun s => SendOk s (l.log s.id)) ok fun s _ good => ?_
    have received := good.recv maxLen
    obtain ⟨rx, same⟩ := sysNetRecv_fields s maxLen
    simpa only [same] using received
  | close id =>
    refine on_keeps (fun s => SendOk s (l.log s.id)) ok fun s _ good => ?_
    have closed := good.close
    have same : (tcpClose s).1.id = s.id := by unfold tcpClose; split <;> rfl
    simpa only [same] using closed
  | release id =>
    intro s member
    have listed : s ∈ l.tcp.sockets := by
      simp only [TcpOp.apply, tcpRelease] at member
      split at member
      · exact member
      · exact List.mem_of_mem_eraseP member
    exact ok s listed

/-- In every state that a history reaches, the copy kept for retransmission is what
was sent at the numbers from `snd_una` on, and so is all that `tcp_poll` re-sends. -/
theorem tcp_retransmission (ops : List TcpOp) (l : TcpLine) (run : Run AlignedStep bootLine ops l) :
    (∀ s ∈ l.tcp.sockets, s.state = .established → ∀ (i : Nat) (inside : i < s.txBuf.length),
      latest (l.log s.id) (s.sndUna + UInt32.ofNat i) = some s.txBuf[i]) ∧
    ∀ now, ∀ x ∈ (tcpPoll l.tcp now).2, ∃ s ∈ l.tcp.sockets, x ∈ (pollSocket now s).2 ∧
      ∀ (i : Nat) (inside : i < x.segment.data.length),
        latest (l.log s.id) (x.segment.seq + UInt32.ofNat i) = some x.segment.data[i] := by
  have ok : LineOk l := Run.invariant LineOk (fun _ member => absurd member List.not_mem_nil) (fun _ _ _ ok step => line_step ok step) run
  constructor
  · intro s member up i inside
    obtain ⟨stream, acked, sending⟩ := ok s member (Or.inr up)
    exact sending.faithful inside
  · intro now x member
    simp only [tcpPoll, List.mem_flatMap] at member
    obtain ⟨s, listed, sent⟩ := member
    exact ⟨s, listed, sent, fun i inside => (ok s listed).resent sent inside⟩

def hostIp : Ip4Addr := ⟨10, 0, 0, 1⟩
def peerIp : Ip4Addr := ⟨10, 0, 0, 2⟩

attribute [local instance] fourBits_neZero

def peerSegment (flags : UInt8) (seq ack : UInt32) (data : List UInt8) : TcpHeader :=
  let hdr : TcpHeader :=
    { srcPort := 80, destPort := 49152, seq := seq, ack := ack, reserved := 0, dataOffset := 5, flags := flags
      windowSize := 8192, checksum := 0, urgentPtr := 0, optionsAndPayload := data }
  { hdr with checksum := tcpChecksum peerIp hostIp hdr.toBytes }

def firstIss : UInt32 := 0x05000000

def openOp : TcpOp := .connect 1 hostIp peerIp 80 0 100
def synAckOp : TcpOp := .receive peerIp hostIp (peerSegment (tcpSyn ||| tcpAck) 7000 (firstIss + 1) []) 101

def openSocket : Socket :=
  { id := 1, state := .established, devIp := hostIp, remoteIp := peerIp, localPort := 49152, remotePort := 80
    iss := firstIss, seq := firstIss + 1, sndUna := firstIss + 1, ack := 7001, peerMss := 536, rxBuf := []
    txBuf := [], rtoDeadline := 0, rtoTries := 0 }

def openLine : TcpLine := ⟨⟨[openSocket], 49153⟩, Function.update (fun _ => []) 1 []⟩

theorem openLine_run : Run AlignedStep bootLine [openOp, synAckOp] openLine := by
  have connected : Run AlignedStep bootLine ([] ++ [openOp]) _ :=
    Run.nil.snoc ⟨trivial, fun _ member => absurd member List.not_mem_nil, rfl⟩
  exact connected.snoc ⟨trivial, trivial, rfl⟩
/-- Three bytes sent on a fresh connection. -/
theorem tcp_retransmission_threeBytes :
    ∃ l, Run AlignedStep bootLine ([openOp, synAckOp] ++ [.send 1 [1, 2, 3] 102]) l ∧
      ∀ now, ∀ x ∈ (tcpPoll l.tcp now).2, ∃ s ∈ l.tcp.sockets, x ∈ (pollSocket now s).2 ∧
        ∀ (i : Nat) (inside : i < x.segment.data.length),
          latest (l.log s.id) (x.segment.seq + UInt32.ofNat i) = some x.segment.data[i] := by
  have aligned : (TcpOp.send 1 [1, 2, 3] 102).InStep openLine := by
    intro s found _ _
    have same : openLine.tcp.socketAt 1 = some openSocket := by decide
    rw [same, Option.some.injEq] at found
    subst found
    exact ⟨Or.inr (by decide), by decide⟩
  have run := openLine_run.snoc ⟨aligned, (by decide : _ < _), rfl⟩
  exact ⟨_, run, (tcp_retransmission _ _ run).2⟩

/-- The socket after a send of 8193 bytes, one more than the copy holds, when all but
the last of them have been acknowledged. -/
def ackedSocket : Socket :=
  { openSocket with seq := firstIss + 1 + 8193, sndUna := firstIss + 1 + 8192 }

def partialAck : TcpHeader := peerSegment tcpAck 7001 (firstIss + 1 + 8192) []

section
variable {data : List UInt8} (long : data.length = 8193)
include long

theorem ackedSocket_run : Run TcpStep bootLine
    ([openOp, synAckOp] ++ [.send 1 data 102] ++ [.receive peerIp hostIp partialAck 103])
    ⟨⟨[ackedSocket], 49153⟩, Function.update (fun _ => []) 1 (numbered (firstIss + 1) data)⟩ := by
  have opened := openLine_run.mono fun _ _ _ step => step.2
  have some : data ≠ [] := by rintro rfl; simp at long
  obtain ⟨tries, deadline, after, wire⟩ := tcpSendData_spec (s := openSocket) 102 rfl some
  have called : (TcpOp.send 1 data 102).apply openLine.tcp =
      (⟨[(tcpSendData openSocket data 102).1], 49153⟩, (tcpSendData openSocket data 102).2) :=
    on_singleton openSocket 49153 (fun s => tcpSendData s data 102) (tcpSendData_id openSocket data 102)
  have received : ∀ s : Socket, s.matches peerIp 80 49152 = true →
      (TcpOp.receive peerIp hostIp partialAck 103).apply ⟨[s], 49153⟩ =
        (⟨[(receiveSocket s partialAck 103).1], 49153⟩, (receiveSocket s partialAck 103).2) := by
    intro s ours
    rw [TcpOp.apply]
    exact tcpReceive_singleton (by decide) (by decide) ours
  refine Run.snoc (opened.snoc ⟨by simp only [TcpOp.Allowed]; omega, rfl⟩) ⟨trivial, ?_⟩
  have acked : (receiveSocket (tcpSendData openSocket data 102).1 partialAck 103).1 = ackedSocket := by
    have up : (tcpSendData openSocket data 102).1.state = .established := by rw [after]; rfl
    rw [receiveSocket_pureAck up rfl rfl, tcpHandleAck_clears]
    · simp only [after, long]
      rfl
    · simp only [after]
      decide
    · simp only [after, long]
      decide
    · simp only [after, List.length_append, List.length_take, long]
      decide
  rw [called, received _ (by rw [after]; rfl), acked]
  simp only [TcpOp.logAfter, openLine, Function.update_self, Function.update_idem, List.nil_append, wire]
  rfl

omit long in
theorem ackedSocket_send (data : List UInt8) :
    ∃ l, TcpStep ⟨⟨[ackedSocket], 49153⟩, Function.update (fun _ => []) 1 (numbered (firstIss + 1) data)⟩
        (.send 1 [1] 104) l ∧
      ∃ s ∈ l.tcp.sockets, s.state = .established ∧ s.txBuf = [1] ∧ s.sndUna = firstIss + 1 + 8192 ∧
        l.log s.id = numbered (firstIss + 1) data ++ numbered (firstIss + 1 + 8193) [1] := by
  obtain ⟨tries, deadline, after, wire⟩ :=
    @tcpSendData_spec ackedSocket [1] 104 rfl (List.cons_ne_nil _ _)
  have called : (TcpOp.send 1 [1] 104).apply ⟨[ackedSocket], 49153⟩ =
      (⟨[(tcpSendData ackedSocket [1] 104).1], 49153⟩, (tcpSendData ackedSocket [1] 104).2) :=
    on_singleton ackedSocket 49153 (fun s => tcpSendData s [1] 104) (tcpSendData_id ackedSocket [1] 104)
  refine ⟨_, ⟨by simp [TcpOp.Allowed], rfl⟩, (tcpSendData ackedSocket [1] 104).1, ?_, ?_, ?_, ?_, ?_⟩
  · simp [called]
  · rw [after]
    rfl
  · rw [after]
    rfl
  · rw [after]
    rfl
  · simp only [called, TcpOp.logAfter, tcpSendData_id, wire]
    rfl

end

/-- Once a send has overflowed the copy, a partial acknowledgement and another send leave
bytes in it that were sent at other numbers. -/
theorem tcp_copy_overflows : ¬ ∀ ops l, Run TcpStep bootLine ops l →
    ∀ s ∈ l.tcp.sockets, s.state = .established → ∀ (i : Nat) (inside : i < s.txBuf.length),
      latest (l.log s.id) (s.sndUna + UInt32.ofNat i) = some s.txBuf[i] := by
  intro kept
  have long : (List.replicate 8193 (0 : UInt8)).length = 8193 := List.length_replicate
  obtain ⟨l, step, s, listed, up, copy, una, log⟩ := ackedSocket_send (List.replicate 8193 0)
  have wrong := kept _ l ((ackedSocket_run long).snoc step) s listed up 0 (by simp [copy])
  -- the number of the byte in the copy was used for the last of the zeros
  have whole : numbered (firstIss + 1) (List.replicate 8193 (0 : UInt8)) ++ numbered (firstIss + 1 + 8193) [1] =
      numbered (firstIss + 1) (List.replicate 8193 0 ++ [1]) := by
    rw [numbered_append, long]
    rfl
  simp only [copy, List.getElem_cons_zero] at wrong
  have place : firstIss + 1 + 8192 + UInt32.ofNat 0 = firstIss + 1 + UInt32.ofNat 8192 := by decide
  rw [log, whole, una, place, latest_numbered (by rw [List.length_append, long]; decide)
    (by rw [List.length_append, long]; decide), List.getElem_append_left (by rw [long]; decide),
    List.getElem_replicate] at wrong
  exact absurd wrong (by decide)

end RexOs.Net
