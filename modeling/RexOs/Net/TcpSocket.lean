import RexOs.Net.TcpHistory

/-! One socket of the table.

`SocketOp` is a call or a segment as one socket sees it, and `TcpOp.view` tells what a step of the
table is for the socket at an address.
-/

set_option autoImplicit false

namespace RexOs.Net

open RexOs.Library

inductive SocketOp where
  | send (data : List UInt8) (now : Nat)
  | receive (tcp : TcpHeader) (now : Nat)
  | poll (now : Nat)
  | recv (maxLen : Nat)
  | close
  deriving DecidableEq, Repr

def SocketOp.apply (s : Socket) : SocketOp → Socket × List Sent
  | .send data now => tcpSendData s data now
  | .receive tcp now => receiveSocket s tcp now
  | .poll now => pollSocket now s
  | .recv maxLen => (sysNetRecv s maxLen).2
  | .close => tcpClose s

/-- Lengths as the types of the source have them: `ipv4_receive` takes the length of a
segment from a 16-bit field. -/
def SocketOp.Fits : SocketOp → Prop
  | .send data _ => data.length < 2 ^ 32
  | .receive tcp _ => tcpHeaderSize + tcp.optionsAndPayload.length < 2 ^ 16
  | _ => True

instance (op : SocketOp) : Decidable op.Fits :=
  match op with
  | .send _ _ => inferInstanceAs (Decidable (_ < _))
  | .receive _ _ => inferInstanceAs (Decidable (_ < _))
  | .poll _ | .recv _ | .close => inferInstanceAs (Decidable True)

/-- `tcp_receive` looks for a socket. -/
def TcpHeader.Sound (tcp : TcpHeader) (srcIp destIp : Ip4Addr) : Prop :=
  ¬ (tcp.hdrLen < tcpHeaderSize ∨ tcpHeaderSize + tcp.optionsAndPayload.length < tcp.hdrLen) ∧
    tcpChecksum srcIp destIp tcp.toBytes = 0

instance (tcp : TcpHeader) (srcIp destIp : Ip4Addr) : Decidable (tcp.Sound srcIp destIp) :=
  inferInstanceAs (Decidable (_ ∧ _))

def TcpOp.view (t : Tcp) (id : Nat) : TcpOp → Option SocketOp
  | .send i data now => if i = id then some (.send data now) else none
  | .receive srcIp destIp tcp now =>
      if tcp.Sound srcIp destIp ∧
          (tcpFindSocket t.sockets srcIp tcp.srcPort tcp.destPort).map Socket.id = some id then
        some (.receive tcp now)
      else none
  | .poll now => some (.poll now)
  | .recv i maxLen => if i = id then some (.recv maxLen) else none
  | .close i => if i = id then some .close else none
  | .connect .. | .release _ => none

def Socket.after (s : Socket) : Option SocketOp → Socket
  | none => s
  | some op => (op.apply s).1

/-- A socket as `tcp_connect` leaves it. -/
structure Fresh (s : Socket) : Prop where
  state : s.state = .synSent
  seq : s.seq = s.iss + 1
  una : s.sndUna = s.iss
  ack : s.ack = 0
  mss : s.peerMss = 0
  rx : s.rxBuf = []
  tx : s.txBuf = []
  timer : s.rtoDeadline ≠ 0

section
variable {t : Tcp} {op : TcpOp} {s s' : Socket}

theorem SocketOp.apply_home (s : Socket) (op : SocketOp) : (op.apply s).1.home = s.home := by
  cases op with
  | send data now => exact tcpSendData_home s data now
  | receive tcp now => exact receiveSocket_home s tcp now
  | poll now => exact pollSocket_home now s
  | recv maxLen =>
    obtain ⟨rx, same⟩ := sysNetRecv_fields s maxLen
    rw [SocketOp.apply, same]
    rfl
  | close =>
    simp only [SocketOp.apply, tcpClose]
    split <;> rfl

theorem SocketOp.apply_id (s : Socket) (op : SocketOp) : (op.apply s).1.id = s.id :=
  congrArg Prod.fst (op.apply_home s)

theorem put_view {old new : Socket} (listed : old ∈ t.sockets) (kept : new.id = old.id)
    (member : s' ∈ (t.put new).sockets) :
    ∃ s ∈ t.sockets, s.id = s'.id ∧ (s' = new ∧ s = old ∨ s' = s ∧ s.id ≠ old.id) := by
  rcases mem_put member with rfl | ⟨other, apart⟩
  · exact ⟨old, listed, kept.symm, Or.inl ⟨rfl, rfl⟩⟩
  · rw [kept] at apart
    exact ⟨s', other, rfl, Or.inr ⟨rfl, apart⟩⟩

theorem on_view {id : Nat} (call : SocketOp) (member : s' ∈ (t.on id call.apply).1.sockets) :
    ∃ s ∈ t.sockets, s.id = s'.id ∧ s' = s.after (if id = s.id then some call else none) := by
  unfold Tcp.on at member
  split at member
  · rename_i none
    have absent : id ≠ s'.id := by
      rintro rfl
      have := List.find?_eq_none.mp none s' member
      simp at this
    exact ⟨s', member, rfl, by rw [if_neg absent]; rfl⟩
  · rename_i old found
    obtain ⟨listed, rfl⟩ := socketAt_some found
    obtain ⟨s, inside, same, ⟨rfl, rfl⟩ | ⟨rfl, apart⟩⟩ := put_view listed (call.apply_id old) member
    · exact ⟨s, inside, same, by rw [if_pos rfl]; rfl⟩
    · exact ⟨s', inside, rfl, by rw [if_neg apart.symm]; rfl⟩

theorem view_unsound {srcIp destIp : Ip4Addr} {tcp : TcpHeader} (now id : Nat) (broken : ¬ tcp.Sound srcIp destIp) :
    (TcpOp.receive srcIp destIp tcp now).view t id = none := if_neg fun seen => broken seen.1

theorem receive_view {srcIp destIp : Ip4Addr} {tcp : TcpHeader} {now : Nat}
    (member : s' ∈ (tcpReceive t srcIp destIp tcp now).1.sockets) :
    ∃ s ∈ t.sockets, s.id = s'.id ∧ s' = s.after ((TcpOp.receive srcIp destIp tcp now).view t s.id) := by
  unfold tcpReceive at member
  simp only at member
  split at member
  · rename_i short
    exact ⟨s', member, rfl, by rw [view_unsound now _ fun ⟨whole, _⟩ => whole short]; rfl⟩
  split at member
  · rename_i broken
    exact ⟨s', member, rfl, by rw [view_unsound now _ fun ⟨_, valid⟩ => broken valid]; rfl⟩
  rename_i whole valid
  split at member
  · rename_i none
    have same : s' ∈ t.sockets := by split at member <;> exact member
    exact ⟨s', same, rfl, by simp [TcpOp.view, none, Socket.after]⟩
  · rename_i old found
    have listed : old ∈ t.sockets := List.mem_of_find?_eq_some found
    obtain ⟨s, inside, same, ⟨rfl, rfl⟩ | ⟨rfl, apart⟩⟩ := put_view listed (receiveSocket_id old tcp now) member
    · refine ⟨s, inside, same, ?_⟩
      rw [TcpOp.view, if_pos ⟨⟨whole, not_not.mp valid⟩, by rw [found]; rfl⟩]
      rfl
    · refine ⟨s', inside, rfl, ?_⟩
      rw [TcpOp.view, if_neg fun seen => apart (by simpa [found, eq_comm] using seen.2)]
      rfl

theorem apply_view (member : s' ∈ (op.apply t).1.sockets) :
    (∃ s ∈ t.sockets, s.id = s'.id ∧ s' = s.after (op.view t s.id)) ∨ Fresh s' := by
  cases op with
  | connect id devIp destIp destPort tsc now =>
    simp only [TcpOp.apply, tcpConnect, List.mem_cons] at member
    rcases member with rfl | listed
    · exact Or.inr ⟨rfl, rfl, rfl, rfl, rfl, rfl, rfl, by simp [tcpRtoBaseTicks]⟩
    · exact Or.inl ⟨s', listed, rfl, rfl⟩
  | send id data now => exact Or.inl (on_view (.send data now) member)
  | receive srcIp destIp tcp now => exact Or.inl (receive_view member)
  | poll now =>
    simp only [TcpOp.apply, tcpPoll, List.mem_map] at member
    obtain ⟨s, listed, rfl⟩ := member
    exact Or.inl ⟨s, listed, (pollSocket_id now s).symm, rfl⟩
  | recv id maxLen => exact Or.inl (on_view (.recv maxLen) member)
  | close id => exact Or.inl (on_view .close member)
  | release id =>
    have listed : s' ∈ t.sockets := by
      simp only [TcpOp.apply, tcpRelease] at member
      split at member
      · exact member
      · exact List.mem_of_mem_eraseP member
    exact Or.inl ⟨s', listed, rfl, rfl⟩

end

/-- The number lies in `(snd_una, seq]`. -/
def InFlight (s : Socket) (number : UInt32) : Prop :=
  ∃ k, 0 < k ∧ k ≤ (s.seq - s.sndUna).toNat ∧ number = s.sndUna + UInt32.ofNat k

/-- What `tcp_handle_ack` does with a number of `(snd_una, seq]`. -/
def acknowledged (s : Socket) (number : UInt32) (now : Nat) : Socket :=
  { s with
    txBuf := s.txBuf.drop (number - s.sndUna).toNat
    sndUna := number
    rtoTries := 0
    rtoDeadline := if s.txBuf.length ≤ (number - s.sndUna).toNat then 0 else now + tcpRtoBaseTicks }

theorem distance_add (a b : UInt32) : a + (b - a) = b := by rw [UInt32.add_comm, UInt32.sub_add_cancel]

theorem inFlight_iff {s : Socket} {number : UInt32} :
    InFlight s number ↔ ¬ (number - s.sndUna = 0 ∨ number - s.sndUna > s.seq - s.sndUna) := by
  rw [not_or, UInt32.not_lt, UInt32.le_iff_toNat_le]
  constructor
  · rintro ⟨k, positive, le, rfl⟩
    have whole : (s.sndUna + UInt32.ofNat k - s.sndUna).toNat = k := by
      have := serial_sub (n := s.sndUna) (Nat.zero_le k) (Nat.lt_of_le_of_lt le (UInt32.toNat_lt _))
      simpa using this
    refine ⟨fun zero => ?_, by rw [whole]; exact le⟩
    rw [zero] at whole
    exact absurd whole.symm (Nat.ne_of_gt positive)
  · rintro ⟨nonzero, le⟩
    refine ⟨(number - s.sndUna).toNat, Nat.pos_of_ne_zero fun zero => ?_, le, ?_⟩
    · exact nonzero (UInt32.toNat_inj.mp zero)
    · rw [UInt32.ofNat_toNat, distance_add]

theorem tcpHandleAck_cases (s : Socket) (remoteAck : UInt32) (now : Nat) :
    ¬ InFlight s remoteAck ∧ tcpHandleAck s remoteAck now = s ∨
      InFlight s remoteAck ∧ tcpHandleAck s remoteAck now = acknowledged s remoteAck now := by
  unfold tcpHandleAck
  simp only
  split
  · rename_i dropped
    exact Or.inl ⟨fun inside => inFlight_iff.mp inside dropped, rfl⟩
  · rename_i accepted
    refine Or.inr ⟨inFlight_iff.mpr accepted, ?_⟩
    unfold acknowledged
    by_cases whole : (remoteAck - s.sndUna).toNat > s.txBuf.length
    · have all : s.txBuf.length ≤ (remoteAck - s.sndUna).toNat := by omega
      simp [whole, all, distance_add]
    · by_cases all : s.txBuf.length ≤ (remoteAck - s.sndUna).toNat
      · simp [whole, all, distance_add]
      · have some : s.txBuf.length - (remoteAck - s.sndUna).toNat ≠ 0 := by omega
        simp [whole, all, some, distance_add]

def GuardedStep (Guard : Socket → SocketOp → Prop) (l : TcpLine) (op : TcpOp) (next : TcpLine) : Prop :=
  TcpStep l op next ∧ ∀ s ∈ l.tcp.sockets, ∀ seen, op.view l.tcp s.id = some seen → Guard s seen

def TcpLine.next (l : TcpLine) (op : TcpOp) : TcpLine := ⟨(op.apply l.tcp).1, op.logAfter l.log (op.apply l.tcp).2⟩

theorem openOp_run (Guard : Socket → SocketOp → Prop) : Run (GuardedStep Guard) bootLine [openOp] (bootLine.next openOp) :=
  Run.nil.snoc ⟨⟨fun _ member => absurd member List.not_mem_nil, rfl⟩, fun _ member => absurd member List.not_mem_nil⟩

theorem sockets_invariant {Guard : Socket → SocketOp → Prop} (Good : Socket → Prop)
    (created : ∀ s, Fresh s → Good s) (kept : ∀ s op, Good s → Guard s op → Good (op.apply s).1)
    {ops : List TcpOp} {l : TcpLine} (run : Run (GuardedStep Guard) bootLine ops l) :
    ∀ s ∈ l.tcp.sockets, Good s := by
  refine run.invariant (fun l => ∀ s ∈ l.tcp.sockets, Good s) (fun _ member => absurd member List.not_mem_nil) ?_
  intro l op next good ⟨⟨_, taken⟩, guarded⟩ s' member
  subst taken
  rcases apply_view member with ⟨s, listed, _, rfl⟩ | fresh
  · cases seen : op.view l.tcp s.id with
    | none => exact good s listed
    | some call => exact kept s call (good s listed) (guarded s listed call seen)
  · exact created s' fresh

/-! A socket becomes `ESTABLISHED` on the SYN|ACK that it receives in `SYN_SENT`. The
acknowledgement number of that segment is given to `tcp_handle_ack`, which drops a wrong
one, but it does not decide whether the connection is established.
-/

/-- `(flags & (TCP_SYN | TCP_ACK)) == (TCP_SYN | TCP_ACK)`. -/
def TcpHeader.IsSynAck (tcp : TcpHeader) : Prop := tcp.flags &&& (tcpSyn ||| tcpAck) = tcpSyn ||| tcpAck

def Handshake (s : Socket) (op : SocketOp) : Prop :=
  s.state ≠ .established → (op.apply s).1.state = .established →
    ∃ tcp now, op = .receive tcp now ∧ tcp.IsSynAck ∧ tcp.ack = s.iss + 1 ∧
      (op.apply s).1.sndUna = s.iss + 1 ∧ (op.apply s).1.seq = s.iss + 1 ∧ (op.apply s).1.ack = tcp.seq + 1

def AnswersSyn (s : Socket) (op : SocketOp) : Prop :=
  ∀ tcp now, op = .receive tcp now → s.state = .synSent → tcp.flags &&& tcpRst = 0 → tcp.IsSynAck →
    tcp.ack = s.iss + 1

/-- A socket in `SYN_SENT` has sent its SYN and nothing else. -/
structure Opening (s : Socket) : Prop where
  seq : s.seq = s.iss + 1
  una : s.sndUna = s.iss
  rx : s.rxBuf = []
  tx : s.txBuf = []

section
variable {s : Socket} {op : SocketOp}

theorem receiveSocket_left {tcp : TcpHeader} {now : Nat} (left : s.state ≠ .synSent) :
    (receiveSocket s tcp now).1.state ≠ .synSent ∧
      ((receiveSocket s tcp now).1.state = .established → s.state = .established) := by
  have acked := (tcpHandleAck_fields s tcp.ack now).1
  unfold receiveSocket
  simp only
  split
  · exact ⟨nofun, nofun⟩
  split
  · rename_i opening
    exact absurd opening left
  · rename_i up
    refine ⟨?_, fun _ => up⟩
    obtain ⟨s', from_, rx, ack, same | ⟨seq, same⟩⟩ :=
      receiveEstablished_fields s tcp.flags tcp.seq tcp.ack tcp.data now
    · rw [same]
      rcases from_ with rfl | rfl
      · exact left
      · show (tcpHandleAck s tcp.ack now).state ≠ .synSent
        rw [acked]
        exact left
    · rw [same]
      nofun
  · rename_i closing
    split
    · exact ⟨nofun, nofun⟩
    · exact ⟨left, id⟩
  · rename_i closing
    rw [closing] at acked
    split
    · exact ⟨nofun, nofun⟩
    · split
      · split
        · exact ⟨nofun, nofun⟩
        · rw [acked]
          exact ⟨nofun, nofun⟩
      · exact ⟨left, id⟩
  · split
    · exact ⟨nofun, nofun⟩
    · exact ⟨left, id⟩
  · exact ⟨left, id⟩

def synAckMss (s : Socket) (tcp : TcpHeader) : UInt16 :=
  if (tcpParseOptions s tcp).peerMss = 0 then UInt16.ofNat tcpDefaultMss else (tcpParseOptions s tcp).peerMss

theorem synAckMss_eq (s : Socket) (tcp : TcpHeader) :
    (if (tcpParseOptions s tcp).peerMss = 0 then
      { tcpParseOptions s tcp with peerMss := UInt16.ofNat tcpDefaultMss } else tcpParseOptions s tcp) =
      { s with peerMss := synAckMss s tcp } := by
  unfold synAckMss
  split <;> rfl

theorem receiveSocket_opening (tcp : TcpHeader) (now : Nat) (opening : s.state = .synSent) :
    tcp.flags &&& tcpRst ≠ 0 ∧ (receiveSocket s tcp now).1.state = .closed ∨
    tcp.flags &&& tcpRst = 0 ∧ ¬ tcp.IsSynAck ∧ (receiveSocket s tcp now).1 = s ∨
    tcp.flags &&& tcpRst = 0 ∧ tcp.IsSynAck ∧ (receiveSocket s tcp now).1 =
      { tcpHandleAck { s with peerMss := synAckMss s tcp } tcp.ack now with
        ack := tcp.seq + 1, state := .established, rtoDeadline := 0 } := by
  unfold receiveSocket
  simp only [opening, synAckMss_eq]
  split
  · rename_i reset
    exact Or.inl ⟨reset, rfl⟩
  rename_i quiet
  refine Or.inr ?_
  split
  · rename_i answer
    exact Or.inr ⟨not_not.mp quiet, answer, rfl⟩
  · rename_i other
    exact Or.inl ⟨not_not.mp quiet, other, rfl⟩

theorem Opening.inFlight (fresh : Opening s) (number : UInt32) : InFlight s number ↔ number = s.iss + 1 := by
  have outstanding : (s.seq - s.sndUna).toNat = 1 := by
    rw [fresh.seq, fresh.una, UInt32.add_comm, UInt32.add_sub_cancel]
    rfl
  constructor
  · rintro ⟨k, positive, le, rfl⟩
    obtain rfl : k = 1 := by omega
    rw [fresh.una]
    rfl
  · rintro rfl
    exact ⟨1, Nat.one_pos, by omega, by rw [fresh.una]; rfl⟩

theorem apply_opening (after : (op.apply s).1.state = .synSent) : s.state = .synSent ∧ (Opening s → Opening (op.apply s).1) := by
  cases op with
  | send data now =>
    by_cases empty : data = []
    · simp only [SocketOp.apply, tcpSendData, empty, if_true] at after ⊢
      exact ⟨after, id⟩
    by_cases up : s.state = .established
    · obtain ⟨tries, deadline, same, _⟩ := tcpSendData_spec now up empty
      simp only [SocketOp.apply, same, up] at after
      cases after
    · simp only [SocketOp.apply, tcpSendData, empty, up, if_false, ne_eq, not_false_eq_true, if_true] at after ⊢
      exact ⟨after, id⟩
  | receive tcp now =>
    by_cases opening : s.state = .synSent
    · refine ⟨opening, fun fresh => ?_⟩
      simp only [SocketOp.apply] at after ⊢
      rcases receiveSocket_opening tcp now opening with ⟨_, closed⟩ | ⟨_, _, same⟩ | ⟨_, _, same⟩
      · rw [closed] at after
        cases after
      · rw [same]
        exact fresh
      · rw [same] at after
        cases after
    · exact absurd after (receiveSocket_left opening).1
  | poll now =>
    rcases pollSocket_cases now s with same | ⟨state, deadline, one, two, same⟩ | ⟨tries, deadline, sent, same, _⟩
    · simp only [SocketOp.apply, same] at after ⊢
      exact ⟨after, id⟩
    · simp only [SocketOp.apply, same] at after
      exact absurd after one
    · simp only [SocketOp.apply, same] at after ⊢
      exact ⟨after, fun fresh => ⟨fresh.seq, fresh.una, fresh.rx, fresh.tx⟩⟩
  | recv maxLen =>
    obtain ⟨rx, same⟩ := sysNetRecv_fields s maxLen
    have opening : s.state = .synSent := by
      simp only [SocketOp.apply, same] at after
      exact after
    refine ⟨opening, fun fresh => ?_⟩
    simpa [SocketOp.apply, sysNetRecv, fresh.rx, opening] using fresh
  | close =>
    simp only [SocketOp.apply, tcpClose] at after ⊢
    split at after
    · rename_i closed
      rw [closed] at after
      cases after
    · cases after

theorem apply_establishes (down : s.state ≠ .established) (after : (op.apply s).1.state = .established) :
    ∃ tcp now, op = .receive tcp now ∧ s.state = .synSent ∧ tcp.flags &&& tcpRst = 0 ∧ tcp.IsSynAck := by
  cases op with
  | send data now =>
    simp only [SocketOp.apply, tcpSendData, down, ne_eq, not_false_eq_true, if_true] at after
    split at after <;> exact absurd after down
  | receive tcp now =>
    by_cases opening : s.state = .synSent
    · simp only [SocketOp.apply] at after
      rcases receiveSocket_opening tcp now opening with ⟨_, closed⟩ | ⟨_, _, same⟩ | ⟨quiet, answer, _⟩
      · rw [closed] at after
        cases after
      · rw [same] at after
        exact absurd after down
      · exact ⟨tcp, now, rfl, opening, quiet, answer⟩
    · exact absurd ((receiveSocket_left opening).2 after) down
  | poll now =>
    rcases pollSocket_cases now s with same | ⟨state, deadline, one, two, same⟩ | ⟨tries, deadline, sent, same, _⟩
    all_goals
      simp only [SocketOp.apply, same] at after
      first | exact absurd after down | exact absurd after two
  | recv maxLen =>
    obtain ⟨rx, same⟩ := sysNetRecv_fields s maxLen
    simp only [SocketOp.apply, same] at after
    exact absurd after down
  | close =>
    simp only [SocketOp.apply, tcpClose] at after
    split at after
    · exact absurd after down
    · cases after

end

variable {ops : List TcpOp} {l : TcpLine} {s : Socket}

theorem reachable_opening (run : Run TcpStep bootLine ops l) (member : s ∈ l.tcp.sockets) (opening : s.state = .synSent) :
    Opening s := by
  have run : Run (GuardedStep fun _ _ => True) bootLine ops l :=
    run.mono fun _ _ _ step => ⟨step, fun _ _ _ _ => trivial⟩
  refine sockets_invariant (fun s => s.state = .synSent → Opening s) ?_ ?_ run s member opening
  · intro s fresh _
    exact ⟨fresh.seq, fresh.una, fresh.rx, fresh.tx⟩
  · intro s op kept _ after
    obtain ⟨before, carried⟩ := apply_opening after
    exact carried (kept before)

/-- In every history, the next call or segment is a proper handshake for a socket exactly
if it is not a SYN|ACK that acknowledges something else than the SYN. -/
theorem tcp_handshake (run : Run TcpStep bootLine ops l) (member : s ∈ l.tcp.sockets) (op : SocketOp) :
    Handshake s op ↔ AnswersSyn s op := by
  constructor
  · rintro proper tcp now rfl opening quiet answer
    rcases receiveSocket_opening tcp now opening with ⟨reset, _⟩ | ⟨_, other, _⟩ | ⟨_, _, same⟩
    · exact absurd quiet reset
    · exact absurd answer other
    · have up : ((SocketOp.receive tcp now).apply s).1.state = .established := by
        simp only [SocketOp.apply, same]
      obtain ⟨_, _, ⟨rfl⟩, _, number, _⟩ := proper (by rw [opening]; decide) up
      exact number
  · intro answers down after
    obtain ⟨tcp, now, rfl, opening, quiet, answer⟩ := apply_establishes down after
    have number := answers tcp now rfl opening quiet answer
    have fresh := reachable_opening run member opening
    rcases receiveSocket_opening tcp now opening with ⟨reset, _⟩ | ⟨_, other, _⟩ | ⟨_, _, same⟩
    · exact absurd quiet reset
    · exact absurd answer other
    · have carried : Opening { s with peerMss := synAckMss s tcp } := ⟨fresh.seq, fresh.una, fresh.rx, fresh.tx⟩
      rcases tcpHandleAck_cases { s with peerMss := synAckMss s tcp } tcp.ack now with ⟨stray, _⟩ | ⟨_, acked⟩
      · exact absurd ((carried.inFlight _).mpr number) stray
      · rw [acked] at same
        refine ⟨tcp, now, rfl, answer, number, ?_, ?_, ?_⟩
        · simp only [SocketOp.apply, same, acknowledged]
          exact number
        · simp only [SocketOp.apply, same, acknowledged]
          exact fresh.seq
        · simp only [SocketOp.apply, same]

/-- The SYN|ACK of `openLine`'s connection. -/
theorem tcp_handshake_synAck :
    ∃ l, Run TcpStep bootLine [openOp] l ∧ ∀ s ∈ l.tcp.sockets,
      Handshake s (.receive (peerSegment (tcpSyn ||| tcpAck) 7000 (firstIss + 1) []) 101) := by
  have run : Run TcpStep bootLine [openOp] _ := Run.nil.snoc ⟨fun _ member => absurd member List.not_mem_nil, rfl⟩
  refine ⟨_, run, fun s member => (tcp_handshake run member _).mpr ?_⟩
  rintro tcp now ⟨rfl⟩ _ _ _
  obtain rfl : s = _ := List.mem_singleton.mp member
  decide

/-- The socket of `openOp` before the peer answers. -/
def openingSocket : Socket :=
  { openSocket with state := .synSent, sndUna := firstIss, ack := 0, peerMss := 0, rtoDeadline := 130 }

theorem openingSocket_fresh : Fresh openingSocket := ⟨rfl, rfl, rfl, rfl, rfl, rfl, rfl, by decide⟩

def staleSynAck : TcpHeader := peerSegment (tcpSyn ||| tcpAck) 7000 (firstIss + 2) []

theorem stale_synAck_establishes : ¬ ∀ ops l op s seen, Run TcpStep bootLine ops l → s ∈ l.tcp.sockets →
    TcpOp.view l.tcp s.id op = some seen → Handshake s seen := by
  intro proper
  have run : Run TcpStep bootLine [openOp] _ := Run.nil.snoc ⟨fun _ member => absurd member List.not_mem_nil, rfl⟩
  obtain ⟨tcp, now, ⟨rfl⟩, _, number, _⟩ := proper _ _ (.receive peerIp hostIp staleSynAck 101) _
    (.receive staleSynAck 101) run (List.mem_singleton.mpr rfl) (by decide) (by decide) (by decide)
  exact absurd number (by decide)

end RexOs.Net
