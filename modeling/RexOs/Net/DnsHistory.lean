import RexOs.Library.Run
import RexOs.Net.Dns

/-! Calls of `dns_resolve` interleaved with datagrams.

`dns_resolve` is a sequence of steps, one for each statement that reads or writes what
the receiver shares with it; a datagram may arrive between any two of them. The device
may also be configured anew, by `dhcp_receive`, at any time. Calls follow one another.
-/

set_option autoImplicit false

namespace RexOs.Net

open RexOs.Library

structure Datagram where
  srcIp : Ip4Addr
  srcPort : UInt16
  data : List UInt8
  fits : data.length < 2 ^ 16
  deriving DecidableEq

def Datagram.ptr (d : Datagram) : Ptr := ⟨d.data, 0⟩

/-- A packet handed to `udp_send`, for port 53 of the server. -/
structure Query where
  server : Ip4Addr
  packet : List UInt8
  deriving DecidableEq, Repr

def Identifies (packet : List UInt8) (id : UInt16) : Prop := (Ptr.mk packet 0).read16 0 = .ok id

/-- The statement of `dns_resolve` and `dns_send_query` that is next. -/
inductive Pc where
  /-- `s_resolved = false` -/
  | clear
  /-- `s_query_id = dns_new_query_id()` -/
  | renew
  /-- the packet is built, with `s_query_id` -/
  | build
  /-- `dns_server = dns_server_for_device(dev)` -/
  | choose (packet : List UInt8)
  /-- `s_query_server = dns_server` -/
  | store (packet : List UInt8) (server : Ip4Addr)
  /-- `udp_send` -/
  | send (packet : List UInt8) (server : Ip4Addr)
  /-- the clock is read in the loop's condition -/
  | wait
  /-- `if (s_resolved) break`, and `net_poll` if not -/
  | poll
  /-- `if (s_resolved)` after the loop -/
  | test
  /-- `*out_ip = s_resolved_ip` -/
  | copy
  /-- the call has returned: true with an address, or false -/
  | done (result : Option Ip4Addr)
  deriving DecidableEq, Repr

structure Call where
  hostname : List UInt8
  attempt : Nat
  pc : Pc
  queries : List Query
  received : List Datagram
  deriving DecidableEq

structure Resolver where
  dns : Dns
  dev : NetDevice
  call : Call
  deriving DecidableEq

inductive DnsOp where
  | resolve (hostname : List UInt8)
  /-- The call goes on; it may read the time stamp counter and the clock. -/
  | step (lo hi : UInt32) (expired : Bool)
  | deliver (d : Datagram)
  | configure (dev : NetDevice)

def beginCall (hostname : List UInt8) : Call where
  hostname := hostname
  attempt := 0
  pc := if hostname = [] ∨ hostname.length > dnsNameMax then .done none else .clear
  queries := []
  received := []

def Resolver.advance (w : Resolver) (lo hi : UInt32) (expired : Bool) : Resolver :=
  let c := w.call
  match c.pc with
  | .clear => { w with dns := { w.dns with resolved := false }, call := { c with pc := .renew } }
  | .renew => { w with dns := { w.dns with queryId := dnsNewQueryId lo hi }, call := { c with pc := .build } }
  | .build =>
      match dnsQuery w.dns.queryId c.hostname with
      | none => { w with call := { c with pc := .done none } }
      | some packet => { w with call := { c with pc := .choose packet } }
  | .choose packet => { w with call := { c with pc := .store packet (dnsServerForDevice w.dev) } }
  | .store packet server =>
      { w with dns := { w.dns with queryServer := server }, call := { c with pc := .send packet server } }
  | .send packet server => { w with call := { c with pc := .wait, queries := c.queries ++ [⟨server, packet⟩] } }
  | .wait => { w with call := { c with pc := if expired then .test else .poll } }
  | .poll => { w with call := { c with pc := if w.dns.resolved then .test else .wait } }
  | .test =>
      if w.dns.resolved then { w with call := { c with pc := .copy } }
      else if c.attempt + 1 < 3 then { w with call := { c with attempt := c.attempt + 1, pc := .clear } }
      else { w with call := { c with pc := .done none } }
  | .copy => { w with call := { c with pc := .done (some w.dns.resolvedIp) } }
  | .done _ => w

def Dns.deliver (s : Dns) (d : Datagram) : Dns :=
  match dnsReceive (d.data.length + 1) s d.srcIp d.ptr (UInt32.ofNat d.data.length) d.srcPort with
  | .ok s' => s'
  | .error _ => s

def DnsOp.apply (w : Resolver) : DnsOp → Resolver
  | .resolve hostname =>
      match w.call.pc with
      | .done _ => { w with call := beginCall hostname }
      | _ => w
  | .step lo hi expired => w.advance lo hi expired
  | .deliver d => { w with dns := w.dns.deliver d, call := { w.call with received := w.call.received ++ [d] } }
  | .configure dev => { w with dev := dev }

/-- The address comes from a response of a server that this call asked, with the
identifier of a query that it sent. -/
def Answered (c : Call) (ip : Ip4Addr) : Prop :=
  ∃ d ∈ c.received, (∃ q ∈ c.queries, q.server = d.srcIp) ∧
    ∃ q ∈ c.queries, ∃ id, Identifies q.packet id ∧ Answers d.ptr id ip

/-- The address that `dns_receive` takes from a datagram, if it does. -/
def Dns.answer (s : Dns) (d : Datagram) : Option Ip4Addr :=
  match dnsAnswer (d.data.length + 1) s.queryServer s.queryId d.srcIp d.ptr (UInt32.ofNat d.data.length) d.srcPort with
  | .ok answer => answer
  | .error _ => none

/-- No datagram is accepted in the first attempt of a call after `s_resolved` was cleared
and before `s_query_id` was renewed; and one that is accepted before `s_query_server` is
stored comes from the server that will be asked. -/
def DnsOp.Timely (w : Resolver) : DnsOp → Prop
  | .deliver d => w.call.attempt = 0 → w.dns.answer d ≠ none →
      match w.call.pc with
      | .renew => False
      | .build | .choose _ => w.dns.queryServer = dnsServerForDevice w.dev
      | .store _ server => w.dns.queryServer = server
      | _ => True
  | .configure dev => w.call.attempt = 0 → w.dns.resolved = true →
      match w.call.pc with
      | .build | .choose _ => dnsServerForDevice dev = dnsServerForDevice w.dev
      | _ => True
  | _ => True

def DnsStep (w : Resolver) (op : DnsOp) (next : Resolver) : Prop := op.Timely w ∧ next = op.apply w

theorem answer_spec {s : Dns} {d : Datagram} {ip : Ip4Addr} (taken : s.answer d = some ip) :
    d.srcIp = s.queryServer ∧ Answers d.ptr s.queryId ip := by
  have size : (UInt32.ofNat d.data.length).toNat = d.data.length := by
    have := d.fits
    rw [UInt32.toNat_ofNat', Nat.mod_eq_of_lt (by omega)]
  have holds : d.ptr.Holds (UInt32.ofNat d.data.length).toNat := by
    rw [size]
    simp [Ptr.Holds, Datagram.ptr]
  have safe := dnsAnswer_safe holds (by rw [size]; exact d.fits) d.data.length (Nat.le_of_eq size)
    s.queryServer d.srcIp s.queryId d.srcPort
  obtain ⟨answer, result, found⟩ := safe
  rw [Dns.answer, result] at taken
  exact found ip taken

theorem deliver_eq (s : Dns) (d : Datagram) :
    s.deliver d = match s.answer d with
      | none => s
      | some ip => { s with resolvedIp := ip, resolved := true } := by
  unfold Dns.deliver Dns.answer dnsReceive
  cases dnsAnswer (d.data.length + 1) s.queryServer s.queryId d.srcIp d.ptr (UInt32.ofNat d.data.length) d.srcPort with
  | error fault => rfl
  | ok answer =>
    cases answer with
    | none => rfl
    | some ip => rfl

theorem deliver_none {s : Dns} {d : Datagram} (silent : s.answer d = none) : s.deliver d = s := by
  rw [deliver_eq, silent]

theorem deliver_some {s : Dns} {d : Datagram} {ip : Ip4Addr} (taken : s.answer d = some ip) :
    s.deliver d = { s with resolvedIp := ip, resolved := true } := by
  rw [deliver_eq, taken]

def OwnServer (w : Resolver) (server : Ip4Addr) : Prop :=
  (∃ q ∈ w.call.queries, q.server = server) ∨
  match w.call.pc with
  | .build | .choose _ => w.call.attempt = 0 ∧ dnsServerForDevice w.dev = server
  | .store _ chosen => w.call.attempt = 0 ∧ chosen = server
  | .send _ chosen => chosen = server
  | _ => False

def OwnId (w : Resolver) (id : UInt16) : Prop :=
  (∃ q ∈ w.call.queries, Identifies q.packet id) ∨
  match w.call.pc with
  | .build | .choose _ | .store _ _ | .send _ _ => w.dns.queryId = id
  | _ => False

def Evidence (w : Resolver) : Prop :=
  w.dns.resolved = true → ∃ d ∈ w.call.received, OwnServer w d.srcIp ∧
    ∃ id, OwnId w id ∧ Answers d.ptr id w.dns.resolvedIp

def Expects (w : Resolver) : Prop :=
  match w.call.pc with
  | .clear | .renew => w.call.attempt = 0 ∨ OwnServer w w.dns.queryServer ∧ OwnId w w.dns.queryId
  | .build => w.call.attempt = 0 ∨ OwnServer w w.dns.queryServer
  | .choose packet | .store packet _ =>
      Identifies packet w.dns.queryId ∧ (w.call.attempt = 0 ∨ OwnServer w w.dns.queryServer)
  | .send packet server => Identifies packet w.dns.queryId ∧ w.dns.queryServer = server
  | .wait | .poll | .test => OwnServer w w.dns.queryServer ∧ OwnId w w.dns.queryId
  | .copy => OwnServer w w.dns.queryServer ∧ OwnId w w.dns.queryId ∧ w.dns.resolved = true
  | .done _ => True

def CallOk (w : Resolver) : Prop :=
  match w.call.pc with
  | .clear => Expects w
  | .done (some ip) => Answered w.call ip
  | .done none => True
  | _ => Expects w ∧ Evidence w

section
variable {w w' : Resolver}

theorem dnsQuery_identifies {id : UInt16} {hostname packet : List UInt8} (built : dnsQuery id hostname = some packet) :
    Identifies packet id := by
  unfold dnsQuery at built
  split at built
  · cases built
  · cases built
    simp only [Identifies, List.append_assoc]
    exact read16_htons id _

theorem Evidence.mono (evidence : Evidence w) (resolved : w'.dns.resolved = w.dns.resolved)
    (address : w'.dns.resolvedIp = w.dns.resolvedIp) (received : ∀ d ∈ w.call.received, d ∈ w'.call.received)
    (servers : ∀ server, OwnServer w server → OwnServer w' server) (ids : ∀ id, OwnId w id → OwnId w' id) :
    Evidence w' := by
  intro set
  rw [resolved] at set
  obtain ⟨d, member, server, id, own, answers⟩ := evidence set
  refine ⟨d, received d member, servers _ server, id, ids id own, ?_⟩
  rw [address]
  exact answers

theorem advance_ok (ok : CallOk w) (lo hi : UInt32) (expired : Bool) : CallOk (w.advance lo hi expired) := by
  obtain ⟨dns, dev, hostname, attempt, pc, queries, received⟩ := w
  cases pc with
  | clear => exact ⟨ok, nofun⟩
  | renew =>
    obtain ⟨expects, evidence⟩ := ok
    refine ⟨expects.imp_right fun own => ?_, evidence.mono rfl rfl (fun _ member => member) ?_ ?_⟩
    · exact Or.inl (own.1.resolve_right id)
    · exact fun server own => Or.inl (own.resolve_right id)
    · exact fun ident own => Or.inl (own.resolve_right id)
  | build =>
    obtain ⟨expects, evidence⟩ := ok
    simp only [Resolver.advance]
    split
    · exact trivial
    · rename_i packet built
      exact ⟨⟨dnsQuery_identifies built, expects⟩, evidence.mono rfl rfl (fun _ member => member)
        (fun _ own => own) fun _ own => own⟩
  | choose packet =>
    obtain ⟨expects, evidence⟩ := ok
    refine ⟨⟨expects.1, ?_⟩, evidence.mono rfl rfl (fun _ member => member) (fun _ own => own) fun _ own => own⟩
    exact expects.2.imp_right fun own => own
  | store packet server =>
    obtain ⟨expects, evidence⟩ := ok
    refine ⟨⟨expects.1, rfl⟩, evidence.mono rfl rfl (fun _ member => member) ?_ fun _ own => own⟩
    exact fun _ own => own.imp_right And.right
  | send packet server =>
    obtain ⟨⟨identifies, asked⟩, evidence⟩ := ok
    have asked : dns.queryServer = server := asked
    subst asked
    -- the query that is sent owns the server and the identifier that the receiver expects
    have servers : ∀ server, OwnServer ⟨dns, dev, hostname, attempt, .send packet dns.queryServer, queries, received⟩ server →
        ∃ q ∈ queries ++ [⟨dns.queryServer, packet⟩], q.server = server := by
      intro server own
      rcases own with ⟨q, member, same⟩ | same
      · exact ⟨q, List.mem_append_left _ member, same⟩
      · exact ⟨_, List.mem_append_right _ (List.mem_singleton.mpr rfl), same⟩
    have ids : ∀ id, OwnId ⟨dns, dev, hostname, attempt, .send packet dns.queryServer, queries, received⟩ id →
        ∃ q ∈ queries ++ [⟨dns.queryServer, packet⟩], Identifies q.packet id := by
      intro id own
      rcases own with ⟨q, member, same⟩ | rfl
      · exact ⟨q, List.mem_append_left _ member, same⟩
      · exact ⟨_, List.mem_append_right _ (List.mem_singleton.mpr rfl), identifies⟩
    refine ⟨⟨Or.inl (servers _ (Or.inr rfl)), Or.inl (ids _ (Or.inr rfl))⟩, evidence.mono rfl rfl (fun _ member => member) ?_ ?_⟩
    · exact fun server own => Or.inl (servers server own)
    · exact fun id own => Or.inl (ids id own)
  | wait =>
    cases expired with
    | true => exact ok
    | false => exact ok
  | poll =>
    simp only [Resolver.advance]
    split <;> exact ok
  | test =>
    obtain ⟨expects, evidence⟩ := ok
    simp only [Resolver.advance]
    split
    · rename_i resolved
      exact ⟨⟨expects.1, expects.2, resolved⟩, evidence⟩
    split
    · exact Or.inr expects
    · exact trivial
  | copy =>
    obtain ⟨⟨_, _, resolved⟩, evidence⟩ := ok
    obtain ⟨d, member, server, id', own, answers⟩ := evidence resolved
    obtain ⟨q, sent, same⟩ := own.resolve_right id
    exact ⟨d, member, server.resolve_right id, q, sent, id', same, answers⟩
  | done result => exact ok

theorem expected_own {d : Datagram} (expects : Expects w) (timely : (DnsOp.deliver d).Timely w)
    (taken : w.dns.answer d ≠ none) (running : w.call.pc ≠ .clear) (unfinished : ∀ r, w.call.pc ≠ .done r) :
    OwnServer w w.dns.queryServer ∧ OwnId w w.dns.queryId := by
  obtain ⟨dns, dev, hostname, attempt, pc, queries, received⟩ := w
  cases pc with
  | clear => exact absurd rfl running
  | done result => exact absurd rfl (unfinished result)
  | renew =>
    rcases expects with first | own
    · exact (timely first taken).elim
    · exact own
  | build =>
    refine ⟨?_, Or.inr rfl⟩
    rcases expects with first | own
    · exact Or.inr ⟨first, (timely first taken).symm⟩
    · exact own
  | choose packet =>
    refine ⟨?_, Or.inr rfl⟩
    rcases expects.2 with first | own
    · exact Or.inr ⟨first, (timely first taken).symm⟩
    · exact own
  | store packet server =>
    refine ⟨?_, Or.inr rfl⟩
    rcases expects.2 with first | own
    · exact Or.inr ⟨first, (timely first taken).symm⟩
    · exact own
  | send packet server => exact ⟨Or.inr expects.2.symm, Or.inr rfl⟩
  | wait => exact expects
  | poll => exact expects
  | test => exact expects
  | copy => exact ⟨expects.1, expects.2.1⟩

theorem Answered.more {c : Call} {ip : Ip4Addr} (answered : Answered c ip) (d : Datagram) :
    Answered { c with received := c.received ++ [d] } ip := by
  obtain ⟨d', member, rest⟩ := answered
  exact ⟨d', List.mem_append_left _ member, rest⟩

theorem deliver_expects (expects : Expects w) (d : Datagram) : Expects ((DnsOp.deliver d).apply w) := by
  obtain ⟨dns, dev, hostname, attempt, pc, queries, received⟩ := w
  simp only [DnsOp.apply]
  cases taken : dns.answer d with
  | none =>
    rw [deliver_none taken]
    cases pc <;> exact expects
  | some ip =>
    rw [deliver_some taken]
    cases pc with
    | copy => exact ⟨expects.1, expects.2.1, rfl⟩
    | _ => exact expects

theorem deliver_evidence (expects : Expects w) (evidence : Evidence w) (d : Datagram)
    (timely : (DnsOp.deliver d).Timely w) (running : w.call.pc ≠ .clear) (unfinished : ∀ r, w.call.pc ≠ .done r) :
    Evidence ((DnsOp.deliver d).apply w) := by
  cases taken : w.dns.answer d with
  | none =>
    have same : (DnsOp.deliver d).apply w = { w with call := { w.call with received := w.call.received ++ [d] } } := by
      rw [DnsOp.apply, deliver_none taken]
    rw [same]
    exact evidence.mono rfl rfl (fun _ member => List.mem_append_left _ member) (fun _ own => own) fun _ own => own
  | some ip =>
    obtain ⟨server, answers⟩ := answer_spec taken
    obtain ⟨ownServer, ownId⟩ := expected_own expects timely (by rw [taken]; nofun) running unfinished
    intro _
    refine ⟨d, List.mem_append_right _ (List.mem_singleton.mpr rfl), ?_, w.dns.queryId, ?_, ?_⟩
    · rw [server]
      exact ownServer
    · simp only [DnsOp.apply, deliver_some taken]
      exact ownId
    · simp only [DnsOp.apply, deliver_some taken]
      exact answers

theorem deliver_ok (ok : CallOk w) (d : Datagram) (timely : (DnsOp.deliver d).Timely w) :
    CallOk ((DnsOp.deliver d).apply w) := by
  obtain ⟨dns, dev, hostname, attempt, pc, queries, received⟩ := w
  cases pc with
  | clear => exact deliver_expects (w := ⟨dns, dev, hostname, attempt, .clear, queries, received⟩) ok d
  | done result =>
    cases result with
    | none => exact trivial
    | some ip => exact Answered.more ok d
  | _ => exact ⟨deliver_expects ok.1 d, deliver_evidence ok.1 ok.2 d timely nofun nofun⟩

theorem configure_server {dev : NetDevice} {server : Ip4Addr} (own : OwnServer w server)
    (same : w.call.attempt = 0 → dnsServerForDevice dev = dnsServerForDevice w.dev) :
    OwnServer { w with dev := dev } server := by
  obtain ⟨dns, old, hostname, attempt, pc, queries, received⟩ := w
  cases pc with
  | build => exact own.imp_right fun chosen => ⟨chosen.1, (same chosen.1).trans chosen.2⟩
  | choose packet => exact own.imp_right fun chosen => ⟨chosen.1, (same chosen.1).trans chosen.2⟩
  | _ => exact own

theorem configure_expects (w : Resolver) {dev : NetDevice} (expects : w.call.attempt = 0 ∨ OwnServer w w.dns.queryServer) :
    w.call.attempt = 0 ∨ OwnServer { w with dev := dev } w.dns.queryServer := by
  by_cases first : w.call.attempt = 0
  · exact Or.inl first
  · exact Or.inr (configure_server (expects.resolve_left first) fun again => absurd again first)

theorem configure_evidence {dev : NetDevice} (evidence : Evidence w)
    (same : w.call.attempt = 0 → w.dns.resolved = true → dnsServerForDevice dev = dnsServerForDevice w.dev) :
    Evidence { w with dev := dev } := by
  intro resolved
  obtain ⟨d, member, server, rest⟩ := evidence resolved
  exact ⟨d, member, configure_server server fun first => same first resolved, rest⟩

theorem configure_ok (ok : CallOk w) (dev : NetDevice) (timely : (DnsOp.configure dev).Timely w) :
    CallOk ((DnsOp.configure dev).apply w) := by
  obtain ⟨dns, old, hostname, attempt, pc, queries, received⟩ := w
  cases pc with
  | build => exact ⟨configure_expects ⟨dns, old, _⟩ ok.1, configure_evidence ok.2 timely⟩
  | choose packet => exact ⟨⟨ok.1.1, configure_expects ⟨dns, old, _⟩ ok.1.2⟩, configure_evidence ok.2 timely⟩
  | done result => cases result <;> exact ok
  | _ => exact ok

theorem resolve_ok (ok : CallOk w) (hostname : List UInt8) : CallOk ((DnsOp.resolve hostname).apply w) := by
  obtain ⟨dns, dev, _, _, pc, _, _⟩ := w
  cases pc with
  | done result =>
    simp only [DnsOp.apply, beginCall]
    split
    · exact trivial
    · exact Or.inl rfl
  | _ => exact ok

theorem dns_step {op : DnsOp} (ok : CallOk w) (step : DnsStep w op w') : CallOk w' := by
  obtain ⟨timely, rfl⟩ := step
  cases op with
  | resolve hostname => exact resolve_ok ok hostname
  | step lo hi expired => exact advance_ok ok lo hi expired
  | deliver d => exact deliver_ok ok d timely
  | configure dev => exact configure_ok ok dev timely

end

def bootResolver (dev : NetDevice) : Resolver where
  dns := ⟨.zero, false, 0, .zero⟩
  dev := dev
  call := ⟨[], 0, .done none, [], []⟩

theorem dns_answers_own {dev : NetDevice} {ops : List DnsOp} {w : Resolver} (run : Run DnsStep (bootResolver dev) ops w)
    {ip : Ip4Addr} (returned : w.call.pc = .done (some ip)) : Answered w.call ip := by
  have ok : CallOk w := run.invariant CallOk (by simp [CallOk, bootResolver]) fun _ _ _ ok step => dns_step ok step
  unfold CallOk at ok
  rw [returned] at ok
  exact ok

def response (id : UInt16) (ip : Ip4Addr) : List UInt8 :=
  htons id ++ [0x81, 0x80, 0, 0, 0, 1, 0, 0, 0, 0] ++ [0, 0, 1, 0, 1, 0, 0, 0, 60, 0, 4] ++ ip.bytes

def homeDevice : NetDevice := ⟨⟨2, 0, 0, 0, 0, 1⟩, ⟨10, 0, 2, 15⟩, ⟨10, 0, 2, 2⟩, ⟨255, 255, 255, 0⟩, ⟨10, 0, 2, 3⟩⟩

def firstAnswer : Datagram := ⟨⟨10, 0, 2, 3⟩, 53, response 7 ⟨1, 2, 3, 4⟩, by decide⟩

/-- The host `a` is asked for with the identifier `lo`, up to the loop's condition. -/
def askFor (lo : UInt32) : List DnsOp := .resolve [0x61] :: List.replicate 6 (.step lo 0 false)

def takeAnswer : List DnsOp := List.replicate 4 (.step 0 0 false)

def firstCall : List DnsOp := askFor 7 ++ [.deliver firstAnswer] ++ takeAnswer

theorem dns_answers_own_first :
    Answered (firstCall.foldl DnsOp.apply (bootResolver homeDevice)).call ⟨1, 2, 3, 4⟩ := by
  have allowed : Allowed (fun w op => DnsOp.Timely w op) DnsOp.apply (bootResolver homeDevice) firstCall :=
    ⟨trivial, trivial, trivial, trivial, trivial, trivial, trivial, fun _ _ => trivial,
      trivial, trivial, trivial, trivial, trivial⟩
  have returned : (firstCall.foldl DnsOp.apply (bootResolver homeDevice)).call.pc = .done (some ⟨1, 2, 3, 4⟩) := by
    decide +kernel
  exact dns_answers_own (Run.exec allowed) returned

/-- A second copy of the answer arrives in the next call, after `s_resolved` is cleared and
before the identifier is renewed. -/
def lateCopy : List DnsOp :=
  firstCall ++
    [.resolve [0x62], .step 0 0 false, .deliver firstAnswer] ++ List.replicate 5 (.step 8 0 false) ++ takeAnswer

theorem late_answer_returned :
    (lateCopy.foldl DnsOp.apply (bootResolver homeDevice)).call.pc = .done (some ⟨1, 2, 3, 4⟩) ∧
      ¬ Answered (lateCopy.foldl DnsOp.apply (bootResolver homeDevice)).call ⟨1, 2, 3, 4⟩ := by
  obtain ⟨w, here⟩ : ∃ w, w = lateCopy.foldl DnsOp.apply (bootResolver homeDevice) := ⟨_, rfl⟩
  have pc : w.call.pc = .done (some ⟨1, 2, 3, 4⟩) := by
    rw [here]
    decide +kernel
  have received : w.call.received = [firstAnswer] := by
    rw [here]
    decide +kernel
  have packet : ∀ q ∈ w.call.queries, (dnsQuery 8 [0x62]) = some q.packet := by
    rw [here]
    decide +kernel
  rw [← here]
  refine ⟨pc, ?_⟩
  rintro ⟨d, member, _, q, sent, id, identifies, answers⟩
  rw [received, List.mem_singleton] at member
  subst member
  have eight := dnsQuery_identifies (packet q sent)
  have seven : firstAnswer.ptr.read16 0 = .ok 7 := rfl
  rw [Identifies, eight] at identifies
  rw [answers.ident] at seven
  cases identifies
  cases seven

end RexOs.Net
