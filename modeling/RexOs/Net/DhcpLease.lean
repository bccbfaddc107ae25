import RexOs.Net.DhcpClient

/-! Which messages change the address of the device.

`Progress` says for each step of the call what it has copied of an offer; it holds as long as
no offer arrives while the shared variables are reset or copied.
-/

set_option autoImplicit false

namespace RexOs.Net

open RexOs.Library

theorem deliver_eq_reply (c : DhcpClient) (d : Datagram) :
    c.deliver d = match dhcpReplyOf c.dev.mac c.dhcp.xid d with
      | none => c
      | some (o, yiaddr) =>
          { c with
            dev := (applyReply c.dev c.dhcp (some (o, yiaddr))).1
            dhcp := (applyReply c.dev c.dhcp (some (o, yiaddr))).2
            offers := if o.msgType = dhcpOffer then c.offers ++ [(yiaddr, o.serverId)] else c.offers } := by
  unfold DhcpClient.deliver dhcpReplyOf
  rw [dhcpReceive_eq]
  cases dhcpReply (d.data.length + 1) c.dev.mac c.dhcp.xid d.ptr (UInt32.ofNat d.data.length) d.srcPort with
  | error fault => rfl
  | ok reply =>
    cases reply with
    | none => rfl
    | some reply => rfl

variable {c c' : DhcpClient} {d : Datagram} {o : DhcpOptions} {yiaddr : Ip4Addr}

theorem deliver_offer (reply : dhcpReplyOf c.dev.mac c.dhcp.xid d = some (o, yiaddr)) (offer : o.msgType = dhcpOffer) :
    c.deliver d = { c with
      dhcp := { c.dhcp with offeredIp := yiaddr, serverId := o.serverId, offerSeen := true }
      offers := c.offers ++ [(yiaddr, o.serverId)] } := by
  rw [deliver_eq_reply, reply]
  simp only [applyReply, offer, if_true]

theorem deliver_ack (reply : dhcpReplyOf c.dev.mac c.dhcp.xid d = some (o, yiaddr)) (ack : o.msgType = dhcpAck) :
    ∃ dev, dev.ip = yiaddr ∧ c.deliver d = { c with dev := dev, dhcp := { c.dhcp with ackSeen := true } } := by
  have other : dhcpAck ≠ dhcpOffer := by decide
  rw [deliver_eq_reply, reply]
  simp only [applyReply, ack, other, if_false, if_true]
  exact ⟨_, rfl, rfl⟩

theorem deliver_other (neither : ∀ o yiaddr, dhcpReplyOf c.dev.mac c.dhcp.xid d = some (o, yiaddr) →
    o.msgType ≠ dhcpOffer ∧ o.msgType ≠ dhcpAck) : c.deliver d = c := by
  rw [deliver_eq_reply]
  rcases reply : dhcpReplyOf c.dev.mac c.dhcp.xid d with _ | ⟨o, yiaddr⟩
  · rfl
  · obtain ⟨notOffer, notAck⟩ := neither o yiaddr reply
    simp only [applyReply, notOffer, notAck, if_false]

def DhcpPc.Settled : DhcpPc → Prop
  | .reset _ k => k ≤ 1 ∨ 11 ≤ k
  | .copyIp _ ip => ip = []
  | .testServer _ _ _ => False
  | .copyServer _ _ _ => False
  | _ => True

instance : DecidablePred DhcpPc.Settled
  | .reset _ k => inferInstanceAs (Decidable (k ≤ 1 ∨ 11 ≤ k))
  | .copyIp _ ip => inferInstanceAs (Decidable (ip = []))
  | .testServer _ _ _ => .isFalse id
  | .copyServer _ _ _ => .isFalse id
  | .waitOffer _ => .isTrue trivial
  | .send _ _ _ => .isTrue trivial
  | .waitAck _ => .isTrue trivial
  | .done _ => .isTrue trivial

/-- `s_xid++` is next. -/
def DhcpPc.CountsUp (pc : DhcpPc) : Prop := ∃ n, pc = .reset n 0

instance : DecidablePred DhcpPc.CountsUp
  | .reset n 0 => .isTrue ⟨n, rfl⟩
  | .reset _ (_ + 1) => .isFalse nofun
  | .waitOffer _ => .isFalse nofun
  | .copyIp _ _ => .isFalse nofun
  | .testServer _ _ _ => .isFalse nofun
  | .copyServer _ _ _ => .isFalse nofun
  | .send _ _ _ => .isFalse nofun
  | .waitAck _ => .isFalse nofun
  | .done _ => .isFalse nofun

def AnswersRequest (c : DhcpClient) (o : DhcpOptions) (yiaddr : Ip4Addr) : Prop :=
  ∃ m ∈ c.sent, m.msgType = dhcpRequest ∧ m.xid = c.dhcp.xid ∧ m.reqIp = some yiaddr.bytes ∧
    m.serverId.getD Ip4Addr.zero.bytes = o.serverId.bytes

instance (c : DhcpClient) (o : DhcpOptions) (yiaddr : Ip4Addr) : Decidable (AnswersRequest c o yiaddr) :=
  inferInstanceAs (Decidable (∃ m ∈ c.sent, _))

/-- Servers acknowledge what was requested from them, and no offer arrives while another one is reset or copied. -/
def OrderlyReply (c : DhcpClient) : Option (DhcpOptions × Ip4Addr) → Prop
  | none => True
  | some (o, yiaddr) => (o.msgType = dhcpAck → AnswersRequest c o yiaddr) ∧ (o.msgType = dhcpOffer → c.pc.Settled)

instance (c : DhcpClient) : DecidablePred (OrderlyReply c)
  | none => .isTrue trivial
  | some (o, yiaddr) => inferInstanceAs
      (Decidable ((o.msgType = dhcpAck → AnswersRequest c o yiaddr) ∧ (o.msgType = dhcpOffer → c.pc.Settled)))

/-- The device has no address when it is configured, and no transaction number is used twice. -/
def DhcpOp.Orderly (c : DhcpClient) : DhcpOp → Prop
  | .configure => c.dev.ip = .zero
  | .step _ => c.pc.CountsUp → ∀ m ∈ c.sent, m.xid ≠ c.dhcp.xid + 1
  | .deliver d => OrderlyReply c (dhcpReplyOf c.dev.mac c.dhcp.xid d)

instance (c : DhcpClient) : DecidablePred (DhcpOp.Orderly c)
  | .configure => inferInstanceAs (Decidable (c.dev.ip = .zero))
  | .step _ => inferInstanceAs (Decidable (c.pc.CountsUp → ∀ m ∈ c.sent, m.xid ≠ c.dhcp.xid + 1))
  | .deliver d => inferInstanceAs (Decidable (OrderlyReply c (dhcpReplyOf c.dev.mac c.dhcp.xid d)))

theorem DhcpOp.Orderly.reply {c : DhcpClient} {d : Datagram} {o : DhcpOptions} {yiaddr : Ip4Addr}
    (orderly : (DhcpOp.deliver d).Orderly c) (reply : dhcpReplyOf c.dev.mac c.dhcp.xid d = some (o, yiaddr)) :
    OrderlyReply c (some (o, yiaddr)) := reply ▸ orderly

def OrderlyDhcpStep (c : DhcpClient) (op : DhcpOp) (next : DhcpClient) : Prop := op.Orderly c ∧ DhcpStep c op next

theorem DhcpOp.Orderly.step {c : DhcpClient} {op : DhcpOp} (orderly : op.Orderly c) :
    OrderlyDhcpStep c op (op.apply c) := ⟨orderly, rfl⟩

def FromOneOffer (c : DhcpClient) (ip server : List UInt8) : Prop :=
  ∃ offer ∈ c.offers, ip = offer.1.bytes ∧ server = offer.2.bytes

def DhcpClient.Holds (c : DhcpClient) : Prop := (c.dhcp.offeredIp, c.dhcp.serverId) ∈ c.offers

def DhcpClient.Progress (c : DhcpClient) : Prop :=
  match c.pc with
  | .reset _ k => (1 ≤ k → c.request = none) ∧ (2 ≤ k → k < 11 → c.dhcp.offerSeen = false) ∧
      (11 ≤ k → c.dhcp.offerSeen = true → c.Holds)
  | .waitOffer _ => c.request = none ∧ (c.dhcp.offerSeen = true → c.Holds)
  | .copyIp _ ip => c.request = none ∧ c.Holds ∧ ip = c.dhcp.offeredIp.bytes.take ip.length ∧ ip.length < 4
  | .testServer _ ip k => c.request = none ∧ c.Holds ∧ ip = c.dhcp.offeredIp.bytes ∧ k < 4 ∧
      ∀ j < k, c.dhcp.serverId.byte j = 0
  | .copyServer _ ip server => c.request = none ∧ c.Holds ∧ ip = c.dhcp.offeredIp.bytes ∧
      server = c.dhcp.serverId.bytes.take server.length ∧ server.length < 4
  | .send _ ip server => c.request = none ∧ FromOneOffer c ip (server.getD Ip4Addr.zero.bytes)
  | .waitAck _ => True
  | .done _ => True

structure DhcpClient.Sound (c : DhcpClient) : Prop where
  progress : c.Progress
  request : ∀ r, c.request = some r → FromOneOffer c r.ip r.server
  sent : ∀ m ∈ c.sent, m.msgType = dhcpRequest → m.xid = c.dhcp.xid →
    ∃ r, c.request = some r ∧ m.reqIp = some r.ip ∧ m.serverId.getD Ip4Addr.zero.bytes = r.server

theorem dhcpStart_sound (dev : NetDevice) : (dhcpStart dev).Sound := ⟨trivial, nofun, nofun⟩

theorem take_snoc {a : Ip4Addr} {l : List UInt8} (copied : l = a.bytes.take l.length) (more : l.length < 4) :
    l ++ [a.byte l.length] = a.bytes.take (l.length + 1) := by
  have inside : l.length < a.bytes.length := more
  rw [List.take_succ_eq_append_getElem inside, ← copied, Ip4Addr.byte, List.getD_eq_getElem?_getD,
    List.getElem?_eq_getElem inside, Option.getD_some]

theorem DhcpClient.Sound.offer (sound : c.Sound) (reply : dhcpReplyOf c.dev.mac c.dhcp.xid d = some (o, yiaddr))
    (offer : o.msgType = dhcpOffer) (settled : c.pc.Settled) : (c.deliver d).Sound := by
  obtain ⟨progress, request, sent⟩ := sound
  have now : (yiaddr, o.serverId) ∈ c.offers ++ [(yiaddr, o.serverId)] := List.mem_append_right _ (List.mem_singleton_self _)
  rw [deliver_offer reply offer]
  refine ⟨?_, ?_, sent⟩
  · unfold DhcpClient.Progress at progress ⊢
    cases pc : c.pc with
    | reset n k =>
      rw [pc] at progress settled
      refine ⟨progress.1, ?_, fun _ _ => now⟩
      intro low high
      rcases settled with before | after <;> omega
    | waitOffer n =>
      rw [pc] at progress
      exact ⟨progress.1, fun _ => now⟩
    | copyIp n ip =>
      rw [pc] at progress settled
      obtain rfl : ip = [] := settled
      exact ⟨progress.1, now, rfl, by decide⟩
    | testServer n ip k =>
      rw [pc] at settled
      exact absurd settled id
    | copyServer n ip server =>
      rw [pc] at settled
      exact absurd settled id
    | send n ip server =>
      rw [pc] at progress
      obtain ⟨none_, old, member, same⟩ := progress
      exact ⟨none_, old, List.mem_append_left _ member, same⟩
    | waitAck n => trivial
    | done r => trivial
  · intro r asked
    obtain ⟨old, member, same⟩ := request r asked
    exact ⟨old, List.mem_append_left _ member, same⟩

theorem DhcpClient.Sound.deliver (sound : c.Sound) (orderly : (DhcpOp.deliver d).Orderly c) : (c.deliver d).Sound := by
  by_cases found : ∃ o yiaddr, dhcpReplyOf c.dev.mac c.dhcp.xid d = some (o, yiaddr) ∧
      (o.msgType = dhcpOffer ∨ o.msgType = dhcpAck)
  · obtain ⟨o, yiaddr, reply, offer | ack⟩ := found
    · exact sound.offer reply offer ((orderly.reply reply).2 offer)
    · obtain ⟨dev, _, after⟩ := deliver_ack reply ack
      rw [after]
      exact ⟨sound.progress, sound.request, sound.sent⟩
  · rw [deliver_other]
    · exact sound
    · intro o yiaddr reply
      exact not_or.mp fun either => found ⟨o, yiaddr, reply, either⟩

theorem resetStep_seen (s : Dhcp) {k : Nat} (low : 1 ≤ k) :
    (s.resetStep k).xid = s.xid ∧ (k = 1 ∨ s.offerSeen = false → (s.resetStep k).offerSeen = false) := by
  rcases k with _ | _ | _ | k
  · omega
  · exact ⟨rfl, fun _ => rfl⟩
  · refine ⟨rfl, ?_⟩
    rintro (first | clear)
    · omega
    · exact clear
  · have same : (s.resetStep (k + 3)).xid = s.xid ∧ (s.resetStep (k + 3)).offerSeen = s.offerSeen := by
      simp only [Dhcp.resetStep]
      split <;> exact ⟨rfl, rfl⟩
    refine ⟨same.1, ?_⟩
    rintro (first | clear)
    · omega
    · exact same.2.trans clear

theorem nextAttempt_progress (c : DhcpClient) (n : Nat) : { c with pc := nextAttempt n }.Progress := by
  unfold nextAttempt
  split
  · exact ⟨fun one => absurd one (by decide), fun two => absurd two (by decide), fun high => absurd high (by decide)⟩
  · trivial

theorem zero_byte {a : Ip4Addr} (clear : ∀ j < 4, a.byte j = 0) : a.bytes = Ip4Addr.zero.bytes := by
  have b0 : a.b0 = 0 := clear 0 (by decide)
  have b1 : a.b1 = 0 := clear 1 (by decide)
  have b2 : a.b2 = 0 := clear 2 (by decide)
  have b3 : a.b3 = 0 := clear 3 (by decide)
  rw [Ip4Addr.bytes, b0, b1, b2, b3]
  rfl

theorem DhcpClient.Sound.goto (sound : c.Sound) {pc : DhcpPc} (progress : { c with pc := pc }.Progress) :
    { c with pc := pc }.Sound :=
  ⟨progress, sound.request, sound.sent⟩

theorem DhcpClient.Sound.reset (sound : c.Sound) (expired : Bool) {n k : Nat} (pc : c.pc = .reset n k)
    (fresh : c.pc.CountsUp → ∀ m ∈ c.sent, m.xid ≠ c.dhcp.xid + 1) : (c.advance expired).Sound := by
  obtain ⟨progress, request, sent⟩ := sound
  unfold DhcpClient.Progress at progress
  unfold DhcpClient.advance
  rw [pc] at progress ⊢
  obtain ⟨none_, clear, held⟩ := progress
  dsimp only
  split
  · rename_i first
    subst first
    refine ⟨⟨fun _ => rfl, fun two => absurd two (by decide), fun high => absurd high (by decide)⟩, nofun, ?_⟩
    intro m member _ same
    exact absurd same (fresh ⟨n, pc⟩ m member)
  · rename_i later
    have one : 1 ≤ k := Nat.one_le_iff_ne_zero.mpr later
    obtain ⟨xid, seen⟩ := resetStep_seen c.dhcp one
    split
    · have closed : (c.dhcp.resetStep k).offerSeen = false := by
        apply seen
        rcases Nat.lt_or_ge k 2 with first | more
        · exact Or.inl (by omega)
        · exact Or.inr (clear more ‹_›)
      refine ⟨⟨fun _ => none_ one, fun _ _ => closed, ?_⟩, request, ?_⟩
      · intro _ opened
        exact absurd (closed.symm.trans opened) (by decide)
      · intro m member type same
        exact sent m member type (same.trans xid)
    · refine ⟨⟨none_ one, held (by omega)⟩, request, ?_⟩
      intro m member type same
      rcases List.mem_append.mp member with old | new
      · exact sent m old type same
      · rw [List.mem_singleton.mp new] at type
        exact absurd type (show dhcpDiscover ≠ dhcpRequest by decide)

theorem DhcpClient.Sound.wait (sound : c.Sound) (expired : Bool) {n : Nat} (pc : c.pc = .waitOffer n ∨ c.pc = .waitAck n) :
    (c.advance expired).Sound := by
  have progress := sound.progress
  unfold DhcpClient.Progress at progress
  unfold DhcpClient.advance
  rcases pc with pc | pc <;> rw [pc] at progress ⊢ <;> dsimp only
  · split
    · rename_i seen
      exact sound.goto ⟨progress.1, progress.2 seen, rfl, by decide⟩
    · split
      · exact sound.goto (nextAttempt_progress c n)
      · exact sound
  · split
    · exact sound.goto trivial
    · split
      · exact sound.goto (nextAttempt_progress c n)
      · exact sound

theorem DhcpClient.Sound.copy (sound : c.Sound) (expired : Bool)
    (pc : (∃ n ip, c.pc = .copyIp n ip) ∨ (∃ n ip k, c.pc = .testServer n ip k) ∨ ∃ n ip server, c.pc = .copyServer n ip server) :
    (c.advance expired).Sound := by
  have progress := sound.progress
  unfold DhcpClient.Progress at progress
  unfold DhcpClient.advance
  rcases pc with ⟨n, ip, pc⟩ | ⟨n, ip, k, pc⟩ | ⟨n, ip, server, pc⟩ <;> rw [pc] at progress ⊢ <;> dsimp only
  · obtain ⟨none_, held, copied, more⟩ := progress
    have next := take_snoc copied more
    have length : (ip ++ [c.dhcp.offeredIp.byte ip.length]).length = ip.length + 1 := by simp
    rw [length]
    apply sound.goto
    split
    · exact ⟨none_, held, length ▸ next, length ▸ ‹_›⟩
    · have whole : ip.length + 1 = 4 := by omega
      rw [whole] at next
      exact ⟨none_, held, next, by decide, nofun⟩
  · obtain ⟨none_, held, copied, more, zeros⟩ := progress
    apply sound.goto
    split
    · exact ⟨none_, held, copied, rfl, by decide⟩
    · rename_i zero
      have upTo : ∀ j < k + 1, c.dhcp.serverId.byte j = 0 := by
        intro j small
        rcases Nat.lt_or_eq_of_le (Nat.le_of_lt_succ small) with before | rfl
        · exact zeros j before
        · exact not_not.mp zero
      split
      · exact ⟨none_, held, copied, ‹_›, upTo⟩
      · have whole : k + 1 = 4 := by omega
        rw [whole] at upTo
        exact ⟨none_, _, held, copied, (zero_byte upTo).symm⟩
  · obtain ⟨none_, held, copied, part, more⟩ := progress
    have next := take_snoc part more
    have length : (server ++ [c.dhcp.serverId.byte server.length]).length = server.length + 1 := by simp
    rw [length]
    apply sound.goto
    split
    · exact ⟨none_, held, copied, length ▸ next, length ▸ ‹_›⟩
    · have whole : server.length + 1 = 4 := by omega
      rw [whole] at next
      exact ⟨none_, _, held, copied, next⟩

theorem DhcpClient.Sound.send (sound : c.Sound) (expired : Bool) {n : Nat} {ip : List UInt8} {server : Option (List UInt8)}
    (pc : c.pc = .send n ip server) : (c.advance expired).Sound := by
  obtain ⟨progress, request, sent⟩ := sound
  unfold DhcpClient.Progress at progress
  unfold DhcpClient.advance
  rw [pc] at progress ⊢
  obtain ⟨none_, fromOffer⟩ := progress
  refine ⟨trivial, ?_, ?_⟩
  · intro r asked
    obtain rfl := Option.some.inj asked
    exact fromOffer
  · intro m member type same
    rcases List.mem_append.mp member with old | new
    · obtain ⟨r, asked, _⟩ := sent m old type same
      rw [none_] at asked
      cases asked
    · rw [List.mem_singleton.mp new]
      exact ⟨_, rfl, rfl, rfl⟩

theorem DhcpClient.Sound.advance (sound : c.Sound) (expired : Bool) (orderly : (DhcpOp.step expired).Orderly c) :
    (c.advance expired).Sound := by
  cases pc : c.pc with
  | reset n k => exact sound.reset expired pc orderly
  | waitOffer n => exact sound.wait expired (Or.inl pc)
  | copyIp n ip => exact sound.copy expired (Or.inl ⟨n, ip, pc⟩)
  | testServer n ip k => exact sound.copy expired (Or.inr (Or.inl ⟨n, ip, k, pc⟩))
  | copyServer n ip server => exact sound.copy expired (Or.inr (Or.inr ⟨n, ip, server, pc⟩))
  | send n ip server => exact sound.send expired pc
  | waitAck n => exact sound.wait expired (Or.inr pc)
  | done r =>
    unfold DhcpClient.advance
    rw [pc]
    exact sound

theorem DhcpClient.Sound.step (sound : c.Sound) {op : DhcpOp} (step : OrderlyDhcpStep c op c') : c'.Sound := by
  obtain ⟨orderly, rfl⟩ := step
  cases op with
  | configure =>
    unfold DhcpOp.apply
    cases pc : c.pc with
    | done r =>
      refine ⟨⟨fun one => absurd one (by decide), fun two => absurd two (by decide), fun high => absurd high (by decide)⟩,
        sound.request, sound.sent⟩
    | _ => exact sound
  | step expired => exact sound.advance expired orderly
  | deliver d => exact sound.deliver orderly

/-- The step delivers an acknowledgement of the current transaction after its REQUEST, from the server that was asked
and with the address that was requested. -/
def Acknowledges (c : DhcpClient) (op : DhcpOp) : Prop :=
  ∃ d o yiaddr r, op = .deliver d ∧ dhcpReplyOf c.dev.mac c.dhcp.xid d = some (o, yiaddr) ∧ o.msgType = dhcpAck ∧
    c.request = some r ∧ r.ip = yiaddr.bytes ∧ r.server = o.serverId.bytes

theorem advance_dev (c : DhcpClient) (expired : Bool) : (c.advance expired).dev = c.dev := by
  unfold DhcpClient.advance
  cases c.pc with
  | reset n k =>
    dsimp only
    split
    · rfl
    · split <;> rfl
  | waitOffer n | waitAck n =>
    dsimp only
    split
    · rfl
    · split <;> rfl
  | _ => rfl

theorem deliver_ip (silent : ∀ o yiaddr, dhcpReplyOf c.dev.mac c.dhcp.xid d = some (o, yiaddr) → o.msgType ≠ dhcpAck) :
    (c.deliver d).dev.ip = c.dev.ip := by
  by_cases found : ∃ o yiaddr, dhcpReplyOf c.dev.mac c.dhcp.xid d = some (o, yiaddr) ∧ o.msgType = dhcpOffer
  · obtain ⟨o, yiaddr, reply, offer⟩ := found
    rw [deliver_offer reply offer]
  · rw [deliver_other]
    intro o yiaddr reply
    exact ⟨fun offer => found ⟨o, yiaddr, reply, offer⟩, silent o yiaddr reply⟩

theorem DhcpClient.Sound.lease (sound : c.Sound) {op : DhcpOp} (step : OrderlyDhcpStep c op c')
    (changed : c'.dev.ip ≠ c.dev.ip) : Acknowledges c op := by
  obtain ⟨orderly, rfl⟩ := step
  cases op with
  | configure =>
    apply absurd _ changed
    have unset : c.dev.ip = .zero := orderly
    cases pc : c.pc with
    | done r =>
      simp only [DhcpOp.apply, pc]
      exact unset.symm
    | _ => simp only [DhcpOp.apply, pc]
  | step expired =>
    apply absurd _ changed
    exact congrArg NetDevice.ip (advance_dev c expired)
  | deliver d =>
    by_cases found : ∃ o yiaddr, dhcpReplyOf c.dev.mac c.dhcp.xid d = some (o, yiaddr) ∧ o.msgType = dhcpAck
    · obtain ⟨o, yiaddr, reply, ack⟩ := found
      obtain ⟨m, member, type, same, ip, server⟩ := (orderly.reply reply).1 ack
      obtain ⟨r, asked, reqIp, reqServer⟩ := sound.sent m member type same
      refine ⟨d, o, yiaddr, r, rfl, reply, ack, asked, ?_, ?_⟩
      · exact Option.some.inj (reqIp.symm.trans ip)
      · exact reqServer.symm.trans server
    · apply absurd _ changed
      apply deliver_ip
      intro o yiaddr reply ack
      exact found ⟨o, yiaddr, reply, ack⟩

theorem leases_safe {dev : NetDevice} {ops : List DhcpOp} (run : Run OrderlyDhcpStep (dhcpStart dev) ops c) :
    (∀ op c', OrderlyDhcpStep c op c' → c'.dev.ip ≠ c.dev.ip → Acknowledges c op) ∧
      ∀ r, c.request = some r → FromOneOffer c r.ip r.server := by
  have sound := run.invariant DhcpClient.Sound (dhcpStart_sound dev) fun _ _ _ sound step => sound.step step
  exact ⟨fun _ _ step changed => sound.lease step changed, sound.request⟩

def serverMessage (mac : MacAddr) (xid : UInt32) (yiaddr server : Ip4Addr) (msgType : UInt8) : Datagram where
  srcIp := server
  srcPort := dhcpServerPort
  data := [2, 1, 6, 0] ++ htonl xid ++ List.replicate 8 0 ++ yiaddr.bytes ++ List.replicate 8 0 ++ mac.bytes ++
    List.replicate 202 0 ++ htonl dhcpMagicCookie ++ [53, 1, msgType, 54, 4] ++ server.bytes ++ [255]
  fits := by
    simp only [List.length_append, List.length_replicate, List.length_cons, List.length_nil, htonl, Ip4Addr.bytes,
      MacAddr.bytes]
    decide

def bootDevice : NetDevice := ⟨⟨2, 0, 0, 0, 0, 1⟩, .zero, .zero, .zero, .zero⟩

def bootMessage (yiaddr : Ip4Addr) (msgType : UInt8) : DhcpOp :=
  .deliver (serverMessage bootDevice.mac 0x52455802 yiaddr ⟨10, 0, 2, 2⟩ msgType)

def bootOps : List DhcpOp :=
  .configure :: List.replicate 12 (.step false) ++ bootMessage ⟨10, 0, 2, 15⟩ dhcpOffer :: List.replicate 11 (.step false)

def bootClient : DhcpClient := bootOps.foldl (fun c op => op.apply c) (dhcpStart bootDevice)

theorem bootOps_run : Run OrderlyDhcpStep (dhcpStart bootDevice) bootOps bootClient := by
  apply Run.exec
  decide +kernel

theorem bootAck_orderly : (bootMessage ⟨10, 0, 2, 15⟩ dhcpAck).Orderly bootClient := by decide +kernel

theorem bootAck_changes : ((bootMessage ⟨10, 0, 2, 15⟩ dhcpAck).apply bootClient).dev.ip ≠ bootClient.dev.ip := by
  decide +kernel

theorem leases_safe_boot : Acknowledges bootClient (bootMessage ⟨10, 0, 2, 15⟩ dhcpAck) :=
  (leases_safe bootOps_run).1 _ _ bootAck_orderly.step bootAck_changes

/-- An acknowledgement is taken before anything was requested. -/
theorem early_ack_taken : ¬ ∀ (ops : List DhcpOp) (c c' : DhcpClient) (op : DhcpOp),
    Run DhcpStep (dhcpStart bootDevice) ops c → DhcpStep c op c' → c'.dev.ip ≠ c.dev.ip → Acknowledges c op := by
  intro safe
  let c := DhcpOp.apply (DhcpOp.apply (dhcpStart bootDevice) .configure) (.step false)
  have begun : DhcpStep (dhcpStart bootDevice) .configure _ := rfl
  have counted : DhcpStep (DhcpOp.apply (dhcpStart bootDevice) .configure) (.step false) c := rfl
  have changed : (DhcpOp.apply c (bootMessage ⟨6, 6, 6, 6⟩ dhcpAck)).dev.ip ≠ c.dev.ip := by decide +kernel
  obtain ⟨_, _, _, r, _, _, _, asked, _⟩ := safe _ _ _ _ ((Run.nil.snoc begun).snoc counted) rfl changed
  cases asked

end RexOs.Net
