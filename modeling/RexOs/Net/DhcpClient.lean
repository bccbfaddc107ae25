import RexOs.Net.DnsHistory
import RexOs.Net.Dhcp

/-! Calls of `dhcp_configure` interleaved with DHCP messages (`kernel/net/dhcp.c`).

`dhcp_configure` and `dhcp_send` are a sequence of steps, one for each byte or flag that
they share with the receiver; a message may arrive between any two of them. The receiver
itself is not interrupted.
-/

set_option autoImplicit false

namespace RexOs.Net

open RexOs.Library

def dhcpDiscover : UInt8 := 1
def dhcpOffer : UInt8 := 2
def dhcpRequest : UInt8 := 3
def dhcpAck : UInt8 := 5

/-- The part of `dhcp_receive` that decides whether a message is for this client, with what it reads. -/
def dhcpReply (fuel : Nat) (mac : MacAddr) (own : UInt32) (p : Ptr) (len : UInt32) (srcPort : UInt16) :
    Except NetFault (Option (DhcpOptions × Ip4Addr)) :=
  if srcPort ≠ dhcpServerPort ∨ len < UInt32.ofNat dhcpPacketSize then .ok none
  else do
    let op ← p.read 0
    let htype ← p.read 1
    let hlen ← p.read 2
    if op ≠ 2 ∨ htype ≠ 1 ∨ hlen ≠ 6 then .ok none
    else
      let xid ← p.read32 4
      if xid ≠ own then .ok none
      else
        let magic ← p.read32 236
        if magic ≠ dhcpMagicCookie then .ok none
        else
          let chaddr ← p.readMac 28
          if chaddr ≠ mac then .ok none
          else
            let o ← dhcpParseOptions (p.add dhcpPacketSize) (len - UInt32.ofNat dhcpPacketSize) fuel 0
              ⟨0, .zero, .zero, .zero, .zero⟩
            let yiaddr ← p.readIp 16
            .ok (some (o, yiaddr))

def applyReply (dev : NetDevice) (s : Dhcp) : Option (DhcpOptions × Ip4Addr) → NetDevice × Dhcp
  | none => (dev, s)
  | some (o, yiaddr) =>
      if o.msgType = dhcpOffer then (dev, { s with offeredIp := yiaddr, serverId := o.serverId, offerSeen := true })
      else if o.msgType = dhcpAck then
        ({ dev with
          ip := yiaddr
          netmask := o.netmask.orKeep dev.netmask
          gateway := o.gateway.orKeep dev.gateway
          dnsServer := o.dnsServer.orKeep dev.dnsServer }, { s with ackSeen := true })
      else (dev, s)

section
variable {ε α β γ : Type}

theorem map_ok (x : α) (f : α → β) : (Except.ok x : Except ε α).map f = .ok (f x) := rfl

theorem map_bind (x : Except ε α) (g : α → Except ε β) (f : β → γ) : (x >>= g).map f = x >>= fun a => (g a).map f := by
  cases x <;> rfl

end

theorem dhcpReceive_eq (fuel : Nat) (dev : NetDevice) (s : Dhcp) (p : Ptr) (len : UInt32) (srcPort : UInt16) :
    dhcpReceive fuel dev s p len srcPort = (dhcpReply fuel dev.mac s.xid p len srcPort).map (applyReply dev s) := by
  simp only [dhcpReceive, dhcpReply, apply_ite (Except.map (applyReply dev s)), map_bind, map_ok, applyReply,
    apply_ite Except.ok]
  rfl

/-- The reply to transaction `xid` that a datagram from port 67 carries. -/
def dhcpReplyOf (mac : MacAddr) (xid : UInt32) (d : Datagram) : Option (DhcpOptions × Ip4Addr) :=
  match dhcpReply (d.data.length + 1) mac xid d.ptr (UInt32.ofNat d.data.length) d.srcPort with
  | .ok reply => reply
  | .error _ => none

structure DhcpMessage where
  msgType : UInt8
  xid : UInt32
  reqIp : Option (List UInt8)
  serverId : Option (List UInt8)
  deriving DecidableEq, Repr

def dhcpBuildBase (mac : MacAddr) (xid : UInt32) : List UInt8 :=
  [1, 1, 6, 0] ++ htonl xid ++ [0, 0] ++ htons 0x8000 ++ List.replicate 16 0 ++ mac.bytes ++ List.replicate 10 0 ++
    List.replicate 192 0 ++ htonl dhcpMagicCookie

/-- The packet that `dhcp_send` hands to `udp_send`. -/
def DhcpMessage.packet (mac : MacAddr) (m : DhcpMessage) : List UInt8 :=
  dhcpBuildBase mac m.xid ++ [53, 1, m.msgType] ++
    (match m.reqIp with | some ip => [50, 4] ++ ip | none => []) ++
    (match m.serverId with | some ip => [54, 4] ++ ip | none => []) ++ [55, 3, 1, 3, 6, 255]

/-- The statement of `dhcp_configure` and `dhcp_send` that is next, with the number of the attempt. -/
inductive DhcpPc where
  /-- `s_xid++`, the two flags, then the bytes of `s_offered_ip` and `s_server_id`, and DISCOVER -/
  | reset (attempt k : Nat)
  /-- the loop that waits for `s_offer_seen` -/
  | waitOffer (attempt : Nat)
  /-- `kmemcpy(buffer + pos, req_ip->ip, 4)` -/
  | copyIp (attempt : Nat) (ip : List UInt8)
  /-- `ip4_is_zero(server_id)`, at byte `k` -/
  | testServer (attempt : Nat) (ip : List UInt8) (k : Nat)
  /-- `kmemcpy(buffer + pos, server_id->ip, 4)` -/
  | copyServer (attempt : Nat) (ip server : List UInt8)
  /-- `udp_send` of the REQUEST -/
  | send (attempt : Nat) (ip : List UInt8) (server : Option (List UInt8))
  /-- the loop that waits for `s_ack_seen` -/
  | waitAck (attempt : Nat)
  /-- no call is under way; the result of the last one -/
  | done (result : Bool)
  deriving DecidableEq, Repr

structure Lease where
  ip : List UInt8
  server : List UInt8
  deriving DecidableEq, Repr

/-- `offers` and `request` record what the current transaction has seen: they start anew with its number. -/
structure DhcpClient where
  dev : NetDevice
  dhcp : Dhcp
  pc : DhcpPc
  sent : List DhcpMessage
  offers : List (Ip4Addr × Ip4Addr)
  request : Option Lease
  deriving DecidableEq

def Ip4Addr.byte (a : Ip4Addr) (k : Nat) : UInt8 := a.bytes.getD k 0

def Ip4Addr.clearByte (a : Ip4Addr) : Nat → Ip4Addr
  | 0 => { a with b0 := 0 }
  | 1 => { a with b1 := 0 }
  | 2 => { a with b2 := 0 }
  | _ => { a with b3 := 0 }

def Dhcp.resetStep (s : Dhcp) : Nat → Dhcp
  | 0 => { s with xid := s.xid + 1 }
  | 1 => { s with offerSeen := false }
  | 2 => { s with ackSeen := false }
  | k + 3 => if k < 4 then { s with offeredIp := s.offeredIp.clearByte k } else { s with serverId := s.serverId.clearByte (k - 4) }

def dhcpAttempts : Nat := 3

def nextAttempt (attempt : Nat) : DhcpPc := if attempt + 1 < dhcpAttempts then .reset (attempt + 1) 0 else .done false

/-- What `dhcp_configure` does to the device first. -/
def NetDevice.unconfigured (dev : NetDevice) : NetDevice :=
  { dev with ip := .zero, gateway := .zero, dnsServer := .zero, netmask := ⟨255, 255, 255, 0⟩ }

/-- One step of the call; `expired` says that the time of a loop is up. -/
def DhcpClient.advance (c : DhcpClient) (expired : Bool) : DhcpClient :=
  match c.pc with
  | .reset n k =>
      if k = 0 then { c with dhcp := c.dhcp.resetStep 0, pc := .reset n 1, offers := [], request := none }
      else if k < 11 then { c with dhcp := c.dhcp.resetStep k, pc := .reset n (k + 1) }
      else { c with sent := c.sent ++ [⟨dhcpDiscover, c.dhcp.xid, none, none⟩], pc := .waitOffer n }
  | .waitOffer n =>
      if c.dhcp.offerSeen then { c with pc := .copyIp n [] }
      else if expired then { c with pc := nextAttempt n }
      else c
  | .copyIp n ip =>
      let ip := ip ++ [c.dhcp.offeredIp.byte ip.length]
      { c with pc := if ip.length < 4 then .copyIp n ip else .testServer n ip 0 }
  | .testServer n ip k =>
      { c with
        pc := if c.dhcp.serverId.byte k ≠ 0 then .copyServer n ip []
          else if k + 1 < 4 then .testServer n ip (k + 1) else .send n ip none }
  | .copyServer n ip server =>
      let server := server ++ [c.dhcp.serverId.byte server.length]
      { c with pc := if server.length < 4 then .copyServer n ip server else .send n ip (some server) }
  | .send n ip server =>
      { c with
        sent := c.sent ++ [⟨dhcpRequest, c.dhcp.xid, some ip, server⟩], pc := .waitAck n
        request := some ⟨ip, server.getD Ip4Addr.zero.bytes⟩ }
  | .waitAck n =>
      if c.dhcp.ackSeen then { c with pc := .done true }
      else if expired then { c with pc := nextAttempt n }
      else c
  | .done _ => c

def DhcpClient.deliver (c : DhcpClient) (d : Datagram) : DhcpClient :=
  let (dev, dhcp) :=
    match dhcpReceive (d.data.length + 1) c.dev c.dhcp d.ptr (UInt32.ofNat d.data.length) d.srcPort with
    | .ok after => after
    | .error _ => (c.dev, c.dhcp)
  { c with
    dev := dev, dhcp := dhcp
    offers := match dhcpReplyOf c.dev.mac c.dhcp.xid d with
      | some (o, yiaddr) => if o.msgType = dhcpOffer then c.offers ++ [(yiaddr, o.serverId)] else c.offers
      | none => c.offers }

inductive DhcpOp where
  | configure
  | step (expired : Bool)
  | deliver (d : Datagram)

def DhcpOp.apply (c : DhcpClient) : DhcpOp → DhcpClient
  | .configure =>
      match c.pc with
      | .done _ => { c with dev := c.dev.unconfigured, pc := .reset 0 0 }
      | _ => c
  | .step expired => c.advance expired
  | .deliver d => c.deliver d

def DhcpStep (c : DhcpClient) (op : DhcpOp) (next : DhcpClient) : Prop := next = op.apply c

def dhcpStart (dev : NetDevice) : DhcpClient :=
  ⟨dev, ⟨false, false, 0x52455801, .zero, .zero⟩, .done false, [], [], none⟩

end RexOs.Net
