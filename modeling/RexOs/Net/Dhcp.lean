import RexOs.Net.Frame

/-! The receiving half of the DHCP client (`kernel/net/dhcp.c`). -/

set_option autoImplicit false

namespace RexOs.Net

open RexOs.Library

def dhcpServerPort : UInt16 := 67
def dhcpClientPort : UInt16 := 68
def dhcpMagicCookie : UInt32 := 0x63825363

/-- `sizeof(dhcp_packet_t)`; the options follow. -/
def dhcpPacketSize : Nat := 240

/-- `s_offer_seen`, `s_ack_seen`, `s_xid`, `s_offered_ip` and `s_server_id`. -/
structure Dhcp where
  offerSeen : Bool
  ackSeen : Bool
  xid : UInt32
  offeredIp : Ip4Addr
  serverId : Ip4Addr
  deriving DecidableEq, Repr

/-- What `dhcp_parse_options` stores through its arguments. -/
structure DhcpOptions where
  msgType : UInt8
  serverId : Ip4Addr
  netmask : Ip4Addr
  gateway : Ip4Addr
  dnsServer : Ip4Addr
  deriving DecidableEq, Repr

/-- One option, whose value starts at `pos`. -/
def dhcpOption (opts : Ptr) (pos : UInt32) (opt optLen : UInt8) (o : DhcpOptions) : Except NetFault DhcpOptions :=
  if opt = 53 ∧ optLen = 1 then do
    let msgType ← opts.read pos.toNat
    .ok { o with msgType := msgType }
  else if opt = 54 ∧ optLen ≥ 4 then do
    let ip ← opts.readIp pos.toNat
    .ok { o with serverId := ip }
  else if opt = 1 ∧ optLen ≥ 4 then do
    let ip ← opts.readIp pos.toNat
    .ok { o with netmask := ip }
  else if opt = 3 ∧ optLen ≥ 4 then do
    let ip ← opts.readIp pos.toNat
    .ok { o with gateway := ip }
  else if opt = 6 ∧ optLen ≥ 4 then do
    let ip ← opts.readIp pos.toNat
    .ok { o with dnsServer := ip }
  else .ok o

def dhcpParseOptions (opts : Ptr) (len : UInt32) : Nat → UInt32 → DhcpOptions → Except NetFault DhcpOptions
  | 0, _, _ => .error .hang
  | fuel + 1, pos, o =>
      if pos < len then do
        let opt ← opts.read pos.toNat
        let pos := pos + 1
        if opt = 255 then .ok o
        else if opt = 0 then dhcpParseOptions opts len fuel pos o
        else if pos ≥ len then .ok o
        else
          let optLen ← opts.read pos.toNat
          let pos := pos + 1
          if pos + optLen.toUInt32 > len then .ok o
          else
            let o ← dhcpOption opts pos opt optLen o
            dhcpParseOptions opts len fuel (pos + optLen.toUInt32) o
      else .ok o

def Ip4Addr.orKeep (ip old : Ip4Addr) : Ip4Addr := if ip = .zero then old else ip

def dhcpReceive (fuel : Nat) (dev : NetDevice) (s : Dhcp) (p : Ptr) (len : UInt32) (srcPort : UInt16) :
    Except NetFault (NetDevice × Dhcp) :=
  if srcPort ≠ dhcpServerPort ∨ len < UInt32.ofNat dhcpPacketSize then .ok (dev, s)
  else do
    let op ← p.read 0
    let htype ← p.read 1
    let hlen ← p.read 2
    if op ≠ 2 ∨ htype ≠ 1 ∨ hlen ≠ 6 then .ok (dev, s)
    else
      let xid ← p.read32 4
      if xid ≠ s.xid then .ok (dev, s)
      else
        let magic ← p.read32 236
        if magic ≠ dhcpMagicCookie then .ok (dev, s)
        else
          let chaddr ← p.readMac 28
          if chaddr ≠ dev.mac then .ok (dev, s)
          else
            let o ← dhcpParseOptions (p.add dhcpPacketSize) (len - UInt32.ofNat dhcpPacketSize) fuel 0
              ⟨0, .zero, .zero, .zero, .zero⟩
            let yiaddr ← p.readIp 16
            if o.msgType = 2 then
              .ok (dev, { s with offeredIp := yiaddr, serverId := o.serverId, offerSeen := true })
            else if o.msgType = 5 then
              let dev :=
                { dev with
                  ip := yiaddr
                  netmask := o.netmask.orKeep dev.netmask
                  gateway := o.gateway.orKeep dev.gateway
                  dnsServer := o.dnsServer.orKeep dev.dnsServer }
              .ok (dev, { s with ackSeen := true })
            else .ok (dev, s)

section
variable {p : Ptr} {len : UInt32}

theorem dhcpOption_safe (holds : p.Holds len.toNat) {pos : UInt32} {opt optLen : UInt8} (o : DhcpOptions)
    (inside : pos.toNat + optLen.toNat ≤ len.toNat) : Safe (dhcpOption p pos opt optLen o) fun _ => True := by
  -- every option but the message type is an address
  have address (large : optLen ≥ 4) (f : Ip4Addr → DhcpOptions) :
      Safe (p.readIp pos.toNat >>= fun ip => .ok (f ip)) fun _ => True := by
    have size : 4 ≤ optLen.toNat := UInt8.le_iff_toNat_le.mp large
    apply Safe.bind (Ptr.readIp_safe holds (by omega))
    intro ip _
    exact Safe.ok trivial
  unfold dhcpOption
  refine Safe.ite (fun one => ?_) fun _ => ?_
  · have size : optLen.toNat = 1 := by
      rw [one.2]
      rfl
    apply Safe.bind (Ptr.read_safe holds (by omega))
    intro msgType _
    exact Safe.ok trivial
  refine Safe.ite (fun four => address four.2 _) fun _ => ?_
  refine Safe.ite (fun four => address four.2 _) fun _ => ?_
  refine Safe.ite (fun four => address four.2 _) fun _ => ?_
  exact Safe.ite (fun four => address four.2 _) fun _ => Safe.ok trivial

theorem dhcpParseOptions_safe (holds : p.Holds len.toNat) (short : len.toNat < 2 ^ 16) (fuel : Nat) (pos : UInt32)
    (o : DhcpOptions) (bound : pos.toNat ≤ len.toNat) (enough : len.toNat ≤ pos.toNat + fuel) :
    Safe (dhcpParseOptions p len (fuel + 1) pos o) fun _ => True := by
  induction fuel generalizing pos o with
  | zero =>
    have outside : ¬ pos < len := by
      rw [UInt32.lt_iff_toNat_lt]
      omega
    exact Safe.neg outside (Safe.ok trivial)
  | succ fuel ih =>
    unfold dhcpParseOptions
    refine Safe.ite (fun inside => ?_) fun _ => Safe.ok trivial
    rw [UInt32.lt_iff_toNat_lt] at inside
    have next : (pos + 1).toNat = pos.toNat + 1 := by
      simp only [UInt32.toNat_add, UInt32.reduceToNat]
      omega
    apply Safe.bind (Ptr.read_safe holds inside)
    intro opt _
    refine Safe.ite (fun _ => Safe.ok trivial) fun _ => ?_
    refine Safe.ite (fun _ => ih _ _ (by omega) (by omega)) fun _ => ?_
    refine Safe.ite (fun _ => Safe.ok trivial) fun more => ?_
    rw [ge_iff_le, UInt32.le_iff_toNat_le, Nat.not_le] at more
    apply Safe.bind (Ptr.read_safe holds more)
    intro optLen _
    have small := optLen.toNat_lt
    have value : (pos + 1 + 1).toNat = pos.toNat + 2 := by
      simp only [UInt32.toNat_add, next, UInt32.reduceToNat]
      omega
    have after : (pos + 1 + 1 + optLen.toUInt32).toNat = pos.toNat + 2 + optLen.toNat := by
      rw [UInt32.toNat_add, value, UInt8.toNat_toUInt32]
      omega
    refine Safe.ite (fun _ => Safe.ok trivial) fun fits => ?_
    rw [gt_iff_lt, UInt32.lt_iff_toNat_lt, after] at fits
    apply Safe.bind (dhcpOption_safe holds o (by omega))
    intro o' _
    exact ih _ _ (by omega) (by omega)

theorem dhcpReceive_safe (holds : p.Holds len.toNat) (short : len.toNat < 2 ^ 16) (fuel : Nat)
    (enough : len.toNat ≤ fuel) (dev : NetDevice) (s : Dhcp) (srcPort : UInt16) :
    Safe (dhcpReceive (fuel + 1) dev s p len srcPort) fun _ => True := by
  unfold dhcpReceive
  refine Safe.ite (fun _ => Safe.ok trivial) fun whole => ?_
  have header : 240 ≤ len.toNat := by
    have large := (not_or.mp whole).2
    rw [UInt32.lt_iff_toNat_lt, Nat.not_lt] at large
    exact large
  apply Safe.bind (Ptr.read_safe holds (by omega))
  intro op _
  apply Safe.bind (Ptr.read_safe holds (by omega))
  intro htype _
  apply Safe.bind (Ptr.read_safe holds (by omega))
  intro hlen _
  refine Safe.ite (fun _ => Safe.ok trivial) fun _ => ?_
  apply Safe.bind (Ptr.read32_safe holds (by omega))
  intro xid _
  refine Safe.ite (fun _ => Safe.ok trivial) fun _ => ?_
  apply Safe.bind (Ptr.read32_safe holds (by omega))
  intro magic _
  refine Safe.ite (fun _ => Safe.ok trivial) fun _ => ?_
  apply Safe.bind (Ptr.readMac_safe holds (by omega))
  intro chaddr _
  refine Safe.ite (fun _ => Safe.ok trivial) fun _ => ?_
  have rest : (len - UInt32.ofNat dhcpPacketSize).toNat = len.toNat - 240 := by
    rw [UInt32.toNat_sub_of_le]
    · rfl
    · rw [UInt32.le_iff_toNat_le]
      exact header
  have holds' : (p.add dhcpPacketSize).Holds (len - UInt32.ofNat dhcpPacketSize).toNat := by
    rw [rest]
    exact holds.add header
  apply Safe.bind (dhcpParseOptions_safe holds' (by omega) fuel 0 _ (Nat.zero_le _) (by omega))
  intro o _
  apply Safe.bind (Ptr.readIp_safe holds (by omega))
  intro yiaddr _
  refine Safe.ite (fun _ => Safe.ok trivial) fun _ => ?_
  exact Safe.ite (fun _ => Safe.ok trivial) fun _ => Safe.ok trivial

end

end RexOs.Net
