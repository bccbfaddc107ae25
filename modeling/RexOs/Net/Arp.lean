import RexOs.Net.Eth

/-! ARP (`kernel/net/arp.c`) and the sending half of IPv4 (`kernel/net/ipv4.c`).

Next to the new state a function returns what it did, in order: the frames it handed
to a device and the changes it made to the cache and to the queue of waiting packets.
`packet` is the valid prefix of the source's buffer, so `len` is its length.
-/

set_option autoImplicit false

namespace RexOs.Net

def arpCacheSize : Nat := 32
def arpPendingSize : Nat := 8
def arpPendingPacketMax : Nat := 1600

def arpHwEthernet : UInt16 := 1
def arpOpRequest : UInt16 := 1
def arpOpReply : UInt16 := 2

/-- `arp_header_t`, numbers in host order. -/
structure ArpHeader where
  hwType : UInt16
  protoType : UInt16
  hwLen : UInt8
  protoLen : UInt8
  op : UInt16
  srcMac : MacAddr
  srcIp : Ip4Addr
  destMac : MacAddr
  destIp : Ip4Addr
  deriving DecidableEq, Repr

def ArpHeader.toBytes (h : ArpHeader) : List UInt8 :=
  htons h.hwType ++ htons h.protoType ++ [h.hwLen, h.protoLen] ++ htons h.op ++
  h.srcMac.bytes ++ h.srcIp.bytes ++ h.destMac.bytes ++ h.destIp.bytes

structure ArpEntry where
  ip : Ip4Addr
  mac : MacAddr
  valid : Bool
  deriving DecidableEq, Repr

structure ArpPending where
  dev : Nat
  nextHop : Ip4Addr
  packet : List UInt8
  valid : Bool
  deriving DecidableEq, Repr

/-- `s_arp_cache`, `s_pending` and `s_ip_id`. -/
structure Arp where
  cache : Fin arpCacheSize → ArpEntry
  pending : Fin arpPendingSize → ArpPending
  ipId : UInt16

inductive ArpEvent where
  /-- A cache entry for `ip` now holds `mac`. -/
  | learned (ip : Ip4Addr) (mac : MacAddr)
  /-- The cache entry for `ip` was overwritten by another address. -/
  | evicted (ip : Ip4Addr)
  /-- A packet was stored in a free slot of the queue. -/
  | accepted (slot : Fin arpPendingSize) (packet : ArpPending)
  /-- The packet in a slot of the queue was sent. -/
  | flushed (slot : Fin arpPendingSize) (frame : EthFrame)
  /-- A frame was sent that did not come from the queue. -/
  | sent (frame : EthFrame)
  deriving DecidableEq, Repr

def flushLoop (devices : Devices) (ip : Ip4Addr) (mac : MacAddr) :
    List (Fin arpPendingSize) → Arp → Arp × List ArpEvent
  | [], s => (s, [])
  | i :: rest, s =>
      if ¬ (s.pending i).valid then flushLoop devices ip mac rest s
      else if (s.pending i).nextHop ≠ ip then flushLoop devices ip mac rest s
      else
        let sent := ethSend devices (s.pending i).dev mac ethertypeIpv4 (s.pending i).packet
        let s := { s with pending := Function.update s.pending i { s.pending i with valid := false } }
        let (s, more) := flushLoop devices ip mac rest s
        (s, sent.map (.flushed i) ++ more)

def arpFlushPending (devices : Devices) (s : Arp) (ip : Ip4Addr) (mac : MacAddr) : Arp × List ArpEvent :=
  flushLoop devices ip mac (List.finRange arpPendingSize) s

def arpQueueIpv4 (s : Arp) (dev : Nat) (nextHop : Ip4Addr) (data : List UInt8) : Arp × List ArpEvent :=
  if data.length > arpPendingPacketMax then (s, [])
  else
    match (List.finRange arpPendingSize).find? fun i => !(s.pending i).valid with
    | none => (s, [])
    | some i =>
        let p : ArpPending := ⟨dev, nextHop, data, true⟩
        ({ s with pending := Function.update s.pending i p }, [.accepted i p])

def findEntry (cache : Fin arpCacheSize → ArpEntry) (ip : Ip4Addr) : Option (Fin arpCacheSize) :=
  (List.finRange arpCacheSize).find? fun i => (cache i).valid && (cache i).ip == ip

def firstEntry : Fin arpCacheSize := ⟨0, by decide⟩

def arpCacheUpdate (devices : Devices) (s : Arp) (ip : Ip4Addr) (mac : MacAddr) : Arp × List ArpEvent :=
  match findEntry s.cache ip with
  | some i =>
      let s := { s with cache := Function.update s.cache i { s.cache i with mac := mac } }
      let (s, flushed) := arpFlushPending devices s ip mac
      (s, .learned ip mac :: flushed)
  | none =>
      match (List.finRange arpCacheSize).find? fun i => !(s.cache i).valid with
      | some i =>
          let s := { s with cache := Function.update s.cache i ⟨ip, mac, true⟩ }
          let (s, flushed) := arpFlushPending devices s ip mac
          (s, .learned ip mac :: flushed)
      | none =>
          let victim := (s.cache firstEntry).ip
          let s := { s with cache := Function.update s.cache firstEntry ⟨ip, mac, true⟩ }
          let (s, flushed) := arpFlushPending devices s ip mac
          (s, .evicted victim :: .learned ip mac :: flushed)

def arpResolve (s : Arp) (ip : Ip4Addr) : Option MacAddr :=
  if ip = .broadcast then some .broadcast
  else (findEntry s.cache ip).map fun i => (s.cache i).mac

def arpRequest (devices : Devices) (dev : Nat) (targetIp : Ip4Addr) : List EthFrame :=
  let arp : ArpHeader :=
    { hwType := arpHwEthernet, protoType := ethertypeIpv4, hwLen := 6, protoLen := 4, op := arpOpRequest
      srcMac := (devices dev).mac, srcIp := (devices dev).ip, destMac := .broadcast, destIp := targetIp }
  ethSend devices dev .broadcast ethertypeArp arp.toBytes

def arpReply (devices : Devices) (dev : Nat) (targetMac : MacAddr) (targetIp : Ip4Addr) : List EthFrame :=
  let arp : ArpHeader :=
    { hwType := arpHwEthernet, protoType := ethertypeIpv4, hwLen := 6, protoLen := 4, op := arpOpReply
      srcMac := (devices dev).mac, srcIp := (devices dev).ip, destMac := targetMac, destIp := targetIp }
  ethSend devices dev targetMac ethertypeArp arp.toBytes

def arpReceive (devices : Devices) (s : Arp) (dev : Nat) (arp : ArpHeader) : Arp × List ArpEvent :=
  if arp.hwType ≠ arpHwEthernet ∨ arp.protoType ≠ ethertypeIpv4 then (s, [])
  else if arp.hwLen ≠ 6 ∨ arp.protoLen ≠ 4 then (s, [])
  else if arp.op = arpOpRequest then
    let (s, events) := arpCacheUpdate devices s arp.srcIp arp.srcMac
    if arp.destIp = (devices dev).ip then
      (s, events ++ (arpReply devices dev arp.srcMac arp.srcIp).map .sent)
    else (s, events)
  else if arp.op = arpOpReply then arpCacheUpdate devices s arp.srcIp arp.srcMac
  else (s, [])

/-- `sizeof(ip4_header_t)`. -/
def ip4HeaderSize : Nat := 20

/-- The header that `ipv4_send` builds. -/
def ip4Header (id : UInt16) (protocol : UInt8) (srcIp destIp : Ip4Addr) (totalLen : Nat) (checksum : UInt16) :
    List UInt8 :=
  ([0x45, 0] : List UInt8) ++ htons (UInt16.ofNat totalLen) ++ htons id ++ [0, 0, 64, protocol] ++
  [checksum.toUInt8, (checksum >>> 8).toUInt8] ++ srcIp.bytes ++ destIp.bytes

def isLocal (d : NetDevice) (ip : Ip4Addr) : Bool :=
  ip == .broadcast ||
  (ip.b0 &&& d.netmask.b0 == d.ip.b0 &&& d.netmask.b0 && ip.b1 &&& d.netmask.b1 == d.ip.b1 &&& d.netmask.b1 &&
    ip.b2 &&& d.netmask.b2 == d.ip.b2 &&& d.netmask.b2 && ip.b3 &&& d.netmask.b3 == d.ip.b3 &&& d.netmask.b3)

/-- The callers' buffers keep `payload` below `2 ^ 32 - 20` bytes, so the total length does not wrap. -/
def ipv4Send (devices : Devices) (s : Arp) (dev : Nat) (destIp : Ip4Addr) (protocol : UInt8)
    (payload : List UInt8) : Arp × List ArpEvent :=
  let totalLen := ip4HeaderSize + payload.length
  if totalLen > 2048 then (s, [])
  else
    let d := devices dev
    let checksum := netChecksum (ip4Header s.ipId protocol d.ip destIp totalLen 0)
    let packet := ip4Header s.ipId protocol d.ip destIp totalLen checksum ++ payload
    let s := { s with ipId := s.ipId + 1 }
    let nextHop := if isLocal d destIp then destIp else d.gateway
    if destIp = .broadcast then (s, (ethSend devices dev .broadcast ethertypeIpv4 packet).map .sent)
    else
      match arpResolve s nextHop with
      | some mac => (s, (ethSend devices dev mac ethertypeIpv4 packet).map .sent)
      | none =>
          let (s, queued) := arpQueueIpv4 s dev nextHop packet
          (s, queued ++ (arpRequest devices dev nextHop).map .sent)

end RexOs.Net
