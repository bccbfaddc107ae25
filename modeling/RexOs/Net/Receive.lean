import RexOs.Net.Arp
import RexOs.Net.Dhcp
import RexOs.Net.Dns

/-! The receive path, from the frame that a device delivers to the protocols
(`kernel/net/net.c`, `eth.c`, `ipv4.c`, `icmp.c`, `udp.c` and `tcp.c`).

All of it reads through pointers into the frame. Where the source casts a pointer to
a header, the header is read as a whole. Sockets know their device by `sockDev`, and
see its address of the moment.
-/

set_option autoImplicit false

namespace RexOs.Net

open RexOs.Library

structure NetState where
  devices : Devices
  arp : Arp
  dns : Dns
  dhcp : Dhcp
  tcp : Tcp
  /-- The `dev` field of the socket at an address. -/
  sockDev : Nat → Nat

/-- `while (sum >> 16)`. -/
def carryLoop : Nat → UInt32 → Except NetFault UInt32
  | 0, _ => .error .hang
  | fuel + 1, sum => if sum >>> 16 = 0 then .ok sum else carryLoop fuel (foldCarry sum)

def netChecksumAt (fuel : Nat) (p : Ptr) (len : UInt32) : Except NetFault UInt16 := do
  let data ← p.readBytes len.toNat
  let sum ← carryLoop fuel (wordSum data)
  .ok (~~~ sum.toUInt16)

def tcpChecksumAt (fuel : Nat) (src dst : Ip4Addr) (p : Ptr) (len : UInt32) : Except NetFault UInt16 := do
  let pseudo := src.bytes ++ dst.bytes ++ ([0, 6, (len >>> 8).toUInt8, len.toUInt8] : List UInt8)
  let segment ← p.readBytes len.toNat
  let sum ← carryLoop fuel (wordSum pseudo + wordSum segment)
  .ok (~~~ sum.toUInt16)

def NetState.ipv4Send (n : NetState) (dev : Nat) (destIp : Ip4Addr) (protocol : UInt8) (payload : List UInt8) :
    NetState × List ArpEvent :=
  let (arp, events) := Net.ipv4Send n.devices n.arp dev destIp protocol payload
  ({ n with arp := arp }, events)

def NetState.sendSegments (dev : Nat) : List Sent → NetState → NetState × List ArpEvent
  | [], n => (n, [])
  | s :: rest, n =>
      let (n, first) := n.ipv4Send dev s.dest 6 s.segment.toBytes
      let (n, more) := NetState.sendSegments dev rest n
      (n, first ++ more)

/-- `id` and `seq` are copied as they are stored. -/
def icmpSendReply (n : NetState) (dev : Nat) (destIp : Ip4Addr) (id seq payload : List UInt8) :
    NetState × List ArpEvent :=
  if 8 + payload.length > 2048 then (n, [])
  else
    let checksum := netChecksum (([0, 0, 0, 0] : List UInt8) ++ id ++ seq ++ payload)
    n.ipv4Send dev destIp 1
      (([0, 0] : List UInt8) ++ [checksum.toUInt8, (checksum >>> 8).toUInt8] ++ id ++ seq ++ payload)

def icmpReceive (fuel : Nat) (n : NetState) (dev : Nat) (srcIp : Ip4Addr) (icmp : Ptr) (len : UInt32) :
    Except NetFault (NetState × List ArpEvent) :=
  if len < 8 then .ok (n, [])
  else do
    let csum ← netChecksumAt fuel icmp len
    if csum ≠ 0 then .ok (n, [])
    else
      let type ← icmp.read 0
      if type = 8 then
        let id ← (icmp.add 4).readBytes 2
        let seq ← (icmp.add 6).readBytes 2
        let payload ← (icmp.add 8).readBytes (len - 8).toNat
        .ok (icmpSendReply n dev srcIp id seq payload)
      else .ok (n, [])

def udpReceive (fuel : Nat) (n : NetState) (dev : Nat) (srcIp : Ip4Addr) (udp : Ptr) (len : UInt32) :
    Except NetFault (NetState × List ArpEvent) :=
  if len < 8 then .ok (n, [])
  else do
    let srcPort ← udp.read16 0
    let destPort ← udp.read16 2
    let udpLen ← udp.read16 4
    if udpLen < 8 ∨ len < udpLen.toUInt32 then .ok (n, [])
    else
      let payloadLen := udpLen.toUInt32 - 8
      let payload := udp.add 8
      if destPort = dhcpClientPort then
        let (d, dhcp) ← dhcpReceive fuel (n.devices dev) n.dhcp payload payloadLen srcPort
        .ok ({ n with devices := Function.update n.devices dev d, dhcp := dhcp }, [])
      else if destPort = dnsLocalPort then
        let dns ← dnsReceive fuel n.dns srcIp payload payloadLen srcPort
        .ok ({ n with dns := dns }, [])
      else .ok (n, [])

/-- The loop of `tcp_parse_options`; the result is the new `peer_mss`. -/
def optionLoop : Nat → Ptr → UInt32 → UInt16 → Except NetFault UInt16
  | 0, _, _, _ => .error .hang
  | fuel + 1, opt, left, peerMss =>
      if left > 0 then do
        let kind ← opt.read 0
        if kind = 0 then .ok peerMss
        else if kind = 1 then optionLoop fuel (opt.add 1) (left - 1) peerMss
        else if left < 2 then .ok peerMss
        else
          let olen ← opt.read 1
          if olen < 2 ∨ olen.toUInt32 > left then .ok peerMss
          else if kind = 2 ∧ olen = 4 then
            let hi ← opt.read 2
            let lo ← opt.read 3
            let mss := hi.toNat * 256 + lo.toNat
            let peerMss := UInt16.ofNat (if mss ≥ 64 ∧ mss ≤ tcpOurMss then mss else tcpOurMss)
            optionLoop fuel (opt.add olen.toNat) (left - olen.toUInt32) peerMss
          else optionLoop fuel (opt.add olen.toNat) (left - olen.toUInt32) peerMss
      else .ok peerMss

def tcpParseOptionsAt (fuel : Nat) (p : Ptr) (hdrLen : Nat) (s : Socket) : Except NetFault Socket :=
  if hdrLen ≤ tcpHeaderSize then .ok s
  else do
    let peerMss ← optionLoop fuel (p.add tcpHeaderSize) (UInt32.ofNat (hdrLen - tcpHeaderSize)) s.peerMss
    .ok { s with peerMss := peerMss }

attribute [local instance] fourBits_neZero

def readTcp (p : Ptr) (len : UInt32) : Except NetFault TcpHeader := do
  let srcPort ← p.read16 0
  let destPort ← p.read16 2
  let seq ← p.read32 4
  let ack ← p.read32 8
  let off ← p.read 12
  let flags ← p.read 13
  let windowSize ← p.read16 14
  let sum0 ← p.read 16
  let sum1 ← p.read 17
  let urgentPtr ← p.read16 18
  let rest ← (p.add tcpHeaderSize).readBytes (len.toNat - tcpHeaderSize)
  .ok
    { srcPort := srcPort, destPort := destPort, seq := seq, ack := ack
      reserved := Fin.ofNat 16 off.toNat, dataOffset := Fin.ofNat 16 (off.toNat / 16)
      flags := flags, windowSize := windowSize
      checksum := (sum1.toUInt16 <<< 8) ||| sum0.toUInt16
      urgentPtr := urgentPtr, optionsAndPayload := rest }

/-- What `tcp_receive` does with a segment for `s`; only a SYN-ACK makes it read the options. -/
def receiveSocketAt (fuel : Nat) (p : Ptr) (s : Socket) (tcp : TcpHeader) (now : Nat) :
    Except NetFault (Socket × List Sent) :=
  if tcp.flags &&& tcpRst = 0 ∧ s.state = .synSent ∧ tcp.flags &&& (tcpSyn ||| tcpAck) = tcpSyn ||| tcpAck then do
    let s ← tcpParseOptionsAt fuel p tcp.hdrLen s
    let s := if s.peerMss = 0 then { s with peerMss := UInt16.ofNat tcpDefaultMss } else s
    let s := tcpHandleAck s tcp.ack now
    let s := { s with ack := tcp.seq + 1, state := .established, rtoDeadline := 0 }
    .ok (s, tcpSendSegment s tcpAck [])
  else .ok (receiveSocket s tcp now)

def tcpReceiveAt (fuel : Nat) (t : Tcp) (srcIp destIp : Ip4Addr) (p : Ptr) (len : UInt32) (now : Nat) :
    Except NetFault (Tcp × List Sent) := do
  let tcp ← readTcp p len
  if tcp.hdrLen < tcpHeaderSize ∨ len.toNat < tcp.hdrLen then .ok (t, [])
  else
    let csum ← tcpChecksumAt fuel srcIp destIp p len
    if csum ≠ 0 then .ok (t, [])
    else
      match tcpFindSocket t.sockets srcIp tcp.srcPort tcp.destPort with
      | none =>
          .ok (t, if tcp.flags &&& tcpRst = 0 then tcpSendRst srcIp destIp tcp (len.toNat - tcp.hdrLen) else [])
      | some s => do
          let (s', sent) ← receiveSocketAt fuel p s tcp now
          .ok (t.put s', sent)

def NetState.sockets (n : NetState) : Tcp :=
  { n.tcp with sockets := n.tcp.sockets.map fun s => { s with devIp := (n.devices (n.sockDev s.id)).ip } }

/-- Answers go out through the device of the socket, or through `dev` if there is none. -/
def NetState.replyDev (n : NetState) (dev : Nat) (srcIp : Ip4Addr) (srcPort destPort : UInt16) : Nat :=
  match tcpFindSocket n.tcp.sockets srcIp srcPort destPort with
  | none => dev
  | some s => n.sockDev s.id

def tcpReceiveNet (fuel : Nat) (n : NetState) (dev now : Nat) (srcIp destIp : Ip4Addr) (p : Ptr) (len : UInt32) :
    Except NetFault (NetState × List ArpEvent) := do
  let srcPort ← p.read16 0
  let destPort ← p.read16 2
  let (tcp, sent) ← tcpReceiveAt fuel n.sockets srcIp destIp p len now
  .ok (NetState.sendSegments (n.replyDev dev srcIp srcPort destPort) sent { n with tcp := tcp })

def ipv4Receive (fuel : Nat) (n : NetState) (dev now : Nat) (ip : Ptr) (len : UInt32) :
    Except NetFault (NetState × List ArpEvent) := do
  let first ← ip.read 0
  if first >>> 4 ≠ 4 then .ok (n, [])
  else
    let headerLen := ((first &&& 0xF) * 4).toUInt32
    if headerLen < UInt32.ofNat ip4HeaderSize ∨ len < headerLen then .ok (n, [])
    else
      let csum ← netChecksumAt fuel ip headerLen
      if csum ≠ 0 then .ok (n, [])
      else
        let fragOff ← ip.read16 6
        if fragOff &&& 0x3FFF ≠ 0 then .ok (n, [])
        else
          let destIp ← ip.readIp 16
          if destIp ≠ .broadcast ∧ destIp ≠ (n.devices dev).ip then .ok (n, [])
          else
            let totalLen ← ip.read16 2
            if totalLen.toUInt32 < headerLen then .ok (n, [])
            else
              let claimed := totalLen.toUInt32 - headerLen
              let payloadLen := if claimed > len - headerLen then len - headerLen else claimed
              let srcIp ← ip.readIp 12
              let protocol ← ip.read 9
              -- `ip->payload` follows the fixed header, also when there are options
              let payload := ip.add ip4HeaderSize
              if protocol = 1 then icmpReceive fuel n dev srcIp payload payloadLen
              else if protocol = 17 then
                if payloadLen ≥ 8 then udpReceive fuel n dev srcIp payload payloadLen else .ok (n, [])
              else if protocol = 6 then
                if payloadLen ≥ UInt32.ofNat tcpHeaderSize then
                  tcpReceiveNet fuel n dev now srcIp destIp payload payloadLen
                else .ok (n, [])
              else .ok (n, [])

/-- `sizeof(arp_header_t)`. -/
def arpHeaderSize : Nat := 28

def readArp (p : Ptr) : Except NetFault ArpHeader := do
  let hwType ← p.read16 0
  let protoType ← p.read16 2
  let hwLen ← p.read 4
  let protoLen ← p.read 5
  let op ← p.read16 6
  let srcMac ← p.readMac 8
  let srcIp ← p.readIp 14
  let destMac ← p.readMac 18
  let destIp ← p.readIp 24
  .ok ⟨hwType, protoType, hwLen, protoLen, op, srcMac, srcIp, destMac, destIp⟩

def ethReceive (fuel : Nat) (n : NetState) (dev now : Nat) (eth : Ptr) (len : UInt32) :
    Except NetFault (NetState × List ArpEvent) := do
  let ethertype ← eth.read16 12
  if ethertype = ethertypeArp then
    if len ≥ UInt32.ofNat (ethHeaderSize + arpHeaderSize) then
      let arp ← readArp (eth.add ethHeaderSize)
      let (arp, events) := arpReceive n.devices n.arp dev arp
      .ok ({ n with arp := arp }, events)
    else .ok (n, [])
  else if ethertype = ethertypeIpv4 then
    if len ≥ UInt32.ofNat (ethHeaderSize + ip4HeaderSize) then
      ipv4Receive fuel n dev now (eth.add ethHeaderSize) (len - UInt32.ofNat ethHeaderSize)
    else .ok (n, [])
  else .ok (n, [])

/-- A device delivers `frame`; `now` is the clock. -/
def netReceiveFrame (fuel : Nat) (n : NetState) (dev now : Nat) (frame : List UInt8) :
    Except NetFault (NetState × List ArpEvent) :=
  let len := UInt32.ofNat frame.length
  if len < UInt32.ofNat ethHeaderSize then .ok (n, []) else ethReceive fuel n dev now ⟨frame, 0⟩ len

end RexOs.Net
