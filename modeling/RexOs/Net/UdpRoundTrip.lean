import RexOs.Net.Ipv4Delivery

/-! UDP from `udp_send` to `udp_receive` (`kernel/net/udp.c`).

On the way out each layer copies into a buffer of 2048 bytes and drops what does not fit; on the way
in each layer finds the length again.
-/

set_option autoImplicit false

namespace RexOs.Net

open RexOs.Library

/-- `sizeof(udp_header_t)`. -/
def udpHeaderSize : Nat := 8

/-- The header that `udp_send` builds, without a checksum. -/
def udpHeader (srcPort destPort : UInt16) (totalLen : Nat) : List UInt8 :=
  htons srcPort ++ htons destPort ++ htons (UInt16.ofNat totalLen) ++ [0, 0]

/-- The callers' buffers keep `payload` below `2 ^ 32 - 8` bytes, so the total length does not wrap. -/
def udpSend (devices : Devices) (s : Arp) (dev : Nat) (destIp : Ip4Addr) (srcPort destPort : UInt16)
    (payload : List UInt8) : Arp × List ArpEvent :=
  let totalLen := udpHeaderSize + payload.length
  if totalLen > 2048 then (s, [])
  else ipv4Send devices s dev destIp 17 (udpHeader srcPort destPort totalLen ++ payload)

/-- The buffer that `eth_send` hands to the device. -/
def EthFrame.toBytes (f : EthFrame) : List UInt8 := f.dest.bytes ++ f.src.bytes ++ htons f.ethertype ++ f.payload

/-- The destination of a packet on the link: a station that ARP knows, or all of them. -/
def Route (d : NetDevice) (s : Arp) (destIp : Ip4Addr) (mac : MacAddr) : Prop :=
  destIp = .broadcast ∧ mac = .broadcast ∨
    destIp ≠ .broadcast ∧ arpResolve s (if isLocal d destIp then destIp else d.gateway) = some mac

section
variable {devices : Devices} {s : Arp} {dev : Nat} {destIp : Ip4Addr} {mac : MacAddr}

/-- The packet that `ipv4_send` builds. -/
def ip4Packet (id : UInt16) (protocol : UInt8) (srcIp destIp : Ip4Addr) (payload : List UInt8) : List UInt8 :=
  let totalLen := ip4HeaderSize + payload.length
  ip4Header id protocol srcIp destIp totalLen (netChecksum (ip4Header id protocol srcIp destIp totalLen 0)) ++ payload

theorem ip4Packet_length (id : UInt16) (protocol : UInt8) (srcIp destIp : Ip4Addr) (payload : List UInt8) :
    (ip4Packet id protocol srcIp destIp payload).length = 20 + payload.length := List.length_append

theorem arpResolve_ipId (s : Arp) (id : UInt16) (ip : Ip4Addr) : arpResolve { s with ipId := id } ip = arpResolve s ip := rfl

theorem ipv4Send_sends (route : Route (devices dev) s destIp mac) (protocol : UInt8) (payload : List UInt8)
    (fits : ethHeaderSize + ip4HeaderSize + payload.length ≤ 2048) :
    ipv4Send devices s dev destIp protocol payload = ({ s with ipId := s.ipId + 1 },
      [.sent ⟨dev, mac, (devices dev).mac, ethertypeIpv4, ip4Packet s.ipId protocol (devices dev).ip destIp payload⟩]) := by
  simp only [ethHeaderSize, ip4HeaderSize] at fits
  have packet : ¬ ip4HeaderSize + payload.length > 2048 := by
    simp only [ip4HeaderSize]
    omega
  have frame : ¬ ethHeaderSize + (ip4Packet s.ipId protocol (devices dev).ip destIp payload).length > 2048 := by
    rw [ip4Packet_length]
    simp only [ethHeaderSize]
    omega
  rw [ipv4Send]
  simp only
  rw [if_neg packet]
  rcases route with ⟨all, rfl⟩ | ⟨one, known⟩
  · rw [if_pos all]
    simp only [ethSend]
    exact congrArg _ (congrArg _ (if_neg frame))
  · rw [if_neg one, arpResolve_ipId, known]
    simp only [ethSend]
    exact congrArg _ (congrArg _ (if_neg frame))

end

/-- What `udp_receive` finds in a datagram. -/
structure UdpDelivery where
  srcPort : UInt16
  destPort : UInt16
  payload : Ptr
  len : UInt32
  deriving DecidableEq, Repr

/-- `udp_receive` up to the choice by the port; `none` drops the datagram. -/
def udpDispatch (udp : Ptr) (len : UInt32) : Except NetFault (Option UdpDelivery) :=
  if len < 8 then .ok none
  else do
    let srcPort ← udp.read16 0
    let destPort ← udp.read16 2
    let udpLen ← udp.read16 4
    if udpLen < 8 ∨ len < udpLen.toUInt32 then .ok none
    else .ok (some ⟨srcPort, destPort, udp.add 8, udpLen.toUInt32 - 8⟩)

def udpHandOver (fuel : Nat) (n : NetState) (dev : Nat) (srcIp : Ip4Addr) :
    Option UdpDelivery → Except NetFault (NetState × List ArpEvent)
  | none => .ok (n, [])
  | some u =>
      if u.destPort = dhcpClientPort then do
        let (d, dhcp) ← dhcpReceive fuel (n.devices dev) n.dhcp u.payload u.len u.srcPort
        .ok ({ n with devices := Function.update n.devices dev d, dhcp := dhcp }, [])
      else if u.destPort = dnsLocalPort then do
        let dns ← dnsReceive fuel n.dns srcIp u.payload u.len u.srcPort
        .ok ({ n with dns := dns }, [])
      else .ok (n, [])

theorem udpReceive_eq (fuel : Nat) (n : NetState) (dev : Nat) (srcIp : Ip4Addr) (udp : Ptr) (len : UInt32) :
    udpReceive fuel n dev srcIp udp len = udpDispatch udp len >>= udpHandOver fuel n dev srcIp := by
  unfold udpReceive udpDispatch
  simp only [bind_assoc, ite_bind, ok_bind, udpHandOver]

/-- The source address and the datagram that a frame brings to the choice by the port, for a device with the
address `ownIp`. -/
def udpOfFrame (fuel : Nat) (ownIp : Ip4Addr) (frame : List UInt8) : Except NetFault (Option (Ip4Addr × UdpDelivery)) :=
  let len := UInt32.ofNat frame.length
  if len < UInt32.ofNat ethHeaderSize then .ok none
  else do
    let ethertype ← (Ptr.mk frame 0).read16 12
    if ethertype = ethertypeIpv4 ∧ len ≥ UInt32.ofNat (ethHeaderSize + ip4HeaderSize) then
      match ← ipv4Dispatch fuel ownIp ⟨frame, ethHeaderSize⟩ (len - UInt32.ofNat ethHeaderSize) with
      | none => .ok none
      | some d =>
          if d.protocol = 17 then (udpDispatch d.payload d.len).map (Option.map fun u => (d.srcIp, u)) else .ok none
    else .ok none

theorem netReceiveFrame_udp {fuel : Nat} {n : NetState} {dev : Nat} {frame : List UInt8} {srcIp : Ip4Addr} {u : UdpDelivery}
    (reached : udpOfFrame fuel (n.devices dev).ip frame = .ok (some (srcIp, u))) (now : Nat) :
    netReceiveFrame fuel n dev now frame = udpHandOver fuel n dev srcIp (some u) := by
  unfold udpOfFrame at reached
  simp only at reached
  rw [netReceiveFrame]
  split at reached
  · cases reached
  rename_i whole
  rw [if_neg whole]
  obtain ⟨ethertype, typed, reached⟩ := bind_returns reached
  split at reached
  case isFalse => cases reached
  rename_i ipv4
  obtain ⟨found, dispatched, reached⟩ := bind_returns reached
  have other : ¬ ethertype = ethertypeArp := by
    rw [ipv4.1]
    decide
  rw [ethReceive, typed, ok_bind, if_neg other, if_pos ipv4.1, if_pos ipv4.2, ipv4Receive_eq]
  have place : (Ptr.mk frame 0).add ethHeaderSize = ⟨frame, ethHeaderSize⟩ := by
    rw [Ptr.add, Nat.zero_add]
  rw [place, dispatched, ok_bind]
  cases found with
  | none => cases reached
  | some d =>
    simp only at reached
    split at reached
    case isFalse => cases reached
    rename_i udp
    have one : ¬ d.protocol = 1 := by
      rw [udp]
      decide
    rw [handOver, if_neg one, if_pos udp, udpReceive_eq]
    cases inner : udpDispatch d.payload d.len with
    | error fault =>
      rw [inner] at reached
      cases reached
    | ok result =>
      rw [inner] at reached
      cases result with
      | none => cases reached
      | some u' =>
        simp only [Except.map, Option.map_some, Except.ok.injEq, Option.some.injEq, Prod.mk.injEq] at reached
        rw [ok_bind, reached.1, reached.2]

theorem ip4Packet_datagram (id : UInt16) (protocol : UInt8) (srcIp destIp : Ip4Addr) {payload padding data : List UInt8}
    (packet : data = ip4Packet id protocol srcIp destIp payload ++ padding) (small : 20 + payload.length < 2 ^ 16)
    (short : data.length < 2 ^ 32) {ownIp : Ip4Addr} (addressed : destIp = .broadcast ∨ destIp = ownIp) :
    Ip4Datagram ownIp data ∧ payloadLen data = payload.length ∧ data.getD 9 0 = protocol ∧ ipAt data 12 = srcIp := by
  have length : data.length = 20 + payload.length + padding.length := by
    rw [packet, List.length_append, ip4Packet_length]
  obtain ⟨sum, filled⟩ : ∃ sum, sum = netChecksum (ip4Header id protocol srcIp destIp (ip4HeaderSize + payload.length) 0) :=
    ⟨_, rfl⟩
  have verifies : netChecksum (ip4Header id protocol srcIp destIp (ip4HeaderSize + payload.length) sum) = 0 := by
    rw [filled]
    exact ip4Header_verifies id protocol srcIp destIp _
  have shape : data = ip4Header id protocol srcIp destIp (ip4HeaderSize + payload.length) sum ++ (payload ++ padding) := by
    rw [packet, filled, ip4Packet, List.append_assoc]
  have bytes : data.getD 0 0 = 0x45 ∧ data.getD 6 0 = 0 ∧ data.getD 7 0 = 0 ∧ data.getD 9 0 = protocol ∧
      ipAt data 12 = srcIp ∧ ipAt data 16 = destIp := by
    rw [shape]
    exact ⟨rfl, rfl, rfl, rfl, rfl, rfl⟩
  obtain ⟨first, six, seven, proto, src, dest⟩ := bytes
  have header : headerLen data = 20 := by
    rw [headerLen, first]
    rfl
  have total : totalLen data = 20 + payload.length := by
    have word : word16 data 2 = UInt16.ofNat (ip4HeaderSize + payload.length) := by
      rw [shape]
      exact htons_join _
    rw [totalLen, word]
    exact UInt16.toNat_ofNat_of_lt' small
  have valid : netChecksum (data.take (headerLen data)) = 0 := by
    rw [header, shape, List.take_left' (ip4Header_length ..)]
    exact verifies
  refine ⟨⟨?_, ?_, ?_, ?_, short, valid, ?_, ?_⟩, ?_, proto, src⟩
  · rw [first]
    decide
  · rw [header]
    decide
  · rw [header, total]
    exact Nat.le_add_right _ _
  · rw [total, length]
    exact Nat.le_add_right _ _
  · rw [word16, six, seven]
    decide
  · rw [dest]
    exact addressed
  · rw [payloadLen, header, total, Nat.add_sub_cancel_left]

theorem udpDispatch_header (srcPort destPort : UInt16) {payload : List UInt8} (small : 8 + payload.length < 2 ^ 16) {p : Ptr}
    (points : p.Points (udpHeader srcPort destPort (udpHeaderSize + payload.length) ++ payload)) :
    udpDispatch p (UInt32.ofNat (8 + payload.length)) =
      .ok (some ⟨srcPort, destPort, p.add 8, UInt32.ofNat payload.length⟩) := by
  obtain ⟨data, shape⟩ : ∃ data, data = udpHeader srcPort destPort (udpHeaderSize + payload.length) ++ payload := ⟨_, rfl⟩
  rw [← shape] at points
  have length : data.length = 8 + payload.length := by
    rw [shape, List.length_append]
    rfl
  have fields : word16 data 0 = srcPort ∧ word16 data 2 = destPort ∧
      word16 data 4 = UInt16.ofNat (udpHeaderSize + payload.length) := by
    rw [shape]
    exact ⟨htons_join _, htons_join _, htons_join _⟩
  obtain ⟨first, second, third⟩ := fields
  have size : (UInt16.ofNat (udpHeaderSize + payload.length)).toNat = 8 + payload.length :=
    UInt16.toNat_ofNat_of_lt' small
  have whole : (UInt32.ofNat (8 + payload.length)).toNat = 8 + payload.length :=
    UInt32.toNat_ofNat_of_lt' (by simp only [UInt32.size]; omega)
  have least : ¬ UInt32.ofNat (8 + payload.length) < 8 := by
    rw [UInt32.lt_iff_toNat_lt, whole]
    exact Nat.not_lt.mpr (Nat.le_add_right _ _)
  have bounds : ¬ (UInt16.ofNat (udpHeaderSize + payload.length) < 8 ∨
      UInt32.ofNat (8 + payload.length) < (UInt16.ofNat (udpHeaderSize + payload.length)).toUInt32) := by
    rw [UInt16.lt_iff_toNat_lt, UInt32.lt_iff_toNat_lt, UInt16.toNat_toUInt32, whole, size]
    have eight : (8 : UInt16).toNat = 8 := rfl
    omega
  have rest : (UInt16.ofNat (udpHeaderSize + payload.length)).toUInt32 - 8 = UInt32.ofNat payload.length := by
    have wide : (UInt16.ofNat (udpHeaderSize + payload.length)).toUInt32.toNat = 8 + payload.length := by
      rw [UInt16.toNat_toUInt32, size]
    have minus : ((UInt16.ofNat (udpHeaderSize + payload.length)).toUInt32 - 8).toNat = payload.length := by
      rw [sub_toNat (by rw [wide]; exact Nat.le_add_right _ _), wide]
      exact Nat.add_sub_cancel_left 8 payload.length
    exact UInt32.ofNat_toNat.symm.trans (congrArg UInt32.ofNat minus)
  rw [udpDispatch, if_neg least, points.read16 (by omega), ok_bind, points.read16 (by omega), ok_bind,
    points.read16 (by omega), ok_bind, first, second, third, if_neg bounds, rest]

theorem frame_whole (frame : List UInt8) : (Ptr.mk frame 0).Points frame := by
  refine ⟨?_, ?_⟩
  · exact Nat.le_of_eq (Nat.zero_add _)
  · rw [Ptr.slice, List.drop_zero, List.take_length]

theorem frame_points {frame link data : List UInt8} (shape : frame = link ++ data) (fourteen : link.length = 14) :
    ((Ptr.mk frame 0).add 14).Points data := by
  have whole := frame_whole frame
  rw [shape] at whole
  rw [shape]
  exact whole.append_right fourteen

theorem udpOfFrame_datagram (fuel : Nat) {ownIp : Ip4Addr} {frame stations data : List UInt8}
    (shape : frame = stations ++ (htons ethertypeIpv4 ++ data)) (twelve : stations.length = 12) (short : frame.length < 2 ^ 32)
    (datagram : Ip4Datagram ownIp data) (protocol : data.getD 9 0 = 17) (room : 8 ≤ payloadLen data) :
    udpOfFrame (fuel + 3) ownIp frame =
      (udpDispatch (((Ptr.mk frame 0).add 14).add 20) (UInt32.ofNat (payloadLen data))).map
        (Option.map fun u => (ipAt data 12, u)) := by
  have link : (stations ++ htons ethertypeIpv4).length = 14 := by
    rw [List.length_append, twelve]
    rfl
  have parts : frame = (stations ++ htons ethertypeIpv4) ++ data := by rw [shape, List.append_assoc]
  have length : frame.length = 14 + data.length := by rw [parts, List.length_append, link]
  have inner := frame_points parts link
  have present := datagram.present
  have least : 20 ≤ totalLen data := Nat.le_trans datagram.header datagram.whole
  have len : (UInt32.ofNat frame.length).toNat = frame.length := UInt32.toNat_ofNat_of_lt' short
  have ethertype : (Ptr.mk frame 0).read16 12 = .ok ethertypeIpv4 := by
    rw [(frame_whole frame).read16 (by omega), shape, word16_htons _ _ _ twelve]
  have header : ¬ UInt32.ofNat frame.length < UInt32.ofNat ethHeaderSize := by
    have fixed : (UInt32.ofNat ethHeaderSize).toNat = 14 := rfl
    rw [UInt32.lt_iff_toNat_lt, len, fixed]
    omega
  have ipv4 : ethertypeIpv4 = ethertypeIpv4 ∧ UInt32.ofNat frame.length ≥ UInt32.ofNat (ethHeaderSize + ip4HeaderSize) := by
    have fixed : (UInt32.ofNat (ethHeaderSize + ip4HeaderSize)).toNat = 34 := rfl
    rw [ge_iff_le, UInt32.le_iff_toNat_le, len, fixed]
    exact ⟨rfl, by omega⟩
  have left : UInt32.ofNat frame.length - UInt32.ofNat ethHeaderSize = UInt32.ofNat data.length := by
    have minus : (UInt32.ofNat frame.length - UInt32.ofNat ethHeaderSize).toNat = data.length := by
      have fixed : (UInt32.ofNat ethHeaderSize).toNat = 14 := rfl
      rw [sub_toNat (by rw [len, fixed]; omega), len, fixed]
      omega
    exact UInt32.ofNat_toNat.symm.trans (congrArg UInt32.ofNat minus)
  have place : (⟨frame, ethHeaderSize⟩ : Ptr) = (Ptr.mk frame 0).add 14 := by
    rw [Ptr.add, Nat.zero_add]
    rfl
  have count : (UInt32.ofNat (payloadLen data)).toNat = payloadLen data :=
    UInt32.toNat_ofNat_of_lt' (by simp only [UInt32.size, payloadLen]; omega)
  have transport : HasTransport data := Or.inr (Or.inl ⟨protocol, room⟩)
  rw [udpOfFrame, if_neg header, ethertype, ok_bind, if_pos ipv4, left, place, ipv4Dispatch_datagram inner datagram, ok_bind,
    taken?_eq _ data rfl count, if_pos transport]
  simp only
  rw [if_pos protocol]
  rfl

theorem udpOfFrame_packet (fuel : Nat) {ownIp : Ip4Addr} (dest src : MacAddr) (id : UInt16) {srcIp destIp : Ip4Addr} (dev : Nat)
    (srcPort destPort : UInt16) {payload padding frame : List UInt8} (small : 28 + payload.length < 2 ^ 16)
    (carried : frame = EthFrame.toBytes ⟨dev, dest, src, ethertypeIpv4, ip4Packet id 17 srcIp destIp
      (udpHeader srcPort destPort (udpHeaderSize + payload.length) ++ payload)⟩ ++ padding)
    (short : frame.length < 2 ^ 32) (addressed : destIp = .broadcast ∨ destIp = ownIp) :
    ∃ q : Ptr, q.Points payload ∧ udpOfFrame (fuel + 3) ownIp frame =
      .ok (some (srcIp, ⟨srcPort, destPort, q, UInt32.ofNat payload.length⟩)) := by
  obtain ⟨message, built⟩ : ∃ message, message = udpHeader srcPort destPort (udpHeaderSize + payload.length) ++ payload :=
    ⟨_, rfl⟩
  rw [← built] at carried
  have size : message.length = 8 + payload.length := by
    rw [built, List.length_append]
    rfl
  -- the padding belongs to the link, and the length in the header of IPv4 leaves it out
  obtain ⟨data, packet⟩ : ∃ data, data = ip4Packet id 17 srcIp destIp message ++ padding := ⟨_, rfl⟩
  have shape : frame = (dest.bytes ++ src.bytes) ++ (htons ethertypeIpv4 ++ data) := by
    rw [carried, packet, EthFrame.toBytes, List.append_assoc _ _ padding, List.append_assoc _ (htons ethertypeIpv4)]
  have within : data.length < 2 ^ 32 := by
    rw [shape, List.length_append, @List.length_append _ (htons ethertypeIpv4)] at short
    omega
  obtain ⟨datagram, claimed, protocol, source⟩ := ip4Packet_datagram id 17 srcIp destIp packet (by omega) within addressed
  have body : (((Ptr.mk frame 0).add 14).add 20).Points message := by
    have inner := frame_points (shape.trans (List.append_assoc _ _ data).symm) rfl
    rw [packet, ip4Packet, List.append_assoc] at inner
    exact (inner.append_right (ip4Header_length ..)).append_left
  rw [built] at body
  refine ⟨(((Ptr.mk frame 0).add 14).add 20).add 8, body.append_right rfl, ?_⟩
  rw [udpOfFrame_datagram fuel shape rfl short datagram protocol (by omega), claimed, size, source,
    udpDispatch_header srcPort destPort (by omega) body]
  rfl

/-- What a device sends by UDP arrives at the device it is for, unchanged: the frame is built and sent, and with any
padding after it, it brings the ports and the payload to the choice by the port. -/
theorem udp_round_trip (devices : Devices) (s : Arp) (dev : Nat) {destIp : Ip4Addr} {mac : MacAddr} (srcPort destPort : UInt16)
    {payload : List UInt8} (small : payload.length ≤ 2006) (route : Route (devices dev) s destIp mac) :
    ∃ frame s', udpSend devices s dev destIp srcPort destPort payload = (s', [.sent frame]) ∧
      frame.dev = dev ∧ frame.dest = mac ∧ frame.toBytes.length = 42 + payload.length ∧
      ∀ (fuel : Nat) (n : NetState) (dev' now : Nat) (padding : List UInt8),
        (destIp = .broadcast ∨ destIp = (n.devices dev').ip) → (frame.toBytes ++ padding).length < 2 ^ 32 →
        ∃ q : Ptr, q.Points payload ∧
          udpOfFrame (fuel + 3) (n.devices dev').ip (frame.toBytes ++ padding) =
            .ok (some ((devices dev).ip, ⟨srcPort, destPort, q, UInt32.ofNat payload.length⟩)) ∧
          netReceiveFrame (fuel + 3) n dev' now (frame.toBytes ++ padding) = udpHandOver (fuel + 3) n dev' (devices dev).ip
            (some ⟨srcPort, destPort, q, UInt32.ofNat payload.length⟩) := by
  obtain ⟨message, built⟩ : ∃ message, message = udpHeader srcPort destPort (udpHeaderSize + payload.length) ++ payload :=
    ⟨_, rfl⟩
  have size : message.length = 8 + payload.length := by
    rw [built, List.length_append]
    rfl
  have room : ¬ udpHeaderSize + payload.length > 2048 := by
    simp only [udpHeaderSize]
    omega
  have sent := ipv4Send_sends route 17 message (by simp only [ethHeaderSize, ip4HeaderSize]; omega)
  refine ⟨⟨dev, mac, (devices dev).mac, ethertypeIpv4, ip4Packet s.ipId 17 (devices dev).ip destIp message⟩,
    { s with ipId := s.ipId + 1 }, ?_, rfl, rfl, ?_, ?_⟩
  · rw [udpSend, if_neg room, ← built]
    exact sent
  · have link : (mac.bytes ++ (devices dev).mac.bytes ++ htons ethertypeIpv4).length = 14 := rfl
    simp only [EthFrame.toBytes]
    rw [List.length_append, link, ip4Packet_length, size]
    omega
  · intro fuel n dev' now padding addressed short
    rw [built] at short ⊢
    obtain ⟨q, points, reached⟩ := udpOfFrame_packet fuel mac (devices dev).mac s.ipId dev srcPort destPort
      (show 28 + payload.length < 2 ^ 16 by omega) rfl short addressed
    exact ⟨q, points, reached, netReceiveFrame_udp reached now⟩

/-- A query from the fallback address to the server behind the broadcast address of the link. -/
theorem udp_round_trip_broadcast : ([1, 2, 3] : List UInt8).length ≤ 2006 ∧
    Route fallbackDevice (startState fallbackDevice).arp .broadcast .broadcast ∧
    ∃ frame s', udpSend (fun _ => fallbackDevice) (startState fallbackDevice).arp 0 .broadcast 68 67 [1, 2, 3] =
        (s', [.sent frame]) ∧
      frame.dev = 0 ∧ frame.dest = .broadcast ∧ frame.toBytes.length = 42 + 3 ∧
      ∀ (fuel : Nat) (n : NetState) (dev' now : Nat) (padding : List UInt8),
        (Ip4Addr.broadcast = .broadcast ∨ .broadcast = (n.devices dev').ip) →
        (frame.toBytes ++ padding).length < 2 ^ 32 →
        ∃ q : Ptr, q.Points [1, 2, 3] ∧
          udpOfFrame (fuel + 3) (n.devices dev').ip (frame.toBytes ++ padding) = .ok (some (⟨10, 0, 2, 15⟩, ⟨68, 67, q, 3⟩)) ∧
          netReceiveFrame (fuel + 3) n dev' now (frame.toBytes ++ padding) =
            udpHandOver (fuel + 3) n dev' ⟨10, 0, 2, 15⟩ (some ⟨68, 67, q, 3⟩) :=
  ⟨by decide, Or.inl ⟨rfl, rfl⟩,
    udp_round_trip (fun _ => fallbackDevice) (startState fallbackDevice).arp 0 68 67 (by decide) (Or.inl ⟨rfl, rfl⟩)⟩

end RexOs.Net
