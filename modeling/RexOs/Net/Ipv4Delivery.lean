import RexOs.Net.Checksum

/-! What `ipv4_receive` passes on.

`ipv4Dispatch` is the part of it before the transports are called. The payload of a datagram
starts where its header ends, at a multiple of four bytes, but `ip->payload` is always the 20th
byte: with options it is an option.
-/

set_option autoImplicit false

namespace RexOs.Net

open RexOs.Library

structure Delivery where
  protocol : UInt8
  srcIp : Ip4Addr
  destIp : Ip4Addr
  payload : Ptr
  len : UInt32
  deriving DecidableEq, Repr

def taken? (d : Delivery) : Option Delivery :=
  if d.protocol = 1 then some d
  else if d.protocol = 17 then if d.len ≥ 8 then some d else none
  else if d.protocol = 6 then if d.len ≥ UInt32.ofNat tcpHeaderSize then some d else none
  else none

/-- `ipv4_receive` for a device with the address `ownIp`, up to the call of a transport. -/
def ipv4Dispatch (fuel : Nat) (ownIp : Ip4Addr) (ip : Ptr) (len : UInt32) : Except NetFault (Option Delivery) := do
  let first ← ip.read 0
  if first >>> 4 ≠ 4 then .ok none
  else
    let headerLen := ((first &&& 0xF) * 4).toUInt32
    if headerLen < UInt32.ofNat ip4HeaderSize ∨ len < headerLen then .ok none
    else
      let csum ← netChecksumAt fuel ip headerLen
      if csum ≠ 0 then .ok none
      else
        let fragOff ← ip.read16 6
        if fragOff &&& 0x3FFF ≠ 0 then .ok none
        else
          let destIp ← ip.readIp 16
          if destIp ≠ .broadcast ∧ destIp ≠ ownIp then .ok none
          else
            let totalLen ← ip.read16 2
            if totalLen.toUInt32 < headerLen then .ok none
            else
              let claimed := totalLen.toUInt32 - headerLen
              let payloadLen := if claimed > len - headerLen then len - headerLen else claimed
              let srcIp ← ip.readIp 12
              let protocol ← ip.read 9
              .ok (taken? ⟨protocol, srcIp, destIp, ip.add ip4HeaderSize, payloadLen⟩)

def handOver (fuel : Nat) (n : NetState) (dev now : Nat) : Option Delivery → Except NetFault (NetState × List ArpEvent)
  | none => .ok (n, [])
  | some d =>
      if d.protocol = 1 then icmpReceive fuel n dev d.srcIp d.payload d.len
      else if d.protocol = 17 then udpReceive fuel n dev d.srcIp d.payload d.len
      else tcpReceiveNet fuel n dev now d.srcIp d.destIp d.payload d.len

theorem handOver_taken (fuel : Nat) (n : NetState) (dev now : Nat) (d : Delivery) :
    handOver fuel n dev now (taken? d) =
      if d.protocol = 1 then icmpReceive fuel n dev d.srcIp d.payload d.len
      else if d.protocol = 17 then
        if d.len ≥ 8 then udpReceive fuel n dev d.srcIp d.payload d.len else .ok (n, [])
      else if d.protocol = 6 then
        if d.len ≥ UInt32.ofNat tcpHeaderSize then tcpReceiveNet fuel n dev now d.srcIp d.destIp d.payload d.len
        else .ok (n, [])
      else .ok (n, []) := by
  unfold taken?
  by_cases icmp : d.protocol = 1
  · rw [if_pos icmp, if_pos icmp, handOver, if_pos icmp]
  rw [if_neg icmp, if_neg icmp]
  by_cases udp : d.protocol = 17
  · rw [if_pos udp, if_pos udp]
    split
    · rw [handOver, if_neg icmp, if_pos udp]
    · rfl
  rw [if_neg udp, if_neg udp]
  by_cases tcp : d.protocol = 6
  · rw [if_pos tcp, if_pos tcp]
    split
    · rw [handOver, if_neg icmp, if_neg udp]
    · rfl
  · rw [if_neg tcp, if_neg tcp]
    rfl

theorem ipv4Receive_eq (fuel : Nat) (n : NetState) (dev now : Nat) (ip : Ptr) (len : UInt32) :
    ipv4Receive fuel n dev now ip len =
      ipv4Dispatch fuel (n.devices dev).ip ip len >>= handOver fuel n dev now := by
  unfold ipv4Receive ipv4Dispatch
  simp only [bind_assoc, ite_bind, ok_bind, handOver_taken]
  rfl

/-- `ihl * 4`. -/
def headerLen (data : List UInt8) : Nat := (data.getD 0 0).toNat % 16 * 4

def totalLen (data : List UInt8) : Nat := (word16 data 2).toNat

def payloadLen (data : List UInt8) : Nat := totalLen data - headerLen data

def datagramPayload (data : List UInt8) : List UInt8 := (data.drop (headerLen data)).take (payloadLen data)

/-- An unfragmented datagram for the device with the address `ownIp`. After its `totalLen` bytes there may be padding. -/
structure Ip4Datagram (ownIp : Ip4Addr) (data : List UInt8) : Prop where
  version : data.getD 0 0 >>> 4 = 4
  header : ip4HeaderSize ≤ headerLen data
  whole : headerLen data ≤ totalLen data
  present : totalLen data ≤ data.length
  short : data.length < 2 ^ 32
  valid : netChecksum (data.take (headerLen data)) = 0
  unfragmented : word16 data 6 &&& 0x3FFF = 0
  addressed : ipAt data 16 = .broadcast ∨ ipAt data 16 = ownIp

def HasTransport (data : List UInt8) : Prop :=
  data.getD 9 0 = 1 ∨ data.getD 9 0 = 17 ∧ 8 ≤ payloadLen data ∨ data.getD 9 0 = 6 ∧ tcpHeaderSize ≤ payloadLen data

instance (data : List UInt8) : Decidable (HasTransport data) := inferInstanceAs (Decidable (_ ∨ _))

theorem headerLen_word (data : List UInt8) : ((data.getD 0 0 &&& 0xF) * 4).toUInt32.toNat = headerLen data := by
  have low : (data.getD 0 0 &&& 0xF).toNat = (data.getD 0 0).toNat % 16 := by
    rw [UInt8.toNat_and]
    exact Nat.and_two_pow_sub_one_eq_mod _ 4
  rw [UInt8.toNat_toUInt32, UInt8.toNat_mul, low, headerLen]
  exact Nat.mod_eq_of_lt (show (data.getD 0 0).toNat % 16 * 4 < 256 by omega)

section
variable {p : Ptr} {data : List UInt8} {ownIp : Ip4Addr}

theorem ipv4Dispatch_datagram (points : p.Points data) (datagram : Ip4Datagram ownIp data) (fuel : Nat) :
    ipv4Dispatch (fuel + 3) ownIp p (UInt32.ofNat data.length) =
      .ok (taken? ⟨data.getD 9 0, ipAt data 12, ipAt data 16, p.add ip4HeaderSize, UInt32.ofNat (payloadLen data)⟩) := by
  have header : 20 ≤ headerLen data := datagram.header
  have whole := datagram.whole
  have present := datagram.present
  have length : (UInt32.ofNat data.length).toNat = data.length := UInt32.toNat_ofNat_of_lt' datagram.short
  obtain ⟨word, is⟩ : ∃ word, word = ((data.getD 0 0 &&& 0xF) * 4).toUInt32 := ⟨_, rfl⟩
  have value : word.toNat = headerLen data := by
    rw [is]
    exact headerLen_word data
  have front : (data.take (headerLen data)).length = headerLen data := by
    rw [List.length_take]
    omega
  have short := datagram.short
  have checked := netChecksumAt_eq (points.take (headerLen data)) (by omega) fuel
  rw [front, ← value, UInt32.ofNat_toNat, value, datagram.valid] at checked
  have room : ¬ (word < UInt32.ofNat ip4HeaderSize ∨ UInt32.ofNat data.length < word) := by
    rw [UInt32.lt_iff_toNat_lt, UInt32.lt_iff_toNat_lt, length, value]
    have size : (UInt32.ofNat ip4HeaderSize).toNat = 20 := rfl
    omega
  have mine : ¬ (ipAt data 16 ≠ .broadcast ∧ ipAt data 16 ≠ ownIp) := by
    rintro ⟨one, two⟩
    exact datagram.addressed.elim one two
  have total : (word16 data 2).toUInt32.toNat = totalLen data := UInt16.toNat_toUInt32 _
  have covers : ¬ (word16 data 2).toUInt32 < word := by
    rw [UInt32.lt_iff_toNat_lt, total, value]
    omega
  have claimed : ((word16 data 2).toUInt32 - word).toNat = payloadLen data := by
    rw [sub_toNat (by omega), total, value, payloadLen]
  have left : (UInt32.ofNat data.length - word).toNat = data.length - headerLen data := by
    rw [sub_toNat (by omega), length, value]
  have fits : ¬ (word16 data 2).toUInt32 - word > UInt32.ofNat data.length - word := by
    rw [gt_iff_lt, UInt32.lt_iff_toNat_lt, claimed, left, payloadLen]
    omega
  have cut : (word16 data 2).toUInt32 - word = UInt32.ofNat (payloadLen data) := by
    rw [← claimed, UInt32.ofNat_toNat]
  -- every check of `ipv4_receive` in its order
  unfold ipv4Dispatch
  rw [points.read (by omega), ok_bind, if_neg (not_not_intro datagram.version)]
  simp only [← is]
  rw [if_neg room, checked, ok_bind, if_neg (not_not_intro rfl), points.read16 (by omega), ok_bind,
    if_neg (not_not_intro datagram.unfragmented), points.readIp (by omega), ok_bind, if_neg mine,
    points.read16 (by omega), ok_bind, if_neg covers, points.readIp (by omega), ok_bind, points.read (by omega), ok_bind,
    if_neg fits, cut]

theorem taken?_eq (d : Delivery) (data : List UInt8) (protocol : d.protocol = data.getD 9 0) (len : d.len.toNat = payloadLen data) :
    taken? d = if HasTransport data then some d else none := by
  have udp : d.len ≥ 8 ↔ 8 ≤ payloadLen data := by
    rw [ge_iff_le, UInt32.le_iff_toNat_le, len]
    rfl
  have tcp : d.len ≥ UInt32.ofNat tcpHeaderSize ↔ tcpHeaderSize ≤ payloadLen data := by
    rw [ge_iff_le, UInt32.le_iff_toNat_le, len]
    rfl
  have transport : HasTransport data ↔ d.protocol = 1 ∨ d.protocol = 17 ∧ d.len ≥ 8 ∨
      d.protocol = 6 ∧ d.len ≥ UInt32.ofNat tcpHeaderSize := by
    rw [HasTransport, ← protocol, udp, tcp]
  by_cases has : HasTransport data
  · rw [if_pos has, taken?]
    rcases transport.mp has with one | ⟨two, room⟩ | ⟨three, room⟩
    · rw [if_pos one]
    · rw [if_neg (by rw [two]; decide), if_pos two, if_pos room]
    · rw [if_neg (by rw [three]; decide), if_neg (by rw [three]; decide), if_pos three, if_pos room]
  · rw [if_neg has, taken?]
    obtain ⟨one, rest⟩ := not_or.mp fun any => has (transport.mpr any)
    obtain ⟨two, three⟩ := not_or.mp rest
    rw [if_neg one]
    split
    · rename_i protocol
      exact if_neg fun room => two ⟨protocol, room⟩
    split
    · rename_i protocol
      exact if_neg fun room => three ⟨protocol, room⟩
    · rfl

def PassesPayload (fuel : Nat) (ownIp : Ip4Addr) (p : Ptr) (data : List UInt8) : Prop :=
  (ipv4Dispatch fuel ownIp p (UInt32.ofNat data.length)).map (Option.map fun d => d.payload.slice d.len.toNat) =
    .ok (if HasTransport data then some (datagramPayload data) else none)

/-- The payload is also found after 20 bytes. With a header of that length it always is. -/
def PayloadInPlace (data : List UInt8) : Prop :=
  ∀ k < payloadLen data, data.getD (ip4HeaderSize + k) 0 = data.getD (headerLen data + k) 0

theorem slices_eq {i j n : Nat} (first : i + n ≤ data.length) (second : j + n ≤ data.length) :
    (data.drop i).take n = (data.drop j).take n ↔ ∀ k < n, data.getD (i + k) 0 = data.getD (j + k) 0 := by
  have byte : ∀ {m k : Nat}, k < n → m + n ≤ data.length → ((data.drop m).take n)[k]? = some (data.getD (m + k) 0) := by
    intro m k inside room
    have bound : m + k < data.length := by omega
    rw [List.getElem?_take_of_lt inside, List.getElem?_drop, List.getD_eq_getElem?_getD, List.getElem?_eq_getElem bound]
    rfl
  constructor
  · intro same k inside
    have here := byte inside first
    rw [same, byte inside second] at here
    exact (Option.some.inj here).symm
  · intro same
    apply List.ext_getElem?
    intro k
    by_cases inside : k < n
    · rw [byte inside first, byte inside second, same k inside]
    · rw [List.getElem?_eq_none (by rw [List.length_take]; omega), List.getElem?_eq_none (by rw [List.length_take]; omega)]

theorem passesPayload_iff (points : p.Points data) (datagram : Ip4Datagram ownIp data) (fuel : Nat) :
    PassesPayload (fuel + 3) ownIp p data ↔ (HasTransport data → PayloadInPlace data) := by
  have header : 20 ≤ headerLen data := datagram.header
  have whole := datagram.whole
  have present := datagram.present
  have short := datagram.short
  have room : headerLen data + payloadLen data ≤ data.length := by
    rw [payloadLen]
    omega
  have len : (UInt32.ofNat (payloadLen data)).toNat = payloadLen data :=
    UInt32.toNat_ofNat_of_lt' (by simp only [UInt32.size]; omega)
  rw [PassesPayload, ipv4Dispatch_datagram points datagram, taken?_eq _ data rfl len]
  by_cases has : HasTransport data
  · -- the source adds the size of a header without options
    have bytes : (p.add ip4HeaderSize).slice (payloadLen data) = (data.drop ip4HeaderSize).take (payloadLen data) :=
      points.slice (by simp only [ip4HeaderSize]; omega)
    rw [if_pos has, if_pos has, datagramPayload, PayloadInPlace,
      ← slices_eq (by simp only [ip4HeaderSize]; omega) room, ← bytes]
    simp only [Except.map, Option.map_some, len, Except.ok.injEq, Option.some.injEq, has, true_implies]
  · rw [if_neg has, if_neg has]
    exact iff_of_true rfl fun some => absurd some has

end

/-- A datagram of 32 bytes from 10.0.2.3 to 10.0.2.15: four bytes of options and an empty message of UDP. -/
def optionsDatagram : List UInt8 :=
  [0x46, 0, 0, 32, 0, 0, 0, 0, 64, 17, 95, 186, 10, 0, 2, 3, 10, 0, 2, 15, 1, 1, 1, 1, 0, 53, 4, 29, 0, 8, 0, 0]

theorem optionsDatagram_valid : Ip4Datagram ⟨10, 0, 2, 15⟩ optionsDatagram :=
  ⟨by decide, by decide, by decide, by decide, by decide, by decide, by decide, Or.inr (by decide)⟩

theorem optionsDatagram_points : (Ptr.mk optionsDatagram 0).Points optionsDatagram := ⟨Nat.le_refl _, by decide⟩

/-- The options are taken for the ports. -/
theorem optionsDatagram_misread : Ip4Datagram ⟨10, 0, 2, 15⟩ optionsDatagram ∧
    (Ptr.mk optionsDatagram 0).Points optionsDatagram ∧
    (ipv4Dispatch 3 ⟨10, 0, 2, 15⟩ ⟨optionsDatagram, 0⟩ 32).map (Option.map fun d => d.payload.slice d.len.toNat) =
      .ok (some [1, 1, 1, 1, 0, 53, 4, 29]) ∧
    ¬ PassesPayload 3 ⟨10, 0, 2, 15⟩ ⟨optionsDatagram, 0⟩ optionsDatagram := by
  refine ⟨optionsDatagram_valid, optionsDatagram_points, rfl, ?_⟩
  rw [passesPayload_iff optionsDatagram_points optionsDatagram_valid 0]
  intro everywhere
  exact absurd (everywhere (by decide) 0 (by decide)) (by decide)

/-- The payload arrives if there are no options, or by chance. -/
theorem ipv4_payload_delivery (n : NetState) (dev now fuel : Nat) {p : Ptr} {data : List UInt8} (points : p.Points data)
    (datagram : Ip4Datagram (n.devices dev).ip data) :
    ipv4Receive (fuel + 3) n dev now p (UInt32.ofNat data.length) =
      ipv4Dispatch (fuel + 3) (n.devices dev).ip p (UInt32.ofNat data.length) >>= handOver (fuel + 3) n dev now ∧
    (PassesPayload (fuel + 3) (n.devices dev).ip p data ↔ (HasTransport data → PayloadInPlace data)) :=
  ⟨ipv4Receive_eq _ n dev now p _, passesPayload_iff points datagram fuel⟩

/-- The device that `net_register_device` sets up when there is no DHCP server. -/
def fallbackDevice : NetDevice :=
  ⟨⟨0x52, 0x54, 0, 0x12, 0x34, 0x56⟩, ⟨10, 0, 2, 15⟩, ⟨10, 0, 2, 2⟩, ⟨255, 255, 255, 0⟩, ⟨10, 0, 2, 3⟩⟩

def startState (d : NetDevice) : NetState where
  devices := fun _ => d
  arp := ⟨fun _ => ⟨.zero, .broadcast, false⟩, fun _ => ⟨0, .zero, [], false⟩, 0⟩
  dns := ⟨.zero, false, 0, .zero⟩
  dhcp := ⟨false, false, 0, .zero, .zero⟩
  tcp := ⟨[], 49152⟩
  sockDev := fun _ => 0

theorem ipv4_payload_delivery_options :
    ipv4Receive 3 (startState fallbackDevice) 0 0 ⟨optionsDatagram, 0⟩ 32 =
      ipv4Dispatch 3 ⟨10, 0, 2, 15⟩ ⟨optionsDatagram, 0⟩ 32 >>= handOver 3 (startState fallbackDevice) 0 0 ∧
    (PassesPayload 3 ⟨10, 0, 2, 15⟩ ⟨optionsDatagram, 0⟩ optionsDatagram ↔
      (HasTransport optionsDatagram → PayloadInPlace optionsDatagram)) :=
  ipv4_payload_delivery (startState fallbackDevice) 0 0 0 optionsDatagram_points optionsDatagram_valid

/-- The reply to an echo request: only the type, the code and the checksum are new. -/
def echoReply (request : List UInt8) : List UInt8 :=
  let reply := ([0, 0, 0, 0] : List UInt8) ++ request.drop 4
  putSum reply 2 (netChecksum reply)

theorem echoReply_verifies {request : List UInt8} (short : request.length ≤ 2048) : netChecksum (echoReply request) = 0 := by
  have size : (([0, 0, 0, 0] : List UInt8) ++ request.drop 4).length = 4 + (request.length - 4) := by
    rw [List.length_append, List.length_drop]
    rfl
  have verifies := netChecksum_fill [] rfl rfl (show 2 + 2 ≤ (([0, 0, 0, 0] : List UInt8) ++ request.drop 4).length by omega)
    (show ([] : List UInt8).length + _ ≤ 131072 by rw [size, List.length_nil]; omega)
  rw [List.nil_append, List.nil_append] at verifies
  exact verifies

theorem icmpSendReply_echo (n : NetState) (dev : Nat) (destIp : Ip4Addr) {data : List UInt8} (header : 8 ≤ data.length) :
    icmpSendReply n dev destIp ((data.drop 4).take 2) ((data.drop 6).take 2) (data.drop 8) =
      if data.length ≤ 2048 then n.ipv4Send dev destIp 1 (echoReply data) else (n, []) := by
  have whole : (data.drop 4).take 2 ++ ((data.drop 6).take 2 ++ data.drop 8) = data.drop 4 := by
    rw [show data.drop 8 = (data.drop 6).drop 2 by rw [List.drop_drop], List.take_append_drop,
      show data.drop 6 = (data.drop 4).drop 2 by rw [List.drop_drop], List.take_append_drop]
  unfold icmpSendReply
  simp only [List.append_assoc, whole, List.length_drop]
  by_cases fits : data.length ≤ 2048
  · rw [if_neg (by omega), if_pos fits]
    rfl
  · rw [if_pos (by omega), if_neg fits]

/-- Exactly the echo requests of up to 2048 bytes whose checksum is right are answered, with a message that the
same check accepts and that has their identifier, number and data. -/
theorem icmp_echo (fuel : Nat) (n : NetState) (dev : Nat) (srcIp : Ip4Addr) {p : Ptr} {data : List UInt8} (points : p.Points data)
    (short : data.length < 2 ^ 32) :
    icmpReceive (fuel + 3) n dev srcIp p (UInt32.ofNat data.length) = .ok
        (if 8 ≤ data.length ∧ netChecksum data = 0 ∧ data.getD 0 0 = 8 ∧ data.length ≤ 2048 then
          n.ipv4Send dev srcIp 1 (echoReply data) else (n, [])) ∧
      (echoReply data).take 2 = [0, 0] ∧ (echoReply data).drop 4 = data.drop 4 ∧
      (data.length ≤ 2048 → netChecksum (echoReply data) = 0) := by
  refine ⟨?_, rfl, rfl, echoReply_verifies⟩
  have size : (UInt32.ofNat data.length).toNat = data.length := UInt32.toNat_ofNat_of_lt' short
  unfold icmpReceive
  by_cases header : 8 ≤ data.length
  · have large : ¬ UInt32.ofNat data.length < 8 := by
      rw [UInt32.lt_iff_toNat_lt, size]
      exact Nat.not_lt.mpr header
    have rest : (UInt32.ofNat data.length - 8).toNat = data.length - 8 := by
      rw [sub_toNat (by rwa [size]), size]
      rfl
    have piece {k m : Nat} (inside : k + m ≤ data.length) : (p.add k).readBytes m = .ok ((data.drop k).take m) := by
      obtain ⟨_, read, rfl⟩ := Ptr.readBytes_safe ((points.holds.add (k := k) (by omega)).mono (k := m) (by omega))
      rw [read, points.slice inside]
    have last : (data.drop 8).take (data.length - 8) = data.drop 8 := List.take_of_length_le (Nat.le_of_eq List.length_drop)
    rw [if_neg large, netChecksumAt_eq points short, rest]
    simp only [ok_bind, points.read (i := 0) (by omega), piece (k := 4) (m := 2) (by omega), piece (k := 6) (m := 2) (by omega),
      piece (k := 8) (m := data.length - 8) (by omega), last, icmpSendReply_echo n dev srcIp header, header, true_and]
    by_cases valid : netChecksum data = 0
    · by_cases request : data.getD 0 0 = 8
      · simp only [valid, request, ne_eq, not_true_eq_false, if_true, if_false, true_and]
      · simp only [valid, request, ne_eq, not_true_eq_false, if_false, true_and, false_and]
    · simp only [valid, ne_eq, not_false_eq_true, if_true, false_and, if_false]
  · have small : UInt32.ofNat data.length < 8 := by
      rw [UInt32.lt_iff_toNat_lt, size]
      exact Nat.not_le.mp header
    rw [if_pos small, if_neg fun all => header all.1]

def ping : List UInt8 := [8, 0, 0xF7, 0xFD, 0, 1, 0, 1]

theorem ping_points : (Ptr.mk ping 0).Points ping := ⟨Nat.le_refl _, rfl⟩

theorem icmp_echo_ping :
    icmpReceive 3 (startState fallbackDevice) 0 ⟨10, 0, 2, 2⟩ ⟨ping, 0⟩ 8 =
      .ok ((startState fallbackDevice).ipv4Send 0 ⟨10, 0, 2, 2⟩ 1 (echoReply ping)) ∧ netChecksum (echoReply ping) = 0 := by
  have echo := icmp_echo 0 (startState fallbackDevice) 0 ⟨10, 0, 2, 2⟩ ping_points (by decide)
  exact ⟨echo.1.trans (congrArg Except.ok (if_pos (by decide))), echo.2.2.2 (by decide)⟩

end RexOs.Net
