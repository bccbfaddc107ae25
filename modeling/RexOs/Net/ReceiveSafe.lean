import RexOs.Net.Receive

/-! The receive path is safe on every frame.

`p.Holds len` says that the `len` bytes a function was told about are in the frame;
each function passes on a pointer and a length for which that holds again. Lengths
below the IPv4 header are less than `2 ^ 16`, so no position wraps.
-/

set_option autoImplicit false

namespace RexOs.Net

open RexOs.Library

variable {p : Ptr} {len : UInt32}

theorem foldCarry_toNat (sum : UInt32) : (foldCarry sum).toNat = sum.toNat % 2 ^ 16 + sum.toNat / 2 ^ 16 := by
  have small := sum.toNat_lt
  unfold foldCarry
  simp only [UInt32.toNat_add, UInt32.toNat_and, UInt32.toNat_shiftRight, UInt32.reduceToNat, Nat.reduceMod]
  rw [show (65535 : Nat) = 2 ^ 16 - 1 from rfl, Nat.and_two_pow_sub_one_eq_mod, Nat.shiftRight_eq_div_pow]
  omega

theorem shift_zero (sum : UInt32) : sum >>> 16 = 0 ↔ sum.toNat < 2 ^ 16 := by
  rw [← UInt32.toNat_inj]
  simp only [UInt32.toNat_shiftRight, UInt32.reduceToNat, Nat.reduceMod, Nat.shiftRight_eq_div_pow]
  omega

theorem carryLoop_eq (fuel : Nat) (sum : UInt32) : carryLoop (fuel + 3) sum = .ok (foldCarry (foldCarry sum)) := by
  have small := sum.toNat_lt
  have once := foldCarry_toNat sum
  have twice := foldCarry_toNat (foldCarry sum)
  have idle (v : UInt32) (low : v.toNat < 2 ^ 16) : foldCarry v = v := by
    rw [← UInt32.toNat_inj, foldCarry_toNat]
    omega
  simp only [carryLoop, shift_zero]
  by_cases first : sum.toNat < 2 ^ 16
  · rw [if_pos first, idle sum first, idle sum first]
  rw [if_neg first]
  by_cases second : (foldCarry sum).toNat < 2 ^ 16
  · rw [if_pos second, idle _ second]
  · rw [if_neg second, if_pos (by omega)]

theorem netChecksumAt_safe (holds : p.Holds len.toNat) {fuel : Nat} (enough : 2 ≤ fuel) :
    Safe (netChecksumAt (fuel + 1) p len) fun _ => True := by
  obtain ⟨fuel, rfl⟩ := Nat.exists_eq_add_of_le' enough
  apply Safe.bind (Ptr.readBytes_safe holds)
  intro data _
  rw [carryLoop_eq]
  exact Safe.ok trivial

theorem tcpChecksumAt_safe (holds : p.Holds len.toNat) {fuel : Nat} (enough : 2 ≤ fuel) (src dst : Ip4Addr) :
    Safe (tcpChecksumAt (fuel + 1) src dst p len) fun _ => True := by
  obtain ⟨fuel, rfl⟩ := Nat.exists_eq_add_of_le' enough
  apply Safe.bind (Ptr.readBytes_safe holds)
  intro data _
  rw [carryLoop_eq]
  exact Safe.ok trivial

theorem sub_toNat {a b : UInt32} (le : b.toNat ≤ a.toNat) : (a - b).toNat = a.toNat - b.toNat :=
  UInt32.toNat_sub_of_le _ _ (UInt32.le_iff_toNat_le.mpr le)

theorem not_lt_toNat {a b : UInt32} (large : ¬ a < b) : b.toNat ≤ a.toNat := by
  rwa [UInt32.lt_iff_toNat_lt, Nat.not_lt] at large

theorem icmpReceive_safe (holds : p.Holds len.toNat) {fuel : Nat} (enough : 2 ≤ fuel) (n : NetState) (dev : Nat)
    (srcIp : Ip4Addr) : Safe (icmpReceive (fuel + 1) n dev srcIp p len) fun _ => True := by
  unfold icmpReceive
  refine Safe.ite (fun _ => Safe.ok trivial) fun large => ?_
  have header : 8 ≤ len.toNat := not_lt_toNat large
  apply Safe.bind (netChecksumAt_safe holds enough)
  intro csum _
  refine Safe.ite (fun _ => Safe.ok trivial) fun _ => ?_
  apply Safe.bind (Ptr.read_safe holds (by omega))
  intro type _
  refine Safe.ite (fun _ => ?_) fun _ => Safe.ok trivial
  apply Safe.bind (Ptr.readBytes_safe ((holds.add (by omega)).mono (by omega)))
  intro id _
  apply Safe.bind (Ptr.readBytes_safe ((holds.add (by omega)).mono (by omega)))
  intro seq _
  have rest : (len - 8).toNat = len.toNat - 8 := sub_toNat header
  rw [rest]
  apply Safe.bind (Ptr.readBytes_safe (holds.add header))
  intro payload _
  exact Safe.ok trivial

theorem udpReceive_safe (holds : p.Holds len.toNat) (short : len.toNat < 2 ^ 16) {fuel : Nat}
    (enough : len.toNat ≤ fuel) (n : NetState) (dev : Nat) (srcIp : Ip4Addr) :
    Safe (udpReceive (fuel + 1) n dev srcIp p len) fun _ => True := by
  unfold udpReceive
  refine Safe.ite (fun _ => Safe.ok trivial) fun large => ?_
  have header : 8 ≤ len.toNat := not_lt_toNat large
  apply Safe.bind (Ptr.read16_safe holds (by omega))
  intro srcPort _
  apply Safe.bind (Ptr.read16_safe holds (by omega))
  intro destPort _
  apply Safe.bind (Ptr.read16_safe holds (by omega))
  intro udpLen _
  refine Safe.ite (fun _ => Safe.ok trivial) fun whole => ?_
  obtain ⟨above, inside⟩ := not_or.mp whole
  have least : 8 ≤ udpLen.toUInt32.toNat := by
    rw [UInt16.lt_iff_toNat_lt, Nat.not_lt] at above
    simpa using above
  have most : udpLen.toUInt32.toNat ≤ len.toNat := not_lt_toNat inside
  have size : (udpLen.toUInt32 - 8).toNat = udpLen.toUInt32.toNat - 8 := sub_toNat least
  have holds' : (p.add 8).Holds (udpLen.toUInt32 - 8).toNat := by
    rw [size]
    exact (holds.add header).mono (by omega)
  refine Safe.ite (fun _ => ?_) fun _ => Safe.ite (fun _ => ?_) fun _ => Safe.ok trivial
  · apply Safe.bind (dhcpReceive_safe holds' (by omega) fuel (by omega) _ _ srcPort)
    intro r _
    exact Safe.ok trivial
  · apply Safe.bind (dnsReceive_safe holds' (by omega) fuel (by omega) _ srcIp srcPort)
    intro dns _
    exact Safe.ok trivial

theorem read_eq {n i : Nat} (holds : p.Holds n) (inside : i < n) : ∃ b, p.at? i = some b ∧ p.read i = .ok b := by
  obtain ⟨b, result, found⟩ := Ptr.read_safe holds inside
  exact ⟨b, found, result⟩

section
variable {peerMss : UInt16} {rounds : Nat} {kind olen : UInt8} {rest body : List UInt8}

theorem parseOptionsLoop_end (rest : List UInt8) : parseOptionsLoop peerMss (rounds + 1) (0 :: rest) = peerMss := by
  cases rest <;> rfl

theorem parseOptionsLoop_nop (rest : List UInt8) :
    parseOptionsLoop peerMss (rounds + 1) (1 :: rest) = parseOptionsLoop peerMss rounds rest := by
  cases rest <;> rfl

theorem parseOptionsLoop_cut (ends : kind ≠ 0) (nop : kind ≠ 1) :
    parseOptionsLoop peerMss (rounds + 1) [kind] = peerMss := by
  rw [parseOptionsLoop, if_neg ends, if_neg nop]

def optionMss (peerMss : UInt16) (kind olen hi lo : UInt8) : UInt16 :=
  if kind = 2 ∧ olen = 4 then
    UInt16.ofNat (if hi.toNat * 256 + lo.toNat ≥ 64 ∧ hi.toNat * 256 + lo.toNat ≤ tcpOurMss then
      hi.toNat * 256 + lo.toNat else tcpOurMss)
  else peerMss

theorem parseOptionsLoop_option (ends : kind ≠ 0) (nop : kind ≠ 1) :
    parseOptionsLoop peerMss (rounds + 1) (kind :: olen :: body) =
      if olen < 2 ∨ olen.toNat > body.length + 2 then peerMss
      else parseOptionsLoop (optionMss peerMss kind olen (body.getD 0 0) (body.getD 1 0)) rounds
        (body.drop (olen.toNat - 2)) := by
  rw [parseOptionsLoop, if_neg ends, if_neg nop]
  rfl

end

theorem optionLoop_eq (fuel : Nat) (opt : Ptr) (left : UInt32) (peerMss : UInt16) (holds : opt.Holds left.toNat)
    (enough : left.toNat ≤ fuel) (rounds : Nat) (room : left.toNat ≤ rounds) :
    optionLoop (fuel + 1) opt left peerMss = .ok (parseOptionsLoop peerMss rounds (opt.slice left.toNat)) := by
  induction fuel generalizing opt left peerMss rounds with
  | zero =>
    have none : left.toNat = 0 := by omega
    have empty : ¬ left > 0 := by
      rw [gt_iff_lt, UInt32.lt_iff_toNat_lt, none]
      exact Nat.lt_irrefl 0
    rw [optionLoop, if_neg empty, none]
    cases rounds <;> rfl
  | succ fuel ih =>
    rw [optionLoop]
    by_cases nonempty : left > 0
    · have some_ : 0 < left.toNat := UInt32.lt_iff_toNat_lt.mp nonempty
      obtain ⟨rounds, rfl⟩ : ∃ r, rounds = r + 1 := ⟨rounds - 1, by omega⟩
      obtain ⟨kind, kindAt, kindRead⟩ := read_eq holds some_
      have minus : (left - 1).toNat = left.toNat - 1 := sub_toNat some_
      have bytes : opt.slice left.toNat = kind :: (opt.add 1).slice (left.toNat - 1) := by
        rw [← Ptr.slice_succ kindAt, Nat.sub_add_cancel some_]
      rw [if_pos nonempty, kindRead, bytes]
      simp only [bind, Except.bind]
      by_cases ends : kind = 0
      · subst ends
        rw [if_pos rfl, parseOptionsLoop_end]
      by_cases nop : kind = 1
      · subst nop
        have tail : (opt.add 1).Holds (left - 1).toNat := by
          rw [minus]
          exact holds.add some_
        rw [if_neg ends, if_pos rfl, ih _ _ _ tail (by omega) rounds (by omega), minus, parseOptionsLoop_nop]
      rw [if_neg ends, if_neg nop]
      by_cases single : left < 2
      · have one : left.toNat - 1 = 0 := by
          have few : left.toNat < 2 := UInt32.lt_iff_toNat_lt.mp single
          omega
        rw [if_pos single, one]
        exact congrArg Except.ok (parseOptionsLoop_cut ends nop).symm
      have two : 2 ≤ left.toNat := not_lt_toNat single
      obtain ⟨olen, olenAt, olenRead⟩ := read_eq holds two
      have bytes' : (opt.add 1).slice (left.toNat - 1) = olen :: (opt.add 2).slice (left.toNat - 2) := by
        have size : left.toNat - 1 = left.toNat - 2 + 1 := by omega
        rw [size]
        exact Ptr.slice_succ olenAt
      have length : ((opt.add 2).slice (left.toNat - 2)).length = left.toNat - 2 := Ptr.slice_length (holds.add two)
      rw [if_neg single, olenRead, bytes', parseOptionsLoop_option ends nop, length]
      simp only
      have same : (olen < 2 ∨ olen.toUInt32 > left) ↔ (olen < 2 ∨ olen.toNat > left.toNat - 2 + 2) := by
        rw [gt_iff_lt, UInt32.lt_iff_toNat_lt, UInt8.toNat_toUInt32, Nat.sub_add_cancel two]
      by_cases bad : olen < 2 ∨ olen.toUInt32 > left
      · rw [if_pos bad, if_pos (same.mp bad)]
      rw [if_neg bad, if_neg fun wrong => bad (same.mpr wrong)]
      obtain ⟨least, most⟩ := not_or.mp bad
      rw [UInt8.lt_iff_toNat_lt, Nat.not_lt] at least
      have least : 2 ≤ olen.toNat := least
      have most : olen.toUInt32.toNat ≤ left.toNat := not_lt_toNat most
      have minus' : (left - olen.toUInt32).toNat = left.toNat - olen.toNat := sub_toNat most
      rw [UInt8.toNat_toUInt32] at most
      have tail : (opt.add olen.toNat).Holds (left - olen.toUInt32).toNat := by
        rw [minus']
        exact holds.add most
      have dropped : ((opt.add 2).slice (left.toNat - 2)).drop (olen.toNat - 2) =
          (opt.add olen.toNat).slice (left - olen.toUInt32).toNat := by
        have place : 2 + (olen.toNat - 2) = olen.toNat := by omega
        have size : left.toNat - 2 - (olen.toNat - 2) = left.toNat - olen.toNat := by omega
        rw [Ptr.slice_drop, minus', Ptr.add_add, place, size]
      have next (mss : UInt16) : optionLoop (fuel + 1) (opt.add olen.toNat) (left - olen.toUInt32) mss =
          .ok (parseOptionsLoop mss rounds (((opt.add 2).slice (left.toNat - 2)).drop (olen.toNat - 2))) := by
        rw [dropped]
        exact ih _ _ _ tail (by omega) rounds (by omega)
      by_cases mss : kind = 2 ∧ olen = 4
      · have four : olen.toNat = 4 := by
          rw [mss.2]
          rfl
        obtain ⟨hi, hiAt, hiRead⟩ := read_eq holds (i := 2) (by omega)
        obtain ⟨lo, loAt, loRead⟩ := read_eq holds (i := 3) (by omega)
        have first : ((opt.add 2).slice (left.toNat - 2)).getD 0 0 = hi := Ptr.slice_getD (by omega) hiAt
        have second : ((opt.add 2).slice (left.toNat - 2)).getD 1 0 = lo := Ptr.slice_getD (by omega) loAt
        rw [if_pos mss, hiRead]
        simp only
        rw [loRead]
        simp only
        rw [next, optionMss, if_pos mss, first, second]
      · rw [if_neg mss, next, optionMss, if_neg mss]
    · have none : left.toNat = 0 := by
        rw [gt_iff_lt, UInt32.lt_iff_toNat_lt] at nonempty
        simpa using nonempty
      rw [if_neg nonempty, none]
      cases rounds <;> rfl

theorem readTcp_safe (holds : p.Holds len.toNat) (header : tcpHeaderSize ≤ len.toNat) :
    Safe (readTcp p len) fun tcp => tcp.optionsAndPayload = (p.add tcpHeaderSize).slice (len.toNat - tcpHeaderSize) := by
  have header : 20 ≤ len.toNat := header
  apply Safe.bind (Ptr.read16_safe holds (by omega))
  intro srcPort _
  apply Safe.bind (Ptr.read16_safe holds (by omega))
  intro destPort _
  apply Safe.bind (Ptr.read32_safe holds (by omega))
  intro seq _
  apply Safe.bind (Ptr.read32_safe holds (by omega))
  intro ack _
  apply Safe.bind (Ptr.read_safe holds (by omega))
  intro off _
  apply Safe.bind (Ptr.read_safe holds (by omega))
  intro flags _
  apply Safe.bind (Ptr.read16_safe holds (by omega))
  intro windowSize _
  apply Safe.bind (Ptr.read_safe holds (by omega))
  intro sum0 _
  apply Safe.bind (Ptr.read_safe holds (by omega))
  intro sum1 _
  apply Safe.bind (Ptr.read16_safe holds (by omega))
  intro urgentPtr _
  apply Safe.bind (Ptr.readBytes_safe (holds.add header))
  intro rest bytes
  exact Safe.ok bytes

theorem tcpParseOptionsAt_eq (holds : p.Holds len.toNat) {tcp : TcpHeader} {fuel : Nat}
    (bytes : tcp.optionsAndPayload = (p.add tcpHeaderSize).slice (len.toNat - tcpHeaderSize))
    (least : tcpHeaderSize ≤ tcp.hdrLen) (most : tcp.hdrLen ≤ len.toNat) (enough : len.toNat ≤ fuel) (s : Socket) :
    tcpParseOptionsAt (fuel + 1) p tcp.hdrLen s = .ok (tcpParseOptions s tcp) := by
  unfold tcpParseOptionsAt tcpParseOptions
  have options : tcp.optionsAndPayload.take (tcp.hdrLen - tcpHeaderSize) =
      (p.add tcpHeaderSize).slice (tcp.hdrLen - tcpHeaderSize) := by
    rw [bytes, Ptr.slice_take (by omega)]
  simp only [options]
  split
  · rename_i none
    have empty : tcp.hdrLen - tcpHeaderSize = 0 := by omega
    rw [empty]
    rfl
  · have bound : tcp.hdrLen ≤ 60 := by
      have := tcp.dataOffset.isLt
      unfold TcpHeader.hdrLen
      omega
    have size : (UInt32.ofNat (tcp.hdrLen - tcpHeaderSize)).toNat = tcp.hdrLen - tcpHeaderSize := by
      rw [UInt32.toNat_ofNat', Nat.mod_eq_of_lt (by omega)]
    have inside : (p.add tcpHeaderSize).Holds (tcp.hdrLen - tcpHeaderSize) :=
      (holds.add (by omega)).mono (by omega)
    have loop := optionLoop_eq fuel (p.add tcpHeaderSize) (UInt32.ofNat (tcp.hdrLen - tcpHeaderSize)) s.peerMss
      (by rw [size]; exact inside) (by omega) _ (Nat.le_refl _)
    rw [loop, size, Ptr.slice_length inside]
    rfl

theorem receiveSocketAt_eq (holds : p.Holds len.toNat) {tcp : TcpHeader} {fuel : Nat}
    (bytes : tcp.optionsAndPayload = (p.add tcpHeaderSize).slice (len.toNat - tcpHeaderSize))
    (least : tcpHeaderSize ≤ tcp.hdrLen) (most : tcp.hdrLen ≤ len.toNat) (enough : len.toNat ≤ fuel) (s : Socket)
    (now : Nat) : receiveSocketAt (fuel + 1) p s tcp now = .ok (receiveSocket s tcp now) := by
  unfold receiveSocketAt
  split
  · rename_i synAck
    obtain ⟨noReset, synSent, flags⟩ := synAck
    rw [tcpParseOptionsAt_eq holds bytes least most enough]
    unfold receiveSocket
    simp only [noReset, synSent, flags]
    rfl
  · rfl

theorem tcpReceiveAt_safe (holds : p.Holds len.toNat) (header : tcpHeaderSize ≤ len.toNat) {fuel : Nat}
    (enough : len.toNat ≤ fuel) (t : Tcp) (srcIp destIp : Ip4Addr) (now : Nat) :
    Safe (tcpReceiveAt (fuel + 1) t srcIp destIp p len now) fun _ => True := by
  have two : 2 ≤ fuel := by
    have : 20 ≤ len.toNat := header
    omega
  apply Safe.bind (readTcp_safe holds header)
  intro tcp bytes
  refine Safe.ite (fun _ => Safe.ok trivial) fun whole => ?_
  obtain ⟨least, most⟩ := not_or.mp whole
  rw [Nat.not_lt] at least most
  apply Safe.bind (tcpChecksumAt_safe holds two srcIp destIp)
  intro csum _
  refine Safe.ite (fun _ => Safe.ok trivial) fun _ => ?_
  cases tcpFindSocket t.sockets srcIp tcp.srcPort tcp.destPort with
  | none => exact Safe.ok trivial
  | some s =>
    simp only
    rw [receiveSocketAt_eq holds bytes least most enough]
    exact Safe.ok trivial

theorem tcpReceiveNet_safe (holds : p.Holds len.toNat) (header : tcpHeaderSize ≤ len.toNat) {fuel : Nat}
    (enough : len.toNat ≤ fuel) (n : NetState) (dev now : Nat) (srcIp destIp : Ip4Addr) :
    Safe (tcpReceiveNet (fuel + 1) n dev now srcIp destIp p len) fun _ => True := by
  have room : 20 ≤ len.toNat := header
  apply Safe.bind (Ptr.read16_safe holds (by omega))
  intro srcPort _
  apply Safe.bind (Ptr.read16_safe holds (by omega))
  intro destPort _
  apply Safe.bind (tcpReceiveAt_safe holds header enough n.sockets srcIp destIp now)
  intro r _
  exact Safe.ok trivial

theorem ipv4Receive_safe (holds : p.Holds len.toNat) (header : ip4HeaderSize ≤ len.toNat) {fuel : Nat}
    (enough : len.toNat ≤ fuel) (n : NetState) (dev now : Nat) :
    Safe (ipv4Receive (fuel + 1) n dev now p len) fun _ => True := by
  have room : 20 ≤ len.toNat := header
  apply Safe.bind (Ptr.read_safe holds (by omega))
  intro first _
  refine Safe.ite (fun _ => Safe.ok trivial) fun _ => ?_
  obtain ⟨headerLen, here⟩ : ∃ v, v = ((first &&& 0xF) * 4).toUInt32 := ⟨_, rfl⟩
  simp only [← here]
  refine Safe.ite (fun _ => Safe.ok trivial) fun whole => ?_
  obtain ⟨least, most⟩ := not_or.mp whole
  have least : 20 ≤ headerLen.toNat := not_lt_toNat least
  have most : headerLen.toNat ≤ len.toNat := not_lt_toNat most
  apply Safe.bind (netChecksumAt_safe (holds.mono most) (by omega))
  intro csum _
  refine Safe.ite (fun _ => Safe.ok trivial) fun _ => ?_
  apply Safe.bind (Ptr.read16_safe holds (by omega))
  intro fragOff _
  refine Safe.ite (fun _ => Safe.ok trivial) fun _ => ?_
  apply Safe.bind (Ptr.readIp_safe holds (by omega))
  intro destIp _
  refine Safe.ite (fun _ => Safe.ok trivial) fun _ => ?_
  apply Safe.bind (Ptr.read16_safe holds (by omega))
  intro totalLen _
  refine Safe.ite (fun _ => Safe.ok trivial) fun covers => ?_
  have covers : headerLen.toNat ≤ totalLen.toUInt32.toNat := not_lt_toNat covers
  -- the payload is cut to what is in the frame, and to what the header claims
  obtain ⟨payloadLen, cut⟩ : ∃ v, v = if totalLen.toUInt32 - headerLen > len - headerLen then len - headerLen
      else totalLen.toUInt32 - headerLen := ⟨_, rfl⟩
  simp only [← cut]
  have claimed : (totalLen.toUInt32 - headerLen).toNat = totalLen.toNat - headerLen.toNat := by
    rw [sub_toNat covers, UInt16.toNat_toUInt32]
  have present : (len - headerLen).toNat = len.toNat - headerLen.toNat := sub_toNat most
  have bounds : payloadLen.toNat ≤ len.toNat - headerLen.toNat ∧ payloadLen.toNat < 2 ^ 16 := by
    have small := totalLen.toNat_lt
    rw [cut]
    split
    · rename_i less
      rw [gt_iff_lt, UInt32.lt_iff_toNat_lt] at less
      omega
    · rename_i more
      rw [gt_iff_lt, UInt32.lt_iff_toNat_lt] at more
      omega
  have holds' : (p.add ip4HeaderSize).Holds payloadLen.toNat := (holds.add room).mono (by omega)
  apply Safe.bind (Ptr.readIp_safe holds (by omega))
  intro srcIp _
  apply Safe.bind (Ptr.read_safe holds (by omega))
  intro protocol _
  refine Safe.ite (fun _ => icmpReceive_safe holds' (by omega) n dev srcIp) fun _ => ?_
  refine Safe.ite (fun _ => ?_) fun _ => ?_
  · exact Safe.ite (fun _ => udpReceive_safe holds' bounds.2 (by omega) n dev srcIp) fun _ => Safe.ok trivial
  refine Safe.ite (fun _ => ?_) fun _ => Safe.ok trivial
  refine Safe.ite (fun large => ?_) fun _ => Safe.ok trivial
  have segment : tcpHeaderSize ≤ payloadLen.toNat := UInt32.le_iff_toNat_le.mp large
  exact tcpReceiveNet_safe holds' segment (by omega) n dev now srcIp destIp

theorem readArp_safe (holds : p.Holds arpHeaderSize) : Safe (readArp p) fun _ => True := by
  have holds : p.Holds 28 := holds
  apply Safe.bind (Ptr.read16_safe holds (by omega))
  intro hwType _
  apply Safe.bind (Ptr.read16_safe holds (by omega))
  intro protoType _
  apply Safe.bind (Ptr.read_safe holds (by omega))
  intro hwLen _
  apply Safe.bind (Ptr.read_safe holds (by omega))
  intro protoLen _
  apply Safe.bind (Ptr.read16_safe holds (by omega))
  intro op _
  apply Safe.bind (Ptr.readMac_safe holds (by omega))
  intro srcMac _
  apply Safe.bind (Ptr.readIp_safe holds (by omega))
  intro srcIp _
  apply Safe.bind (Ptr.readMac_safe holds (by omega))
  intro destMac _
  apply Safe.bind (Ptr.readIp_safe holds (by omega))
  intro destIp _
  exact Safe.ok trivial

theorem ethReceive_safe (holds : p.Holds len.toNat) (header : ethHeaderSize ≤ len.toNat) {fuel : Nat}
    (enough : len.toNat ≤ fuel) (n : NetState) (dev now : Nat) :
    Safe (ethReceive (fuel + 1) n dev now p len) fun _ => True := by
  have room : 14 ≤ len.toNat := header
  apply Safe.bind (Ptr.read16_safe holds (by omega))
  intro ethertype _
  refine Safe.ite (fun _ => Safe.ite (fun large => ?_) fun _ => Safe.ok trivial) fun _ =>
    Safe.ite (fun _ => Safe.ite (fun large => ?_) fun _ => Safe.ok trivial) fun _ => Safe.ok trivial
  · have large : 42 ≤ len.toNat := UInt32.le_iff_toNat_le.mp large
    have inside : (p.add ethHeaderSize).Holds arpHeaderSize := by
      apply (holds.add header).mono
      simp only [arpHeaderSize, ethHeaderSize]
      omega
    apply Safe.bind (readArp_safe inside)
    intro arp _
    exact Safe.ok trivial
  · have large : 34 ≤ len.toNat := UInt32.le_iff_toNat_le.mp large
    have rest : (len - UInt32.ofNat ethHeaderSize).toNat = len.toNat - 14 := sub_toNat header
    have inside : (p.add ethHeaderSize).Holds (len - UInt32.ofNat ethHeaderSize).toNat := by
      rw [rest]
      exact holds.add header
    apply ipv4Receive_safe inside
    · rw [rest]
      simp only [ip4HeaderSize]
      omega
    · omega

/-- Whatever a device delivers, no read leaves the frame, and with one round for each byte
of the frame, or more, every loop ends. -/
theorem net_receive_safe (n : NetState) (dev now : Nat) (frame : List UInt8) (more : Nat) :
    ∃ r, netReceiveFrame (frame.length + 1 + more) n dev now frame = .ok r := by
  have size : (UInt32.ofNat frame.length).toNat ≤ frame.length := by
    rw [UInt32.toNat_ofNat']
    exact Nat.mod_le _ _
  have holds : (Ptr.mk frame 0).Holds (UInt32.ofNat frame.length).toNat := by
    simpa [Ptr.Holds] using size
  have safe : Safe (netReceiveFrame (frame.length + 1 + more) n dev now frame) fun _ => True := by
    unfold netReceiveFrame
    refine Safe.ite (fun _ => Safe.ok trivial) fun large => ?_
    rw [Nat.add_right_comm]
    exact ethReceive_safe holds (not_lt_toNat large) (by omega) n dev now
  obtain ⟨r, result, _⟩ := safe
  exact ⟨r, result⟩

end RexOs.Net
