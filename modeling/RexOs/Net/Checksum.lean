import RexOs.Library.OnesComplement
import RexOs.Net.ReceiveSafe

/-! The Internet checksum.

A message verifies when the sum of its words is a positive multiple of 65535. Filling in the
field completes the sum to such a multiple, and one bit changes it by a power of two.
-/

set_option autoImplicit false

namespace RexOs.Net

open RexOs.Library

variable {data front rest : List UInt8}

theorem wordSum_append (rest : List UInt8) (even : front.length % 2 = 0) :
    wordSum (front ++ rest) = wordSum front + wordSum rest := by
  induction front using wordSum.induct with
  | case1 => exact (UInt32.zero_add _).symm
  | case2 b =>
    rw [List.length_singleton] at even
    omega
  | case3 lo hi front ih =>
    rw [List.length_cons, List.length_cons] at even
    rw [List.cons_append, List.cons_append, wordSum, wordSum, ih (by omega), UInt32.add_assoc, UInt32.add_assoc,
      UInt32.add_assoc]

theorem wordSum_toNat (small : words data < 2 ^ 32) : (wordSum data).toNat = words data := by
  induction data using wordSum.induct with
  | case1 => rfl
  | case2 b => exact UInt8.toNat_toUInt32 b
  | case3 lo hi rest ih =>
    rw [words] at small
    have later := ih (by omega)
    rw [wordSum, words, UInt32.toNat_add, UInt32.toNat_add, UInt32.toNat_mul, later, UInt8.toNat_toUInt32,
      UInt8.toNat_toUInt32]
    simp only [UInt32.reduceToNat]
    omega

theorem words_small (short : data.length ≤ 131072) : words data < 2 ^ 32 := by
  have most := words_le data
  omega

theorem foldCarry_endAround (sum : UInt32) : (foldCarry sum).toNat = endAround 16 sum.toNat := foldCarry_toNat sum

theorem netChecksum_toNat (small : words data < 2 ^ 32) : (netChecksum data).toNat = 65535 - folded 16 (words data) := by
  have sum : (foldCarry (foldCarry (wordSum data))).toNat = folded 16 (words data) := by
    rw [foldCarry_endAround, foldCarry_endAround, wordSum_toNat small, folded]
  have low : folded 16 (words data) < 2 ^ 16 := folded_lt small
  rw [netChecksum, UInt16.toNat_not, UInt32.toNat_toUInt16, sum, Nat.mod_eq_of_lt low]
  rfl

theorem netChecksum_zero (small : words data < 2 ^ 32) : netChecksum data = 0 ↔ 0 < words data ∧ 65535 ∣ words data := by
  have low : folded 16 (words data) < 2 ^ 16 := folded_lt small
  -- the complement is zero when the folded sum is all ones
  have ones : folded 16 (words data) = 65535 ↔ 0 < words data ∧ 65535 ∣ words data := folded_ones small (by decide)
  rw [← ones, ← UInt16.toNat_inj, netChecksum_toNat small]
  simp only [UInt16.toNat_zero]
  omega

def putSum (data : List UInt8) (field : Nat) (sum : UInt16) : List UInt8 :=
  data.take field ++ ([sum.toUInt8, (sum >>> 8).toUInt8] ++ data.drop (field + 2))

def fillSum (sum : List UInt8 → UInt16) (field : Nat) (data : List UInt8) : List UInt8 :=
  putSum data field (sum (putSum data field 0))

theorem putSum_length {field : Nat} (inside : field + 2 ≤ data.length) (sum : UInt16) :
    (putSum data field sum).length = data.length := by
  simp only [putSum, List.length_append, List.length_take, List.length_cons, List.length_nil, List.length_drop]
  omega

theorem words_sum (sum : UInt16) (rest : List UInt8) :
    words ([sum.toUInt8, (sum >>> 8).toUInt8] ++ rest) = sum.toNat + words rest := by
  have small := sum.toNat_lt
  simp only [List.cons_append, List.nil_append, words, UInt16.toNat_toUInt8, UInt16.toNat_shiftRight, UInt16.reduceToNat,
    Nat.reduceMod, Nat.shiftRight_eq_div_pow]
  omega

theorem words_putSum {field : Nat} (even : field % 2 = 0) (inside : field ≤ data.length) (sum : UInt16) :
    words (putSum data field sum) = words (putSum data field 0) + sum.toNat := by
  have front : (data.take field).length % 2 = 0 := by
    rw [List.length_take]
    omega
  rw [putSum, putSum, words_append _ front, words_append _ front, words_sum, words_sum]
  simp only [UInt16.toNat_zero]
  omega

theorem netChecksum_fill (before : List UInt8) {field : Nat} (paired : before.length % 2 = 0) (even : field % 2 = 0)
    (inside : field + 2 ≤ data.length) (short : before.length + data.length ≤ 131072) :
    netChecksum (before ++ putSum data field (netChecksum (before ++ putSum data field 0))) = 0 := by
  obtain ⟨sum, filled⟩ : ∃ sum, sum = netChecksum (before ++ putSum data field 0) := ⟨_, rfl⟩
  have small (v : UInt16) : words (before ++ putSum data field v) < 2 ^ 32 := by
    apply words_small
    rw [List.length_append, putSum_length inside]
    exact short
  have value := netChecksum_toNat (small 0)
  have low : folded 16 (words (before ++ putSum data field 0)) < 2 ^ 16 := folded_lt (small 0)
  have whole : words (before ++ putSum data field sum) = words (before ++ putSum data field 0) + sum.toNat := by
    rw [words_append _ paired, words_append _ paired, words_putSum even (by omega) sum]
    omega
  rw [← filled, netChecksum_zero (small sum), whole]
  rw [← filled] at value
  obtain ⟨total, is⟩ : ∃ total, total = words (before ++ putSum data field 0) := ⟨_, rfl⟩
  rw [← is] at value low ⊢
  constructor
  · by_cases none : total = 0
    · rw [none] at value
      rw [none, value]
      decide
    · omega
  · -- what two rounds leave differs from the total by a multiple of 65535
    have once := endAround_add 16 total
    have twice := endAround_add 16 (endAround 16 total)
    rw [folded] at value low
    omega

theorem netChecksum_flip {before : List UInt8} (paired : before.length % 2 = 0)
    (short : before.length + data.length ≤ 131072) (verifies : netChecksum (before ++ data) = 0) {i : Nat}
    (inside : i < 8 * data.length) : netChecksum (before ++ flipBit data i) ≠ 0 := by
  have small : words (before ++ data) < 2 ^ 32 := by
    apply words_small
    rw [List.length_append]
    exact short
  have small' : words (before ++ flipBit data i) < 2 ^ 32 := by
    apply words_small
    rw [List.length_append, flipBit_length]
    exact short
  intro verifies'
  obtain ⟨_, multiple⟩ := (netChecksum_zero small).mp verifies
  obtain ⟨_, multiple'⟩ := (netChecksum_zero small').mp verifies'
  rw [words_append _ paired] at multiple multiple'
  -- the two sums differ by a power of two, which is no multiple of 65535
  obtain ⟨e, low, more | less⟩ := words_flipBit inside
  · apply not_dvd_pow (w := 16) (by decide) low
    rw [more, ← Nat.add_assoc] at multiple'
    exact (Nat.dvd_add_iff_right multiple).mpr multiple'
  · apply not_dvd_pow (w := 16) (by decide) low
    rw [← less, ← Nat.add_assoc] at multiple
    exact (Nat.dvd_add_iff_right multiple').mpr multiple

theorem netChecksumAt_eq {p : Ptr} (points : p.Points data) (short : data.length < 2 ^ 32) (fuel : Nat) :
    netChecksumAt (fuel + 3) p (UInt32.ofNat data.length) = .ok (netChecksum data) := by
  have size : (UInt32.ofNat data.length).toNat = data.length := UInt32.toNat_ofNat_of_lt' short
  obtain ⟨_, read, rfl⟩ := Ptr.readBytes_safe points.holds
  rw [netChecksumAt, size, read, points.bytes]
  simp only [bind, Except.bind, carryLoop_eq]
  rfl

def pseudoHeader (src dst : Ip4Addr) (len : Nat) : List UInt8 :=
  src.bytes ++ dst.bytes ++ [0, 6, UInt8.ofNat (len / 256), UInt8.ofNat len]

theorem pseudoHeader_length (src dst : Ip4Addr) (len : Nat) : (pseudoHeader src dst len).length = 12 := rfl

theorem tcpChecksum_eq (src dst : Ip4Addr) (segment : List UInt8) :
    tcpChecksum src dst segment = netChecksum (pseudoHeader src dst segment.length ++ segment) := by
  rw [netChecksum, wordSum_append _ (by rw [pseudoHeader_length])]
  rfl

theorem tcpChecksumAt_eq {p : Ptr} (points : p.Points data) (short : data.length < 2 ^ 32) (fuel : Nat) (src dst : Ip4Addr) :
    tcpChecksumAt (fuel + 3) src dst p (UInt32.ofNat data.length) = .ok (tcpChecksum src dst data) := by
  have size : (UInt32.ofNat data.length).toNat = data.length := UInt32.toNat_ofNat_of_lt' short
  have high : (UInt32.ofNat data.length >>> 8).toUInt8 = UInt8.ofNat (data.length / 256) := by
    rw [← UInt8.toNat_inj]
    simp only [UInt32.toNat_toUInt8, UInt32.toNat_shiftRight, size, UInt32.reduceToNat, Nat.reduceMod,
      Nat.shiftRight_eq_div_pow, UInt8.toNat_ofNat']
  have low : (UInt32.ofNat data.length).toUInt8 = UInt8.ofNat data.length := by
    rw [← UInt8.toNat_inj, UInt32.toNat_toUInt8, size, UInt8.toNat_ofNat']
  obtain ⟨_, read, rfl⟩ := Ptr.readBytes_safe points.holds
  rw [tcpChecksumAt, size, read, points.bytes, high, low]
  simp only [bind, Except.bind, carryLoop_eq]
  rfl

/-- What the checksum of a kind of message is good for. Its field is at `field`, and a message of `n` bytes
is summed up after the bytes `before n`. -/
structure ChecksumSound (before : Nat → List UInt8) (field least most : Nat) (sum : List UInt8 → UInt16)
    (verify : Ptr → UInt32 → Except NetFault UInt16) : Prop where
  /-- After any number of bytes the accumulator holds their sum. -/
  exact : ∀ data : List UInt8, data.length ≤ most → ∀ k,
    (wordSum (before data.length ++ data.take k)).toNat = words (before data.length ++ data.take k)
  /-- The loops of the receiver end. -/
  returns : ∀ (p : Ptr) data, p.Points data → data.length ≤ most → verify p (UInt32.ofNat data.length) = .ok (sum data)
  filled : ∀ data : List UInt8, least ≤ data.length → data.length ≤ most → sum (fillSum sum field data) = 0
  flipped : ∀ data : List UInt8, data.length ≤ most → sum data = 0 → ∀ i < 8 * data.length, sum (flipBit data i) ≠ 0

theorem ChecksumSound.of {before : Nat → List UInt8} {field least most : Nat} {sum : List UInt8 → UInt16}
    {verify : Ptr → UInt32 → Except NetFault UInt16} (paired : ∀ n, (before n).length % 2 = 0)
    (room : ∀ n, (before n).length + most ≤ 131072) (even : field % 2 = 0) (inside : field + 2 ≤ least)
    (sums : ∀ data, sum data = netChecksum (before data.length ++ data))
    (returns : ∀ (p : Ptr) data, p.Points data → data.length < 2 ^ 32 →
      verify p (UInt32.ofNat data.length) = .ok (sum data)) :
    ChecksumSound before field least most sum verify where
  exact := by
    intro data short k
    have start := room data.length
    apply wordSum_toNat
    apply words_small
    rw [List.length_append, List.length_take]
    omega
  returns := by
    intro p data points short
    have start := room data.length
    exact returns p data points (by omega)
  filled := by
    intro data whole short
    have start := room data.length
    rw [fillSum, sums, sums, putSum_length (by omega), putSum_length (by omega)]
    exact netChecksum_fill _ (paired _) even (by omega) (by omega)
  flipped := by
    intro data short verifies i here
    have start := room data.length
    rw [sums] at verifies
    rw [sums, flipBit_length]
    exact netChecksum_flip (paired _) (by omega) verifies here

theorem ip4Header_length (id : UInt16) (protocol : UInt8) (srcIp destIp : Ip4Addr) (totalLen : Nat) (sum : UInt16) :
    (ip4Header id protocol srcIp destIp totalLen sum).length = 20 := rfl

theorem ip4Header_verifies (id : UInt16) (protocol : UInt8) (srcIp destIp : Ip4Addr) (totalLen : Nat) :
    netChecksum (ip4Header id protocol srcIp destIp totalLen (netChecksum (ip4Header id protocol srcIp destIp totalLen 0))) =
      0 := by
  have size := ip4Header_length id protocol srcIp destIp totalLen 0
  have inside : 10 + 2 ≤ (ip4Header id protocol srcIp destIp totalLen 0).length := by
    rw [size]
    decide
  have short : ([] : List UInt8).length + (ip4Header id protocol srcIp destIp totalLen 0).length ≤ 131072 := by
    rw [size]
    decide
  have stored : ∀ sum, ip4Header id protocol srcIp destIp totalLen sum =
      putSum (ip4Header id protocol srcIp destIp totalLen 0) 10 sum := fun _ => rfl
  have verifies := netChecksum_fill [] rfl rfl inside short
  rw [List.nil_append, List.nil_append, ← stored, ← stored] at verifies
  exact verifies

theorem tcpHeader_verifies (src dst : Ip4Addr) (hdr : TcpHeader) (cleared : hdr.checksum = 0)
    (short : hdr.optionsAndPayload.length ≤ 65535) :
    tcpChecksum src dst { hdr with checksum := tcpChecksum src dst hdr.toBytes }.toBytes = 0 := by
  have size : ∀ sum, { hdr with checksum := sum }.toBytes.length = 20 + hdr.optionsAndPayload.length := by
    intro sum
    rw [TcpHeader.toBytes, List.length_append]
    rfl
  have plain : hdr.toBytes.length = 20 + hdr.optionsAndPayload.length := size hdr.checksum
  have stored : ∀ sum, { hdr with checksum := sum }.toBytes = putSum hdr.toBytes 16 sum := fun _ => rfl
  -- `tcp_output` sums up the header with the field cleared
  have empty : putSum hdr.toBytes 16 0 = hdr.toBytes := by
    rw [← stored 0, ← cleared]
  obtain ⟨front, pseudo⟩ : ∃ front, front = pseudoHeader src dst (20 + hdr.optionsAndPayload.length) := ⟨_, rfl⟩
  have twelve : front.length = 12 := by
    rw [pseudo]
    rfl
  have verifies := netChecksum_fill front (by rw [twelve]) rfl (show 16 + 2 ≤ hdr.toBytes.length by omega) (by omega)
  rw [empty] at verifies
  rw [tcpChecksum_eq, size, stored, tcpChecksum_eq, plain, ← pseudo]
  exact verifies

theorem tcpOutput_verifies {s : Socket} {flags : UInt8} {seq : UInt32} {payload : List UInt8} {x : Sent}
    (member : x ∈ tcpOutput s flags seq payload) : tcpChecksum s.devIp s.remoteIp x.segment.toBytes = 0 := by
  unfold tcpOutput at member
  simp only [List.mem_ite_nil_left, List.mem_singleton] at member
  obtain ⟨room, same⟩ := member
  obtain ⟨hdr, is⟩ : ∃ hdr : TcpHeader, hdr =
      { srcPort := s.localPort
        destPort := s.remotePort
        seq := seq
        ack := if flags &&& tcpAck ≠ 0 then s.ack else 0
        reserved := 0
        dataOffset := if flags &&& tcpSyn ≠ 0 then 6 else 5
        flags := flags
        windowSize := tcpFreeWindow s
        checksum := 0
        urgentPtr := 0
        optionsAndPayload := (if flags &&& tcpSyn ≠ 0 then mssOption else []) ++ payload } := ⟨_, rfl⟩
  have same : x.segment = { hdr with checksum := tcpChecksum s.devIp s.remoteIp hdr.toBytes } := by
    rw [same, is]
  rw [same]
  have short : hdr.optionsAndPayload.length ≤ 65535 := by
    rw [is, List.length_append]
    simp only [tcpHeaderSize] at room
    omega
  exact tcpHeader_verifies s.devIp s.remoteIp hdr (by rw [is]) short

/-- Segments with any header before 65535 bytes, IPv4 headers with any options, and ICMP messages. -/
theorem checksum_sound (fuel : Nat) :
    (∀ src dst, ChecksumSound (pseudoHeader src dst) 16 20 (60 + 65535) (tcpChecksum src dst)
      (tcpChecksumAt (fuel + 3) src dst)) ∧
    ChecksumSound (fun _ => []) 10 20 60 netChecksum (netChecksumAt (fuel + 3)) ∧
    ChecksumSound (fun _ => []) 2 8 (8 + 65535) netChecksum (netChecksumAt (fuel + 3)) := by
  refine ⟨fun src dst => ?_, ?_, ?_⟩
  · have size := pseudoHeader_length src dst
    exact ChecksumSound.of (fun n => by rw [size n]) (fun n => by rw [size n]; decide) rfl (by decide) (tcpChecksum_eq src dst)
      fun _ _ points short => tcpChecksumAt_eq points short fuel src dst
  · exact ChecksumSound.of (fun _ => rfl) (fun _ => by decide) rfl (by decide) (fun _ => rfl)
      fun _ _ points short => netChecksumAt_eq points short fuel
  · exact ChecksumSound.of (fun _ => rfl) (fun _ => by decide) rfl (by decide) (fun _ => rfl)
      fun _ _ points short => netChecksumAt_eq points short fuel

end RexOs.Net
