import RexOs.User.ReadResponse
import RexOs.User.UrlPrinted

/-! Numbers in URLs and headers are read into an `int`.

A port is accepted at its value unless the value wraps around to another port, and an announced
length is used at its value, or not at all, unless it wraps around to a smaller one. A response
is then never taken for complete before the announced length is there.
-/

set_option autoImplicit false

namespace RexOs.User.Http

open RexOs.Library

def IsPort (value : Int) : Prop := 1 ≤ value ∧ value ≤ 65535

instance (value : Int) : Decidable (IsPort value) := inferInstanceAs (Decidable (1 ≤ value ∧ value ≤ 65535))

def PortFits (value : Int) : Prop := value < 2 ^ 32 ∨ ¬ IsPort (value % 2 ^ 32)

instance (value : Int) : Decidable (PortFits value) := inferInstanceAs (Decidable (value < 2 ^ 32 ∨ ¬ IsPort (value % 2 ^ 32)))

structure PortUrl (url digits : List UInt8) : Prop where
  decimals : ∀ c ∈ digits, isDecimal c = true
  parts : ∃ isTls host tail, splitScheme url = (isTls, host ++ 58 :: (digits ++ tail)) ∧ host ≠ [] ∧
    host.length ≤ httpHostMax - 1 ∧ (∀ c ∈ host, c ≠ 47 ∧ c ≠ 58) ∧ (∀ c ∈ tail.head?, isDecimal c = false) ∧
    ∃ path, parsePath tail = .ok path

def PortRead (url digits : List UInt8) : Prop :=
  ((∃ u norm, hParseUrl url false = .ok (u, norm)) ↔ IsPort (decimal digits)) ∧
    ∀ u norm, hParseUrl url false = .ok (u, norm) → (u.port : Int) = decimal digits

theorem wrapInt_cases (n : Int) : (n % 2 ^ 32 < 2 ^ 31 ∧ wrapInt n = n % 2 ^ 32) ∨ (2 ^ 31 ≤ n % 2 ^ 32 ∧ wrapInt n < 0) := by
  have same := wrapInt_emod n
  have low := wrapInt_low n
  have high := wrapInt_high n
  omega

theorem portUrl_parsed {url digits : List UInt8} (good : PortUrl url digits) : ∃ isTls host path,
    hParseUrl url false = if IsPort (wrapInt (decimal digits)) then
      .ok (⟨host, path, (wrapInt (decimal digits)).toNat, isTls⟩, []) else .error httpErrBadUrl := by
  obtain ⟨isTls, host, tail, scheme, some_, short, plain, stop, path, pathParsed⟩ := good.parts
  refine ⟨isTls, host, path, ?_⟩
  have value : hAtoi (digits ++ tail) = wrapInt (decimal digits) := by
    rw [hAtoi_eq, takeWhile_digits good.decimals stop]
  have behind := dropWhile_digits good.decimals stop
  have loop := hostLoop_append (58 :: (digits ++ tail)) short plain (.inr (.inr rfl))
  have full : ¬ host ++ 58 :: (digits ++ tail) = [] := fun none_ => some_ (List.append_eq_nil_iff.mp none_).1
  have stops : ¬ (host = [] ∨ (58 :: (digits ++ tail) ≠ [] ∧ (58 :: (digits ++ tail)).head? ≠ some 47 ∧
      (58 :: (digits ++ tail)).head? ≠ some 58)) := by
    rintro (none_ | ⟨-, -, colon⟩)
    · exact some_ none_
    · exact colon rfl
  have port : parsePort isTls (58 :: (digits ++ tail)) =
      if IsPort (wrapInt (decimal digits)) then .ok ((wrapInt (decimal digits)).toNat, tail) else .error httpErrBadUrl := by
    have colon : (58 :: (digits ++ tail)).head? = some 58 := rfl
    simp only [parsePort, if_pos colon, List.tail_cons, value, behind]
    by_cases valid : IsPort (wrapInt (decimal digits))
    · rw [if_pos valid, if_neg]
      unfold IsPort at valid
      omega
    · rw [if_neg valid, if_pos]
      unfold IsPort at valid
      omega
  simp only [hParseUrl, scheme, full, if_false, loop, stops, port]
  split
  · show (parsePath tail >>= _) = _
    rw [pathParsed]
    rfl
  · rfl

theorem isPort_wrapInt (n : Int) : IsPort (wrapInt n) ↔ IsPort (n % 2 ^ 32) := by
  unfold IsPort
  rcases wrapInt_cases n with ⟨_, same⟩ | ⟨large, negative⟩
  · rw [same]
  · omega

theorem portRead_iff {url digits : List UInt8} (good : PortUrl url digits) : PortRead url digits ↔ PortFits (decimal digits) := by
  obtain ⟨isTls, host, path, parsed⟩ := portUrl_parsed good
  have low := decimal_nonneg good.decimals
  generalize number : decimal digits = n at parsed low
  by_cases valid : IsPort (n % 2 ^ 32)
  · rw [if_pos ((isPort_wrapInt n).mpr valid)] at parsed
    have value : ((wrapInt n).toNat : Int) = n % 2 ^ 32 := by
      unfold IsPort at valid
      rcases wrapInt_cases n with ⟨_, same⟩ | ⟨large, _⟩ <;> omega
    constructor
    · rintro ⟨-, exact_⟩
      have same : ((wrapInt n).toNat : Int) = decimal digits := exact_ _ _ parsed
      rw [number] at same
      exact .inl (by omega)
    · intro fits
      have small : n < 2 ^ 32 := fits.resolve_right (not_not.mpr valid)
      have same : n % 2 ^ 32 = n := Int.emod_eq_of_lt low small
      refine ⟨?_, ?_⟩
      · rw [number, ← same]
        exact ⟨fun _ => valid, fun _ => ⟨_, _, parsed⟩⟩
      · intro u norm accepted
        have first : (⟨host, path, (wrapInt n).toNat, isTls⟩ : HttpUrl) = u :=
          congrArg Prod.fst (Except.ok.inj (parsed.symm.trans accepted))
        rw [number, ← first]
        exact value.trans same
  · rw [if_neg (fun port => valid ((isPort_wrapInt n).mp port))] at parsed
    refine ⟨fun _ => .inr valid, fun _ => ⟨?_, ?_⟩⟩
    · rw [number]
      constructor
      · rintro ⟨u, norm, accepted⟩
        rw [parsed] at accepted
        cases accepted
      · intro port
        rw [IsPort] at port
        rw [Int.emod_eq_of_lt (by omega) (by omega)] at valid
        exact absurd port valid
    · intro u norm accepted
      rw [parsed] at accepted
      cases accepted

def LengthFits (n : Int) : Prop := n < 2 ^ 31 ∨ 2 ^ 31 ≤ n % 2 ^ 32

theorem length_known_iff {n : Int} (low : 0 ≤ n) : wrapInt n = n ∨ wrapInt n < 0 ↔ LengthFits n := by
  unfold LengthFits
  have high := wrapInt_high n
  rcases wrapInt_cases n with ⟨_, same⟩ | ⟨large, negative⟩ <;> omega

theorem contentLengthDigits_decimals {raw digits : List UInt8} {headerLen : Nat} (some_ : contentLengthDigits raw headerLen = some digits) :
    ∀ c ∈ digits, isDecimal c = true := by
  rw [contentLengthDigits] at some_
  split at some_
  · split at some_
    · cases some_
    · rw [← Option.some.inj some_]
      exact fun c member => List.mem_takeWhile_imp member
  · cases some_

structure Announced (s : Reader) : Prop where
  header : s.hdrLen = hFindHeaderEnd s.received
  length : 0 ≤ s.hdrLen → s.clen = hHeaderContentLength s.received s.hdrLen.toNat

theorem announced_start (b : Buffer) (tick : UInt64) : Announced (readStart b tick) := by
  have none_ : ¬ (0 : Int) ≤ -1 := by decide
  exact ⟨rfl, fun found => absurd found none_⟩

theorem hHeaderContentLength_append {raw : List UInt8} {headerLen : Nat} (found : hFindHeaderEnd raw = headerLen) (more : List UInt8) :
    hHeaderContentLength (raw ++ more) headerLen = hHeaderContentLength raw headerLen := by
  rw [hHeaderContentLength_eq found, hHeaderContentLength_eq (hFindHeaderEnd_append found more),
    contentLengthDigits_append found more]

variable {rawLimit : Int} {others : LiveBlocks} {s : Reader}

theorem takeBytes_header {s' : Reader} {e : Event} (taken : takeBytes rawLimit s e = .ok s') :
    s'.hdrLen = s.hdrLen ∧ s'.clen = s.clen ∧ s'.received = s.received ++ e.recv.chunk := by
  obtain ⟨grown, -, taken⟩ := bind_returns taken
  obtain ⟨chunk, -, taken⟩ := bind_returns taken
  obtain ⟨appended, -, taken⟩ := bind_returns taken
  obtain ⟨ended, -, taken⟩ := bind_returns taken
  rw [← Except.ok.inj taken]
  exact ⟨rfl, rfl, rfl⟩

theorem findHeader_announced (inv : Buffered rawLimit others s) (whole : s.hitLimit = false) {old more : List UInt8}
    (received : s.received = old ++ more) (header : s.hdrLen = hFindHeaderEnd old)
    (length : 0 ≤ s.hdrLen → s.clen = hHeaderContentLength old s.hdrLen.toNat) :
    Safe (findHeader s) fun s' => Announced s' ∧ ∃ hdrLen clen, s' = { s with hdrLen := hdrLen, clen := clen } := by
  obtain ⟨block, owns, front⟩ := inv.contents
  have low := inv.low
  have room := inv.room
  have cap := owns.cap
  have all : s.total.toNat = s.received.length := by
    have few := inv.few
    by_contra less
    have hit := inv.discarded (by omega)
    rw [whole] at hit
    cases hit
  have read := owns.has.peek (n := s.total.toNat) (by omega)
  rw [front, all, List.take_length, ← all, Int.toNat_of_nonneg low] at read
  unfold findHeader
  apply Safe.ite
  · intro _
    rw [read]
    refine Safe.ok ⟨⟨rfl, fun found => ?_⟩, _, _, rfl⟩
    exact if_pos found
  · intro found
    have found : 0 ≤ s.hdrLen := by omega
    have place : hFindHeaderEnd old = s.hdrLen.toNat := by omega
    refine Safe.ok ⟨⟨?_, fun _ => ?_⟩, _, _, rfl⟩
    · rw [received, hFindHeaderEnd_append place more]
      omega
    · rw [received, hHeaderContentLength_append place more]
      exact length found

theorem leave_same {r : Verdict × Reader} (left : leave s = .ok r) :
    r.1 = .done ∧ ∃ heap, r.2 = { s with buffer := { s.buffer with heap := heap } } := by
  obtain ⟨heap, -, left⟩ := bind_returns left
  rw [← Except.ok.inj left]
  exact ⟨rfl, heap, rfl⟩

/-- What a round says about the header, as long as no byte is discarded. -/
structure Heard (e : Event) (r : Verdict × Reader) : Prop where
  announced : Announced r.2
  complete : r.1 = .done → 0 < e.recv.bytes → r.2.complete

theorem leave_heard {r : Verdict × Reader} {e : Event} (announced : Announced s) (left : leave s = .ok r)
    (complete : 0 < e.recv.bytes → s.complete) : Heard e r := by
  obtain ⟨-, heap, same⟩ := leave_same left
  refine ⟨?_, fun _ => ?_⟩
  · rw [same]
    exact ⟨announced.header, announced.length⟩
  · rw [same]
    exact complete

theorem readRound_heard (inv : Buffered rawLimit others s) (limit : rawLimit < 2 ^ 31) (whole : s.hitLimit = false)
    (announced : Announced s) {e : Event} {r : Verdict × Reader} (returned : readRound rawLimit s e = .ok r)
    (kept : r.2.hitLimit = false) : Heard e r := by
  rw [readRound] at returned
  split at returned
  · rename_i closed
    exact leave_heard announced returned fun some_ => absurd closed (by rw [netEof]; omega)
  split at returned
  · rename_i failed
    rw [← Except.ok.inj returned]
    exact ⟨announced, fun done => (by cases done)⟩
  split at returned
  · rename_i zero
    have left : leave s = .ok r → Heard e r := fun left => leave_heard announced left fun some_ => absurd zero (by omega)
    split at returned
    · exact left returned
    split at returned
    · exact left returned
    split at returned
    · exact left returned
    rw [← Except.ok.inj returned]
    exact ⟨announced, fun done => (by cases done)⟩
  rename_i zero
  obtain ⟨s', taken, returned⟩ := bind_returns returned
  obtain ⟨s'', found, returned⟩ := bind_returns returned
  obtain ⟨_, taken', inv'⟩ := takeBytes_buffered inv limit (e := e) (by omega) whole
  rw [taken] at taken'
  cases taken'
  obtain ⟨hdrLen, clen, received⟩ := takeBytes_header taken
  obtain ⟨_, found', hdrLen', clen', same⟩ := findHeader_same inv'
  rw [found] at found'
  rw [← Except.ok.inj found'] at same
  have open_ : s'.hitLimit = false := by
    rw [← Bool.not_eq_true]
    intro hit
    have hit' : s''.hitLimit = true := by rw [same]; exact hit
    rw [if_pos hit'] at returned
    obtain ⟨-, heap, last⟩ := leave_same returned
    rw [last] at kept
    rw [hit'] at kept
    cases kept
  have open' : ¬ s''.hitLimit = true := by
    rw [same, Bool.not_eq_true]
    exact open_
  obtain ⟨_, found'', announced', -⟩ := findHeader_announced inv' open_ received (hdrLen.trans announced.header)
    (by rw [hdrLen, clen]; exact announced.length)
  rw [found] at found''
  rw [← Except.ok.inj found''] at announced'
  rw [if_neg open'] at returned
  split at returned
  · rename_i complete
    exact leave_heard announced' returned fun _ => complete
  · rw [← Except.ok.inj returned]
    exact ⟨announced', fun done => (by cases done)⟩

/-- While the loop goes on, nothing was discarded and the header is known. -/
structure Going (rawLimit : Int) (others : LiveBlocks) (s : Reader) : Prop where
  buffered : Buffered rawLimit others s
  whole : s.hitLimit = false
  announced : Announced s

theorem readLoop_going (limit : rawLimit < 2 ^ 31) {events : List Event} {s' : Reader} (going : Going rawLimit others s)
    (returned : readLoop rawLimit events s = .ok (.again, s')) : Going rawLimit others s' := by
  induction events generalizing s with
  | nil =>
    have same : s = s' := congrArg Prod.snd (Except.ok.inj returned)
    rwa [← same]
  | cons e events ih =>
    obtain ⟨⟨verdict, s₁⟩, round, returned⟩ := bind_returns returned
    dsimp only at returned
    obtain ⟨_, round', rounded⟩ := readRound_rounded going.buffered limit going.whole e
    rw [round] at round'
    rw [← Except.ok.inj round'] at rounded
    split at returned
    · rename_i again
      have whole : s₁.hitLimit = false := by
        rw [← Bool.not_eq_true]
        intro hit
        have done := rounded.stopped hit
        dsimp only at done
        rw [again] at done
        cases done
      have heard := readRound_heard going.buffered limit going.whole going.announced round whole
      exact ih ⟨rounded.buffered, whole, heard.announced⟩ returned
    · rename_i stopped
      exact absurd (congrArg Prod.fst (Except.ok.inj returned)) stopped

structure Stops (rawLimit : Int) (b : Buffer) (s' : Reader) : Prop where
  stop : ∃ startTick events s e, hReadResponse rawLimit b startTick events = .ok (.again, s) ∧ 0 < e.recv.bytes ∧
    readRound rawLimit s e = .ok (.done, s')
  kept : s'.hitLimit = false

theorem stops_iff {b : Buffer} (ready : Ready rawLimit b) (limit : rawLimit < 2 ^ 31) {s' : Reader} (stops : Stops rawLimit b s')
    {headerLen : Nat} (header : hFindHeaderEnd s'.received = headerLen) {digits : List UInt8}
    (announced : contentLengthDigits s'.received headerLen = some digits) :
    decimal digits ≤ s'.received.length - headerLen ↔ LengthFits (decimal digits) := by
  obtain ⟨startTick, events, s, e, before, some_, round⟩ := stops.stop
  have going := readLoop_going limit ⟨ready.buffered startTick, rfl, announced_start b startTick⟩ before
  have heard := readRound_heard going.buffered limit going.whole going.announced round stops.kept
  obtain ⟨_, round', rounded⟩ := readRound_rounded going.buffered limit going.whole e
  rw [round] at round'
  rw [← Except.ok.inj round'] at rounded
  have inv := rounded.buffered
  have low := decimal_nonneg (contentLengthDigits_decimals announced)
  have hdrLen : s'.hdrLen = headerLen := heard.announced.header.trans header
  have clen := heard.announced.length (by dsimp only; omega)
  dsimp only at clen
  rw [hdrLen, Int.toNat_natCast, hHeaderContentLength_eq header, announced] at clen
  dsimp only at clen
  obtain ⟨-, known, enough⟩ := heard.complete rfl some_
  rw [clen] at known enough
  have all : s'.total = (s'.received.length : Int) := by
    by_contra less
    have few := inv.few
    dsimp only at few
    have hit := inv.discarded (by dsimp only; omega)
    dsimp only at hit
    rw [stops.kept] at hit
    cases hit
  have inside := (hFindHeaderEnd_newline header).1
  have room := inv.room
  have most := inv.most
  dsimp only at room most
  rw [all, hdrLen, wrapInt_of_fits (by omega) (by omega)] at enough
  unfold LengthFits
  rcases wrapInt_cases (decimal digits) with ⟨small, same⟩ | ⟨large, negative⟩ <;> omega

/-- Ports, announced lengths and the end of a response are right exactly when the number does not wrap around to another one. -/
theorem numbers_fit (digits : List UInt8) :
    (∀ url, PortUrl url digits → (PortRead url digits ↔ PortFits (decimal digits))) ∧
      (∀ raw headerLen, hFindHeaderEnd raw = (headerLen : Nat) → contentLengthDigits raw headerLen = some digits →
        (hHeaderContentLength raw headerLen = decimal digits ∨ hHeaderContentLength raw headerLen < 0 ↔
          LengthFits (decimal digits))) ∧
      ∀ rawLimit b s' headerLen, Ready rawLimit b → rawLimit < 2 ^ 31 → Stops rawLimit b s' →
        hFindHeaderEnd s'.received = (headerLen : Nat) → contentLengthDigits s'.received headerLen = some digits →
        (decimal digits ≤ s'.received.length - headerLen ↔ LengthFits (decimal digits)) := by
  refine ⟨fun url good => portRead_iff good, ?_, ?_⟩
  · intro raw headerLen header announced
    rw [hHeaderContentLength_eq header, announced]
    exact length_known_iff (decimal_nonneg (contentLengthDigits_decimals announced))
  · intro rawLimit b s' headerLen ready limit stops header announced
    exact stops_iff ready limit stops header announced

theorem portUrl_plain (digits : List UInt8) (decimals : ∀ c ∈ digits, isDecimal c = true) : PortUrl (text "h:" ++ digits) digits := by
  refine ⟨decimals, false, text "h", [], ?_, by decide +kernel, by decide +kernel, by decide +kernel, fun c head => (by cases head), text "/", rfl⟩
  rw [List.append_nil]
  rfl

def okLine : List UInt8 := text "HTTP/1.1 200 OK" ++ [13, 10] ++ text "Content-Length: "

def responseOf (digits : List UInt8) : List UInt8 := okLine ++ digits ++ [13, 10, 13, 10]

def smallBuffer : Buffer := ⟨1, 64, LiveBlocks.allocate (fun _ => none) 1 64 fun _ => 0⟩

theorem smallBuffer_ready : Ready 64 smallBuffer := allocated_ready (by decide) (by decide) (by decide)

def emptyResponse : Event := ⟨⟨38, responseOf [48], by decide, by decide⟩, 0, none⟩

theorem emptyResponse_stops : ∃ s', Stops 64 smallBuffer s' ∧ s'.received = responseOf [48] := by
  have result : (readRound 64 (readStart smallBuffer 0) emptyResponse).map (fun r => (r.1, r.2.hitLimit, r.2.received)) =
      .ok (.done, false, responseOf [48]) := by decide +kernel
  cases round : readRound 64 (readStart smallBuffer 0) emptyResponse with
  | error fault =>
    rw [round] at result
    cases result
  | ok r =>
    rw [round] at result
    have same := Except.ok.inj result
    rw [Prod.mk.injEq, Prod.mk.injEq] at same
    obtain ⟨done, kept, received⟩ := same
    refine ⟨r.2, ⟨⟨0, [], readStart smallBuffer 0, emptyResponse, rfl, by decide, ?_⟩, kept⟩, received⟩
    rw [round, ← done]

theorem numbers_fit_small : (PortRead (text "h:80") (text "80") ↔ PortFits 80) ∧
    (hHeaderContentLength (responseOf [53]) 38 = 5 ∨ hHeaderContentLength (responseOf [53]) 38 < 0 ↔ LengthFits 5) ∧
      ∃ s', Stops 64 smallBuffer s' ∧ ((0 : Int) ≤ s'.received.length - (38 : Nat) ↔ LengthFits 0) := by
  obtain ⟨s', stops, received⟩ := emptyResponse_stops
  refine ⟨(numbers_fit (text "80")).1 (text "h:80") (portUrl_plain (text "80") (by decide +kernel)),
    (numbers_fit [53]).2.1 (responseOf [53]) 38 (by decide +kernel) (by decide +kernel), s', stops, ?_⟩
  exact (numbers_fit [48]).2.2 64 smallBuffer s' 38 smallBuffer_ready (by decide +kernel) stops (by rw [received]; decide +kernel)
    (by rw [received]; decide +kernel)

/-- The port 2^32 + 80 is taken for 80, and a length of 2^32 for 0. -/
theorem numbers_wrap : (¬ ∀ url digits, PortUrl url digits → PortRead url digits) ∧
    ¬ ∀ raw headerLen digits, hFindHeaderEnd raw = (headerLen : Nat) → contentLengthDigits raw headerLen = some digits →
      hHeaderContentLength raw headerLen = decimal digits ∨ hHeaderContentLength raw headerLen < 0 := by
  constructor
  · intro claim
    have good := portUrl_plain (text "4294967376") (by decide +kernel)
    exact absurd ((portRead_iff good).mp (claim _ _ good)) (by decide +kernel)
  · intro claim
    have known := claim (responseOf (text "4294967296")) 47 (text "4294967296") (by decide +kernel) (by decide +kernel)
    exact absurd known (by decide +kernel)

end RexOs.User.Http
