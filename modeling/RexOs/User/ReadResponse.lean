import RexOs.Library.Blocks
import RexOs.User.Headers

/-! Reading a response: `h_grow_raw` and `h_read_response` of `user/http.c`.

The buffer doubles up to a limit. What `hc_recv`, `get_ticks` and `malloc` give in each round
of the loop is an `Event`; the bytes that were received are kept for reference.
-/

set_option autoImplicit false

namespace RexOs.User.Http

open RexOs.Library

def httpRecvChunk : Nat := 2048
def httpIdleTimeoutTicks : UInt64 := 300
def httpTotalTimeoutTicks : UInt64 := 1000
def httpErrRecv : Int := -5
def netEof : Int := -2

/-- What `hc_recv` returns and what it has written to the chunk. -/
structure Recv where
  bytes : Int
  chunk : List UInt8
  most : bytes ≤ httpRecvChunk
  filled : (chunk.length : Int) = max bytes 0

structure Event where
  recv : Recv
  now : UInt64
  /-- the block of `malloc` with the bytes in it, unless there is none -/
  block : Option (Nat × (Nat → UInt8))

/-- The heap ends at 2^31, and at least one page of the program lies below it; a block has a header. -/
def mallocMax : Nat := 0x80000000 - 0x1000 - 24

/-- `malloc` may fail at any time; a block that it gives was not live. -/
def malloc (h : LiveBlocks) (size : Nat) (block : Option (Nat × (Nat → UInt8))) : Option (Nat × LiveBlocks) :=
  match block with
  | some (p, junk) => if size = 0 ∨ mallocMax < size ∨ p = 0 ∨ (h p).isSome then none else some (p, h.allocate p size junk)
  | none => none

def nextCap (rawLimit cap : Int) : Int :=
  let next := wrapInt (cap * 2)
  if next ≤ cap ∨ next > rawLimit then rawLimit else next

/-- `while (needed >= new_cap && new_cap < raw_limit)`. -/
def growCap (needed rawLimit : Int) : Nat → Int → Int
  | 0, cap => cap
  | fuel + 1, cap => if needed ≥ cap ∧ cap < rawLimit then growCap needed rawLimit fuel (nextCap rawLimit cap) else cap

structure Buffer where
  raw : Nat
  rawCap : Int
  heap : LiveBlocks

def hGrowRaw (b : Buffer) (needed rawLimit : Int) (block : Option (Nat × (Nat → UInt8))) : Except BlockFault (Bool × Buffer) :=
  if needed < b.rawCap then .ok (true, b)
  else
    let newCap := growCap needed rawLimit ((rawLimit - b.rawCap).toNat + 1) b.rawCap
    if needed ≥ newCap then .ok (false, b)
    else
      match malloc b.heap (newCap % 2 ^ 64).toNat block with
      | none => .ok (false, b)
      | some (grown, heap) => do
          let heap ← heap.memcpy grown b.raw (b.rawCap % 2 ^ 64).toNat >>= fun heap => heap.release b.raw
          .ok (true, ⟨grown, newCap, heap⟩)

/-- The variables of `h_read_response`; `rawIo` and `rawCapIo` are those of the caller. -/
structure Reader where
  total : Int
  hdrLen : Int
  clen : Int
  startTick : UInt64
  lastDataTick : UInt64
  buffer : Buffer
  rawIo : Nat
  rawCapIo : Int
  hitLimit : Bool
  /-- all bytes that `hc_recv` has given -/
  received : List UInt8

inductive Verdict where
  | again
  | done
  | failed (code : Int)
  deriving DecidableEq, Repr

/-- `for (int i = 0; i < bytes; i++) raw[total++] = chunk[i]`. -/
def appendLoop (raw : Nat) : List UInt8 → LiveBlocks → Int → Except BlockFault (LiveBlocks × Int)
  | [], heap, total => .ok (heap, total)
  | c :: rest, heap, total => do
      let heap ← heap.poke raw total c
      appendLoop raw rest heap (wrapInt (total + 1))

/-- `chunk[0]` to `chunk[bytes - 1]`. -/
def firstBytes (chunk : List UInt8) (bytes : Int) : Except BlockFault (List UInt8) :=
  if bytes ≤ chunk.length then .ok (chunk.take bytes.toNat) else .error .read

/-- Behind the loop the text is ended once more. -/
def leave (s : Reader) : Except BlockFault (Verdict × Reader) := do
  let heap ← s.buffer.heap.poke s.buffer.raw s.total 0
  .ok (.done, { s with buffer := { s.buffer with heap := heap } })

def Reader.complete (s : Reader) : Prop := s.hdrLen ≥ 0 ∧ s.clen ≥ 0 ∧ wrapInt (s.total - s.hdrLen) ≥ s.clen

instance (s : Reader) : Decidable s.complete :=
  inferInstanceAs (Decidable (s.hdrLen ≥ 0 ∧ s.clen ≥ 0 ∧ wrapInt (s.total - s.hdrLen) ≥ s.clen))

def findHeader (s : Reader) : Except BlockFault Reader :=
  if s.hdrLen < 0 then do
    let raw ← s.buffer.heap.peek s.buffer.raw s.total
    let hdrLen := hFindHeaderEnd raw
    .ok { s with hdrLen := hdrLen, clen := if hdrLen ≥ 0 then hHeaderContentLength raw hdrLen.toNat else s.clen }
  else .ok s

def takeBytes (rawLimit : Int) (s : Reader) (e : Event) : Except BlockFault Reader := do
  let (grown, buffer) ← hGrowRaw s.buffer (wrapInt (s.total + e.recv.bytes + 1)) rawLimit e.block
  let bytes := if grown then e.recv.bytes else max (wrapInt (buffer.rawCap - s.total - 1)) 0
  let taken ← firstBytes e.recv.chunk bytes
  let (heap, total) ← appendLoop buffer.raw taken buffer.heap s.total
  let heap ← heap.poke buffer.raw total 0
  .ok { s with
    total := total
    lastDataTick := e.now
    buffer := { buffer with heap := heap }
    rawIo := buffer.raw
    rawCapIo := buffer.rawCap
    hitLimit := s.hitLimit || !grown
    received := s.received ++ e.recv.chunk }

def readRound (rawLimit : Int) (s : Reader) (e : Event) : Except BlockFault (Verdict × Reader) :=
  if e.recv.bytes = netEof then leave s
  else if e.recv.bytes < 0 then .ok (.failed httpErrRecv, s)
  else if e.recv.bytes = 0 then
    if s.complete then leave s
    else if e.now - s.lastDataTick ≥ httpIdleTimeoutTicks then leave s
    else if e.now - s.startTick ≥ httpTotalTimeoutTicks then leave s
    else .ok (.again, s)
  else do
    let s ← takeBytes rawLimit s e
    let s ← findHeader s
    if s.hitLimit then leave s else if s.complete then leave s else .ok (.again, s)

def readLoop (rawLimit : Int) : List Event → Reader → Except BlockFault (Verdict × Reader)
  | [], s => .ok (.again, s)
  | e :: events, s => do
      let (verdict, s) ← readRound rawLimit s e
      if verdict = .again then readLoop rawLimit events s else .ok (verdict, s)

def readStart (buffer : Buffer) (startTick : UInt64) : Reader :=
  ⟨0, -1, -1, startTick, startTick, buffer, buffer.raw, buffer.rawCap, false, []⟩

def hReadResponse (rawLimit : Int) (buffer : Buffer) (startTick : UInt64) (events : List Event) : Except BlockFault (Verdict × Reader) :=
  readLoop rawLimit events (readStart buffer startTick)

/-! `Buffered` is kept by every round of the loop. The lengths are below 2^31 because no block of
`malloc` is that large, whatever the limit.
-/

variable {rawLimit : Int} {others : LiveBlocks}

theorem mallocMax_eq : mallocMax = 2147479528 := rfl

theorem malloc_some {h heap : LiveBlocks} {size p : Nat} {block : Option (Nat × (Nat → UInt8))} (given : malloc h size block = some (p, heap)) :
    size ≤ mallocMax ∧ h p = none ∧ ∃ junk, heap = h.allocate p size junk := by
  unfold malloc at given
  split at given
  · split at given
    · cases given
    · rename_i q junk fails
      have same := Option.some.inj given
      rw [Prod.mk.injEq] at same
      obtain ⟨rfl, rfl⟩ := same
      have large : ¬ mallocMax < size := fun large => fails (.inr (.inl large))
      have dead : ¬ (h q).isSome := fun live => fails (.inr (.inr (.inr live)))
      exact ⟨by omega, Option.not_isSome_iff_eq_none.mp dead, junk, rfl⟩
  · cases given

theorem nextCap_grows {cap : Int} (room : cap < rawLimit) : cap < nextCap rawLimit cap ∧ nextCap rawLimit cap ≤ rawLimit := by
  rw [nextCap]
  split <;> omega

theorem growCap_ends (needed : Int) {cap : Int} (fuel : Nat) (most : cap ≤ rawLimit) (enough : (rawLimit - cap).toNat < fuel) :
    cap ≤ growCap needed rawLimit fuel cap ∧ growCap needed rawLimit fuel cap ≤ rawLimit ∧
      (needed < growCap needed rawLimit fuel cap ∨ growCap needed rawLimit fuel cap = rawLimit) := by
  induction fuel generalizing cap with
  | zero => exact absurd enough (Nat.not_lt_zero _)
  | succ fuel ih =>
    rw [growCap]
    split
    · rename_i small
      obtain ⟨larger, still⟩ := nextCap_grows small.2
      have rest := ih still (by omega)
      exact ⟨by omega, rest.2⟩
    · exact ⟨Int.le_refl _, most, by omega⟩

structure Owns (others : LiveBlocks) (b : Buffer) (block : List UInt8) : Prop where
  has : Has others b.raw block b.heap
  own : others b.raw = none
  cap : (block.length : Int) = b.rawCap

/-- What `h_grow_raw` makes of a buffer with the bytes `bytes`. -/
structure Grown (others : LiveBlocks) (rawLimit needed : Int) (b : Buffer) (bytes : List UInt8) (r : Bool × Buffer) : Prop where
  owns : ∃ tail, Owns others r.2 (bytes ++ tail)
  most : r.2.rawCap ≤ rawLimit
  malloced : r.2.rawCap ≤ mallocMax
  room : r.1 = true → needed < r.2.rawCap
  refused : r.1 = false → r.2 = b ∧ b.rawCap ≤ needed

theorem hGrowRaw_grown {b : Buffer} {bytes : List UInt8} (owns : Owns others b bytes) (needed : Int)
    (most : b.rawCap ≤ rawLimit) (limit : rawLimit < 2 ^ 31) (malloced : b.rawCap ≤ mallocMax) (block : Option (Nat × (Nat → UInt8))) :
    Safe (hGrowRaw b needed rawLimit block) (Grown others rawLimit needed b bytes) := by
  have same : ∃ tail, Owns others b (bytes ++ tail) := ⟨[], by rwa [List.append_nil]⟩
  unfold hGrowRaw
  dsimp only
  apply Safe.ite
  · intro room
    exact Safe.ok ⟨same, most, malloced, fun _ => room, fun fails => absurd fails.symm Bool.false_ne_true⟩
  intro small
  have refused : Safe (.ok (false, b) : Except BlockFault (Bool × Buffer)) (Grown others rawLimit needed b bytes) :=
    Safe.ok ⟨same, most, malloced, fun grown => absurd grown Bool.false_ne_true, fun _ => ⟨rfl, by omega⟩⟩
  obtain ⟨larger, still, -⟩ := growCap_ends needed ((rawLimit - b.rawCap).toNat + 1) most (by omega)
  generalize growCap needed rawLimit ((rawLimit - b.rawCap).toNat + 1) b.rawCap = newCap at larger still
  have length := owns.cap
  have size : (newCap % 2 ^ 64).toNat = newCap.toNat := by rw [Int.emod_eq_of_lt (by omega) (by omega)]
  have copied : (b.rawCap % 2 ^ 64).toNat = bytes.length := by
    rw [Int.emod_eq_of_lt (by omega) (by omega), ← length]
    rfl
  apply Safe.ite
  · exact fun _ => refused
  intro room
  cases given : malloc b.heap (newCap % 2 ^ 64).toNat block with
  | none => exact refused
  | some new =>
    rcases new with ⟨grown, heap⟩
    dsimp only
    obtain ⟨fits, fresh, junk, rfl⟩ := malloc_some given
    rw [size] at fits ⊢
    rw [copied]
    have apart : grown ≠ b.raw := by
      rintro rfl
      rw [owns.has.here] at fresh
      cases fresh
    have unowned : others grown = none := by rw [← owns.has.others grown apart, fresh]
    have kept : Function.update others b.raw none = others := by rw [← owns.own, Function.update_eq_self]
    apply Safe.bind (owns.has.move fresh newCap.toNat (by omega) junk)
    rintro heap ⟨-, tail, length', has⟩
    rw [kept] at has
    have whole : Owns others ⟨grown, newCap, heap⟩ (bytes ++ tail) := ⟨has, unowned, by dsimp only; omega⟩
    exact Safe.ok ⟨⟨tail, whole⟩, still, by dsimp only; omega, fun _ => by dsimp only; omega, fun fails => absurd fails.symm Bool.false_ne_true⟩

theorem appendLoop_has {raw : Nat} {l block : List UInt8} {heap : LiveBlocks} {n : Nat} (has : Has others raw block heap)
    (room : n + l.length < block.length) (small : block.length < 2 ^ 31) :
    Safe (appendLoop raw l heap n) fun r => r.2 = ((n + l.length : Nat) : Int) ∧ ∃ block', Has others raw block' r.1 ∧
      block'.length = block.length ∧ block'.take (n + l.length) = block.take n ++ l := by
  induction l generalizing n block heap with
  | nil => exact Safe.ok ⟨rfl, block, has, rfl, (List.append_nil _).symm⟩
  | cons c rest ih =>
    rw [List.length_cons] at room ⊢
    apply Safe.bind (has.poke (i := n) (by omega) c)
    intro heap has
    have next : wrapInt ((n : Int) + 1) = ((n + 1 : Nat) : Int) := by
      rw [wrapInt_of_fits (by omega) (by omega)]
      rfl
    rw [next]
    apply (ih has (by rw [List.length_set]; omega) (by rw [List.length_set]; exact small)).mono
    rintro ⟨heap, total⟩ ⟨rfl, block', has, length, front⟩
    have count : n + 1 + rest.length = n + (rest.length + 1) := by omega
    rw [count] at front
    refine ⟨by rw [count], block', has, by rw [length, List.length_set], ?_⟩
    rw [front, List.take_add_one, List.getElem?_set_self (by omega), List.take_set_of_le (Nat.le_refl n), List.append_assoc]
    rfl

/-- What holds of the variables between two rounds, and when the loop is left. -/
structure Buffered (rawLimit : Int) (others : LiveBlocks) (s : Reader) : Prop where
  low : 0 ≤ s.total
  room : s.total < s.buffer.rawCap
  most : s.buffer.rawCap ≤ rawLimit
  malloced : s.buffer.rawCap ≤ mallocMax
  contents : ∃ block, Owns others s.buffer block ∧ block.take s.total.toNat = s.received.take s.total.toNat
  caller : s.rawIo = s.buffer.raw ∧ s.rawCapIo = s.buffer.rawCap
  few : s.total ≤ s.received.length
  discarded : s.total < s.received.length → s.hitLimit = true

theorem firstBytes_ok (chunk : List UInt8) {bytes : Int} (low : 0 ≤ bytes) (few : bytes ≤ chunk.length) :
    Safe (firstBytes chunk bytes) fun l => l = chunk.take bytes.toNat ∧ (l.length : Int) = bytes := by
  rw [firstBytes, if_pos few]
  refine Safe.ok ⟨rfl, ?_⟩
  rw [List.length_take]
  omega

theorem room_for {s : Reader} {bytes : List UInt8} {needed : Int} {grown : Bool} {buffer : Buffer}
    (r : Grown others rawLimit (s.total + needed + 1) s.buffer bytes (grown, buffer)) (low : 0 ≤ s.total)
    (room : s.total < s.buffer.rawCap) (malloced : s.buffer.rawCap ≤ mallocMax) (positive : 0 < needed) :
    ∃ count, (if grown then needed else max (wrapInt (buffer.rawCap - s.total - 1)) 0) = count ∧ 0 ≤ count ∧
      count ≤ needed ∧ s.total + count < buffer.rawCap ∧ (grown = true → count = needed) := by
  have top := mallocMax_eq
  cases grown with
  | true =>
    have enough : s.total + needed + 1 < buffer.rawCap := r.room rfl
    exact ⟨needed, rfl, by omega, Int.le_refl _, by omega, fun _ => rfl⟩
  | false =>
    obtain ⟨same, full⟩ := r.refused rfl
    dsimp only at same
    rw [same, wrapInt_of_fits (by omega) (by omega)]
    exact ⟨s.buffer.rawCap - s.total - 1, max_eq_left (by omega), by omega, by omega, by omega,
      fun grown => absurd grown Bool.false_ne_true⟩

theorem takeBytes_buffered {s : Reader} (inv : Buffered rawLimit others s) (limit : rawLimit < 2 ^ 31) {e : Event}
    (some_ : 0 < e.recv.bytes) (whole : s.hitLimit = false) : Safe (takeBytes rawLimit s e) (Buffered rawLimit others) := by
  obtain ⟨bytes, owns, front⟩ := inv.contents
  have low := inv.low
  have room := inv.room
  have malloced := inv.malloced
  have short := e.recv.most
  have filled := e.recv.filled
  have top := mallocMax_eq
  simp only [httpRecvChunk] at short
  -- nothing was discarded before, so all of what was received is in the buffer
  have all : s.total = (s.received.length : Int) := by
    by_contra less
    have few := inv.few
    have hit := inv.discarded (by omega)
    rw [whole] at hit
    cases hit
  have needed : wrapInt (s.total + e.recv.bytes + 1) = s.total + e.recv.bytes + 1 := wrapInt_of_fits (by omega) (by omega)
  rw [takeBytes, needed]
  apply Safe.bind (hGrowRaw_grown owns _ inv.most limit malloced e.block)
  rintro ⟨grown, buffer⟩ r
  obtain ⟨tail, owns'⟩ := r.owns
  have malloced' : buffer.rawCap ≤ mallocMax := r.malloced
  have cap := owns.cap
  have cap' := owns'.cap
  obtain ⟨count, counted, count_low, count_high, inside, every⟩ := room_for r low room malloced some_
  dsimp only at cap' ⊢
  rw [counted]
  apply Safe.bind (firstBytes_ok e.recv.chunk count_low (by omega))
  rintro taken ⟨rfl, length⟩
  rw [all] at inside ⊢
  apply Safe.bind (appendLoop_has owns'.has (n := s.received.length) (l := e.recv.chunk.take count.toNat) (by omega) (by omega))
  rintro ⟨heap, total⟩ ⟨rfl, block, has, same, contents⟩
  dsimp only at has ⊢
  apply Safe.bind (has.poke (i := s.received.length + (e.recv.chunk.take count.toNat).length) (by omega) 0)
  intro heap has
  generalize room_at : s.received.length + (e.recv.chunk.take count.toNat).length = place at has contents same
  have ended : (block.set place 0).length = block.length := List.length_set ..
  have taken : (e.recv.chunk.take count.toNat).length = count.toNat := by omega
  refine Safe.ok ⟨Int.natCast_nonneg _, ?_, r.most, malloced', ?_, ⟨rfl, rfl⟩, ?_, ?_⟩
  · show ((place : Nat) : Int) < buffer.rawCap
    omega
  · refine ⟨block.set place 0, ⟨has, owns'.own, by rw [ended, same]; exact cap'⟩, ?_⟩
    show (block.set place 0).take place = (s.received ++ e.recv.chunk).take place
    have before : (bytes ++ tail).take s.received.length = s.received := by
      rw [List.take_append_of_le_length (by omega)]
      rw [all, Int.toNat_natCast, List.take_length] at front
      exact front
    rw [List.take_set_of_le (Nat.le_refl _), contents, before, ← room_at, taken, List.take_length_add_append]
  · show ((place : Nat) : Int) ≤ (s.received ++ e.recv.chunk).length
    rw [List.length_append]
    omega
  · intro discarded
    have some_left : (place : Int) < (s.received ++ e.recv.chunk).length := discarded
    rw [List.length_append] at some_left
    cases grown with
    | true =>
      have every := every rfl
      omega
    | false => exact Bool.or_true _

theorem findHeader_same {s : Reader} (inv : Buffered rawLimit others s) :
    Safe (findHeader s) fun s' => ∃ hdrLen clen, s' = { s with hdrLen := hdrLen, clen := clen } := by
  obtain ⟨block, owns, -⟩ := inv.contents
  have low := inv.low
  have room := inv.room
  have cap := owns.cap
  have read := owns.has.peek (n := s.total.toNat) (by omega)
  rw [Int.toNat_of_nonneg low] at read
  unfold findHeader
  apply Safe.ite
  · intro _
    rw [read]
    exact Safe.ok ⟨_, _, rfl⟩
  · exact fun _ => Safe.ok ⟨_, _, rfl⟩

theorem Buffered.header {s : Reader} (inv : Buffered rawLimit others s) (hdrLen clen : Int) :
    Buffered rawLimit others { s with hdrLen := hdrLen, clen := clen } :=
  ⟨inv.low, inv.room, inv.most, inv.malloced, inv.contents, inv.caller, inv.few, inv.discarded⟩

/-- A round of the loop: what it leaves behind, and the ended text when the loop is over. -/
structure Rounded (rawLimit : Int) (others : LiveBlocks) (r : Verdict × Reader) : Prop where
  buffered : Buffered rawLimit others r.2
  ended : r.1 = .done → ∃ block, Owns others r.2.buffer block ∧ block[r.2.total.toNat]? = some 0
  stopped : r.2.hitLimit = true → r.1 = .done

theorem leave_rounded {s : Reader} (inv : Buffered rawLimit others s) : Safe (leave s) (Rounded rawLimit others) := by
  obtain ⟨block, owns, front⟩ := inv.contents
  have low := inv.low
  have room := inv.room
  have cap := owns.cap
  obtain ⟨heap, poked, has⟩ := owns.has.poke (i := s.total.toNat) (by omega) 0
  rw [Int.toNat_of_nonneg low] at poked
  have owns' : Owns others { s.buffer with heap := heap } (block.set s.total.toNat 0) :=
    ⟨has, owns.own, by rw [List.length_set]; exact cap⟩
  rw [leave, poked]
  refine Safe.ok ⟨⟨low, room, inv.most, inv.malloced, ⟨_, owns', ?_⟩, inv.caller, inv.few, inv.discarded⟩, ?_, fun _ => rfl⟩
  · rw [List.take_set_of_le (Nat.le_refl _)]
    exact front
  · exact fun _ => ⟨_, owns', List.getElem?_set_self (by omega)⟩

theorem readRound_rounded {s : Reader} (inv : Buffered rawLimit others s) (limit : rawLimit < 2 ^ 31) (whole : s.hitLimit = false)
    (e : Event) : Safe (readRound rawLimit s e) (Rounded rawLimit others) := by
  have again : Rounded rawLimit others (.again, s) := by
    refine ⟨inv, fun ends => (by cases ends), fun hit => ?_⟩
    rw [whole] at hit
    cases hit
  have failed : Rounded rawLimit others (.failed httpErrRecv, s) := by
    refine ⟨inv, fun ends => (by cases ends), fun hit => ?_⟩
    rw [whole] at hit
    cases hit
  unfold readRound
  apply Safe.ite
  · exact fun _ => leave_rounded inv
  intro _
  apply Safe.ite
  · exact fun _ => Safe.ok failed
  intro low
  apply Safe.ite
  · intro _
    apply Safe.ite (fun _ => leave_rounded inv)
    intro _
    apply Safe.ite (fun _ => leave_rounded inv)
    intro _
    exact Safe.ite (fun _ => leave_rounded inv) fun _ => Safe.ok again
  intro zero
  apply Safe.bind (takeBytes_buffered inv limit (e := e) (by omega) whole)
  intro s' inv'
  apply Safe.bind (findHeader_same inv')
  rintro s'' ⟨hdrLen, clen, rfl⟩
  have inv'' := inv'.header hdrLen clen
  apply Safe.ite (fun _ => leave_rounded inv'')
  intro open_
  apply Safe.ite (fun _ => leave_rounded inv'')
  intro _
  exact Safe.ok ⟨inv'', fun ends => (by cases ends), fun hit => absurd hit open_⟩

theorem readLoop_rounded {s : Reader} (inv : Buffered rawLimit others s) (limit : rawLimit < 2 ^ 31) (whole : s.hitLimit = false)
    (events : List Event) : Safe (readLoop rawLimit events s) (Rounded rawLimit others) := by
  induction events generalizing s with
  | nil =>
    refine Safe.ok ⟨inv, fun ends => (by cases ends), fun hit => ?_⟩
    rw [whole] at hit
    cases hit
  | cons e events ih =>
    apply Safe.bind (readRound_rounded inv limit whole e)
    rintro ⟨verdict, s'⟩ rounded
    apply Safe.ite
    · rintro rfl
      apply ih rounded.buffered
      rw [← Bool.not_eq_true]
      exact fun hit => by cases rounded.stopped hit
    · exact fun _ => Safe.ok rounded

/-- The buffer that the caller has set up: a block of `malloc`. -/
structure Ready (rawLimit : Int) (b : Buffer) : Prop where
  block : ∃ block, b.heap b.raw = some block ∧ (block.length : Int) = b.rawCap
  some_ : 0 < b.rawCap
  most : b.rawCap ≤ rawLimit
  malloced : b.rawCap ≤ mallocMax

theorem Ready.buffered {b : Buffer} (ready : Ready rawLimit b) (tick : UInt64) :
    Buffered rawLimit (Function.update b.heap b.raw none) (readStart b tick) := by
  obtain ⟨block, live, cap⟩ := ready.block
  have has : Has (Function.update b.heap b.raw none) b.raw block b.heap :=
    ⟨live, fun q other => (Function.update_of_ne other none b.heap).symm⟩
  exact ⟨Int.le_refl 0, ready.some_, ready.most, ready.malloced, ⟨block, ⟨has, Function.update_self .., cap⟩, rfl⟩, ⟨rfl, rfl⟩,
    Int.le_refl 0, fun less => absurd less (Int.lt_irrefl 0)⟩

/-- The loop never leaves the buffer, and the buffer holds what was received. -/
theorem response_buffered {b : Buffer} (ready : Ready rawLimit b) (limit : rawLimit < 2 ^ 31) (startTick : UInt64)
    (events : List Event) :
    ∃ verdict s, hReadResponse rawLimit b startTick events = .ok (verdict, s) ∧
      Rounded rawLimit (Function.update b.heap b.raw none) (verdict, s) := by
  obtain ⟨⟨verdict, s⟩, returned, rounded⟩ := readLoop_rounded (ready.buffered startTick) limit rfl events
  exact ⟨verdict, s, returned, rounded⟩

theorem allocated_ready {cap : Nat} (some_ : 0 < cap) (most : (cap : Int) ≤ rawLimit) (malloced : (cap : Int) ≤ mallocMax) :
    Ready rawLimit ⟨1, cap, LiveBlocks.allocate (fun _ => none) 1 cap fun _ => 0⟩ := by
  refine ⟨⟨_, LiveBlocks.allocate_here (fun _ => none) 1 cap fun _ => 0, ?_⟩, Int.natCast_pos.mpr some_, most, malloced⟩
  rw [List.length_map, List.length_range]

def firstBuffer : Buffer := ⟨1, 4096, LiveBlocks.allocate (fun _ => none) 1 4096 fun _ => 0⟩

theorem firstBuffer_ready : Ready 8193 firstBuffer := allocated_ready (by decide) (by decide) (by decide)

/-- Two bytes and the end of the connection. -/
theorem response_buffered_hi : ∃ verdict s,
    hReadResponse 8193 firstBuffer 0 [⟨⟨2, [104, 105], by decide, by decide⟩, 1, none⟩, ⟨⟨-2, [], by decide, by decide⟩, 2, none⟩] =
        .ok (verdict, s) ∧
      Rounded 8193 (Function.update firstBuffer.heap 1 none) (verdict, s) :=
  response_buffered firstBuffer_ready (by decide) 0 _

end RexOs.User.Http
