import RexOs.Library.Feed
import RexOs.NetSurf.FetchProcess

/-! What the rounds of the inner loop come to.

`Decoder.feed` takes one byte at a time. A round takes several, and a body comes in any pieces, but
the decoder always stands where feeding the bytes one by one would have brought it.
-/

set_option autoImplicit false

namespace RexOs.NetSurf

open RexOs.Library

namespace Decoder
variable (d : Decoder)

def isOver : Bool := d.done || (!d.chunked && decide (0 ≤ d.contentLength) && decide (d.contentLength ≤ d.bodyReceived))

def advance (n : Nat) : Decoder :=
  { d with
    bodyReceived := d.bodyReceived + n
    done := decide (0 ≤ d.contentLength ∧ d.bodyReceived + n ≥ d.contentLength) }

def inChunk (n : Nat) : Decoder :=
  { d with chunkRemaining := if d.chunkRemaining - n = 0 then -2 else d.chunkRemaining - n }

def feed (c : UInt8) : Decoder :=
  if d.chunked = false then d.advance 1 else if d.chunkRemaining > 0 then d.inChunk 1 else d.lineByte c

def payload (c : UInt8) : List UInt8 := if d.chunked = false ∨ d.chunkRemaining > 0 then [c] else []

end Decoder

def decode : Decoder → List UInt8 → Fed Decoder UInt8 UInt8 := feedUntil Decoder.feed Decoder.payload Decoder.isOver

def Framing.decoder (fr : Framing) : Decoder := ⟨fr.chunked, fr.contentLength, -1, [], 0, false⟩

variable {d : Decoder}

theorem over_plain (plain : d.chunked = false) (going : d.done = false) :
    d.isOver = true ↔ 0 ≤ d.contentLength ∧ d.contentLength ≤ d.bodyReceived := by
  simp [Decoder.isOver, plain, going]

theorem over_chunked (chunked : d.chunked = true) : d.isOver = d.done := by
  simp [Decoder.isOver, chunked]

theorem advance_over (plain : d.chunked = false) (n : Nat) : (d.advance n).isOver = (d.advance n).done := by
  simp only [Decoder.isOver, Decoder.advance, plain, Bool.not_false, Bool.true_and, ge_iff_le, Bool.decide_and, Bool.or_self]

theorem decode_cons (going : d.isOver = false) (c : UInt8) (xs : List UInt8) :
    decode d (c :: xs) = ⟨(decode (d.feed c) xs).state, d.payload c ++ (decode (d.feed c) xs).out, (decode (d.feed c) xs).rest⟩ :=
  feedUntil_cons going c xs

theorem lineByte_framing (c : UInt8) : (d.lineByte c).chunked = d.chunked ∧ (d.lineByte c).contentLength = d.contentLength := by
  unfold Decoder.lineByte
  dsimp only
  split
  · exact ⟨rfl, rfl⟩
  split
  · split <;> exact ⟨rfl, rfl⟩
  split <;> exact ⟨rfl, rfl⟩

theorem feed_noticed (c : UInt8) : (d.feed c).isOver = (d.feed c).done := by
  unfold Decoder.feed
  split
  · rename_i plain
    exact advance_over plain 1
  rename_i chunked
  rw [Bool.not_eq_false] at chunked
  split
  · exact over_chunked chunked
  · exact over_chunked ((lineByte_framing c).1.trans chunked)

theorem feed_framing (c : UInt8) : (d.feed c).chunked = d.chunked ∧ (d.feed c).contentLength = d.contentLength := by
  unfold Decoder.feed
  split
  · exact ⟨rfl, rfl⟩
  split
  · exact ⟨rfl, rfl⟩
  · exact lineByte_framing c

theorem decode_invariant (Inv : Decoder → Prop) (kept : ∀ s c, s.isOver = false → Inv s → Inv (s.feed c)) (initial : Inv d)
    (xs : List UInt8) : Inv (decode d xs).state := feedUntil_invariant Inv kept initial xs

theorem decode_framing (d : Decoder) (xs : List UInt8) :
    (decode d xs).state.chunked = d.chunked ∧ (decode d xs).state.contentLength = d.contentLength := by
  apply decode_invariant (fun s => s.chunked = d.chunked ∧ s.contentLength = d.contentLength) _ ⟨rfl, rfl⟩
  rintro s c _ ⟨chunked, length⟩
  obtain ⟨chunked', length'⟩ := feed_framing (d := s) c
  exact ⟨chunked'.trans chunked, length'.trans length⟩

theorem decode_noticed (open_ : d.isOver = d.done) (xs : List UInt8) : (decode d xs).state.isOver = (decode d xs).state.done := by
  apply decode_invariant (fun s => s.isOver = s.done) _ open_
  intro s c _ _
  exact feed_noticed c

theorem decode_counts (plain : d.chunked = false) (xs : List UInt8) :
    (decode d xs).state.bodyReceived + (decode d xs).rest.length = d.bodyReceived + xs.length := by
  induction xs generalizing d with
  | nil => rfl
  | cons x xs ih =>
    cases going : d.isOver with
    | true =>
      have fed : decode d (x :: xs) = ⟨d, [], x :: xs⟩ := feedUntil_over going _
      rw [fed]
    | false =>
      have feed : d.feed x = d.advance 1 := if_pos plain
      rw [decode_cons going, feed]
      have later := ih (d := d.advance 1) plain
      simp only [Decoder.advance, List.length_cons] at later ⊢
      omega

theorem decode_reached (plain : d.chunked = false) (open_ : d.done = false) (xs : List UInt8)
    (complete : (decode d xs).state.isOver = true) :
    0 ≤ d.contentLength ∧ d.contentLength ≤ (decode d xs).state.bodyReceived := by
  obtain ⟨chunked, length⟩ := decode_framing d xs
  have reached : (decode d xs).state.done = true →
      0 ≤ (decode d xs).state.contentLength ∧ (decode d xs).state.contentLength ≤ (decode d xs).state.bodyReceived := by
    apply And.right
    apply decode_invariant (fun s => s.chunked = false ∧ (s.done = true → 0 ≤ s.contentLength ∧ s.contentLength ≤ s.bodyReceived))
    · rintro s c _ ⟨plain, _⟩
      have feed : s.feed c = s.advance 1 := if_pos plain
      rw [feed]
      exact ⟨plain, fun done => of_decide_eq_true done⟩
    · exact ⟨plain, fun done => absurd (open_.symm.trans done) Bool.false_ne_true⟩
  rw [← length]
  cases done : (decode d xs).state.done with
  | true => exact reached done
  | false => exact (over_plain (chunked.trans plain) done).mp complete

theorem decode_advance (xs : List UInt8) (plain : d.chunked = false) (going : d.isOver = false) (some_ : xs ≠ [])
    (fits : 0 ≤ d.contentLength → d.bodyReceived + xs.length ≤ d.contentLength) (ys : List UInt8) :
    decode d (xs ++ ys) = ⟨(decode (d.advance xs.length) ys).state, xs ++ (decode (d.advance xs.length) ys).out,
      (decode (d.advance xs.length) ys).rest⟩ := by
  induction xs generalizing d with
  | nil => exact absurd rfl some_
  | cons x xs ih =>
    have feed : d.feed x = d.advance 1 := if_pos plain
    have payload : d.payload x = [x] := if_pos (Or.inl plain)
    rw [List.cons_append, decode_cons going, feed, payload]
    cases xs with
    | nil => rfl
    | cons y xs =>
      have more : (d.advance 1).isOver = false := by
        rw [advance_over plain]
        apply decide_eq_false
        rintro ⟨framed, enough⟩
        have bound := fits framed
        simp only [List.length_cons] at bound
        omega
      have joined : (d.advance 1).advance (y :: xs).length = d.advance (x :: y :: xs).length := by
        simp only [Decoder.advance, List.length_cons, Decoder.mk.injEq, true_and]
        constructor
        · omega
        · apply decide_eq_decide.mpr
          omega
      have rest := ih (d := d.advance 1) plain more (by exact nofun) (by
        intro framed
        have bound := fits framed
        simp only [Decoder.advance, List.length_cons] at bound ⊢
        omega)
      rw [rest, joined]
      rfl

theorem decode_inChunk (xs : List UInt8) (chunked : d.chunked = true) (going : d.done = false) (some_ : xs ≠ [])
    (fits : (xs.length : Int) ≤ d.chunkRemaining) (ys : List UInt8) :
    decode d (xs ++ ys) = ⟨(decode (d.inChunk xs.length) ys).state, xs ++ (decode (d.inChunk xs.length) ys).out,
      (decode (d.inChunk xs.length) ys).rest⟩ := by
  induction xs generalizing d with
  | nil => exact absurd rfl some_
  | cons x xs ih =>
    have positive : d.chunkRemaining > 0 := by
      simp only [List.length_cons] at fits
      omega
    have feed : d.feed x = d.inChunk 1 := by
      rw [Decoder.feed, chunked, if_neg Bool.noConfusion, if_pos positive]
    have payload : d.payload x = [x] := if_pos (Or.inr positive)
    have open_ : d.isOver = false := (over_chunked chunked).trans going
    rw [List.cons_append, decode_cons open_, feed, payload]
    cases xs with
    | nil => rfl
    | cons y xs =>
      simp only [List.length_cons] at fits
      have remaining : (d.inChunk 1).chunkRemaining = d.chunkRemaining - 1 := by
        simp only [Decoder.inChunk]
        rw [if_neg (by omega)]
        rfl
      have joined : (d.inChunk 1).inChunk (y :: xs).length = d.inChunk (x :: y :: xs).length := by
        have same : d.chunkRemaining - 1 - ((y :: xs).length : Int) = d.chunkRemaining - ((x :: y :: xs).length : Int) := by
          simp only [List.length_cons]
          omega
        unfold Decoder.inChunk at remaining ⊢
        simp only at remaining
        simp only [remaining, same]
      have rest := ih (d := d.inChunk 1) chunked going (by exact nofun) (by
        rw [remaining]
        simp only [List.length_cons]
        omega)
      rw [rest, joined]
      rfl

theorem take_length {xs : List UInt8} {n : Nat} (fits : n ≤ xs.length) : (xs.take n).length = n := by
  rw [List.length_take, Nat.min_eq_left fits]

theorem round_decode {pending : List UInt8} (going : d.isOver = false) (some_ : pending ≠ []) :
    decode d pending = ⟨(decode (round d pending).dec (round d pending).rest).state,
      (round d pending).bytes ++ (decode (round d pending).dec (round d pending).rest).out,
      (decode (round d pending).dec (round d pending).rest).rest⟩ := by
  have length : 0 < pending.length := List.length_pos_iff.mpr some_
  unfold round
  split
  · rename_i plain
    have done : d.done = false := (Bool.or_eq_false_iff.mp going).1
    have short : ¬ (0 ≤ d.contentLength ∧ d.contentLength ≤ d.bodyReceived) := by
      rw [← over_plain plain done, going]
      exact Bool.false_ne_true
    dsimp only
    generalize cut : (if 0 ≤ d.contentLength ∧ (pending.length : Int) > d.contentLength - d.bodyReceived
      then (d.contentLength - d.bodyReceived).toNat else pending.length) = n
    have bounds : 0 < n ∧ n ≤ pending.length ∧ (0 ≤ d.contentLength → d.bodyReceived + n ≤ d.contentLength) := by
      rw [← cut]
      split <;> omega
    have taken := take_length bounds.2.1
    have whole := decode_advance (pending.take n) plain going (List.ne_nil_of_length_pos (by omega))
      (fun framed => by rw [taken]; exact bounds.2.2 framed) (pending.drop n)
    rw [List.take_append_drop, taken] at whole
    exact whole
  split
  · rename_i chunked positive
    rw [Bool.not_eq_false] at chunked
    have done : d.done = false := (over_chunked chunked).symm.trans going
    dsimp only
    generalize cut : (if (pending.length : Int) > d.chunkRemaining then d.chunkRemaining.toNat else pending.length) = n
    have bounds : 0 < n ∧ n ≤ pending.length ∧ (n : Int) ≤ d.chunkRemaining := by
      rw [← cut]
      split <;> omega
    have taken := take_length bounds.2.1
    have whole := decode_inChunk (pending.take n) chunked done (List.ne_nil_of_length_pos (by omega))
      (by rw [taken]; exact bounds.2.2) (pending.drop n)
    rw [List.take_append_drop, taken] at whole
    exact whole
  · rename_i chunked nonPositive
    cases pending with
    | nil => exact absurd rfl some_
    | cons ch rest =>
      have feed : d.feed ch = d.lineByte ch := by
        rw [Decoder.feed, if_neg chunked, if_neg nonPositive]
      have payload : d.payload ch = [] := by
        rw [Decoder.payload, if_neg]
        rintro (plain | positive)
        · exact chunked plain
        · exact nonPositive positive
      rw [decode_cons going, feed, payload]

theorem round_shorter {pending : List UInt8} (going : d.isOver = false) (some_ : pending ≠ []) :
    (round d pending).rest.length < pending.length := by
  have length : 0 < pending.length := List.length_pos_iff.mpr some_
  unfold round
  split
  · rename_i plain
    have done : d.done = false := (Bool.or_eq_false_iff.mp going).1
    have short : ¬ (0 ≤ d.contentLength ∧ d.contentLength ≤ d.bodyReceived) := by
      rw [← over_plain plain done, going]
      exact Bool.false_ne_true
    dsimp only
    rw [List.length_drop]
    split <;> omega
  split
  · dsimp only
    rw [List.length_drop]
    split <;> omega
  · cases pending with
    | nil => exact absurd rfl some_
    | cons ch rest => exact Nat.lt_succ_self _

theorem round_full {pending : List UInt8} (full : d.isOver = true) (going : d.done = false) (some_ : pending ≠ []) :
    round d pending = ⟨[], pending, { d with done := true }, false⟩ := by
  have length : 0 < pending.length := List.length_pos_iff.mpr some_
  have plain : d.chunked = false := by
    apply Bool.eq_false_iff.mpr
    intro chunked
    rw [over_chunked chunked, going] at full
    cases full
  obtain ⟨framed, reached⟩ := (over_plain plain going).mp full
  have none_ : (if 0 ≤ d.contentLength ∧ (pending.length : Int) > d.contentLength - d.bodyReceived
      then (d.contentLength - d.bodyReceived).toNat else pending.length) = 0 := by
    rw [if_pos ⟨framed, by omega⟩]
    omega
  unfold round
  rw [if_pos plain]
  dsimp only
  rw [none_]
  simp [framed, reached]

theorem round_noticed {pending : List UInt8} (some_ : pending ≠ []) : (round d pending).dec.isOver = (round d pending).dec.done := by
  unfold round
  split
  · rename_i plain
    exact advance_over plain _
  split
  · rename_i chunked _
    rw [Bool.not_eq_false] at chunked
    exact over_chunked chunked
  · rename_i chunked _
    rw [Bool.not_eq_false] at chunked
    cases pending with
    | nil => exact absurd rfl some_
    | cons ch rest => exact over_chunked ((lineByte_framing ch).1.trans chunked)

theorem round_clean {pending : List UInt8} (clean : (round d pending).clean = true) :
    (round d pending).dec.done = true ∧ (round d pending).rest.take 2 = [13, 10] := by
  unfold round at clean ⊢
  split at clean
  · cases clean
  split at clean
  · cases clean
  · rename_i chunked nonPositive
    rw [if_neg chunked, if_neg nonPositive]
    cases pending with
    | nil => cases clean
    | cons ch rest =>
      dsimp only at clean ⊢
      rw [Bool.and_eq_true, decide_eq_true_eq] at clean
      exact clean

section
variable {Z : Type} {abortAt : Nat → Bool} {zlib : Inflate Z} {b b' : Body Z}

structure SameDecoding (b b' : Body Z) : Prop where
  dec : b'.dec = b.dec
  gz : b'.gz = b.gz
  trailerClean : b'.trailerClean = b.trailerClean
  received : b'.received = b.received
  receives : b'.receives = b.receives

variable (abortAt zlib) in
theorem sinkEmit_same (b : Body Z) (bytes : List UInt8) : SameDecoding b (sinkEmit abortAt zlib b bytes) := by
  unfold sinkEmit
  split
  · exact ⟨rfl, rfl, rfl, rfl, rfl⟩
  split
  · exact ⟨rfl, rfl, rfl, rfl, rfl⟩
  · split <;> exact ⟨rfl, rfl, rfl, rfl, rfl⟩

def Body.Flagged (b : Body Z) : Prop := b.fetch.aborted = true ∨ b.sinkErr = true

theorem bodyInner_stops {pending : List UInt8} (stops : Stops b pending) (fuel : Nat) :
    bodyInner abortAt zlib fuel b pending = (b, pending) := by
  cases fuel with
  | zero => rfl
  | succ fuel => rw [bodyInner, if_pos stops]

theorem bodyInner_going {pending : List UInt8} (going : ¬ Stops b pending) (fuel : Nat) :
    bodyInner abortAt zlib (fuel + 1) b pending =
      bodyInner abortAt zlib fuel (bodyStep abortAt zlib b pending).1 (bodyStep abortAt zlib b pending).2 := by
  rw [bodyInner, if_neg going]

theorem bodyStep_round {pending : List UInt8} (fine : ¬ (bodyStep abortAt zlib b pending).1.Flagged) :
    (bodyStep abortAt zlib b pending).2 = (round b.dec pending).rest ∧
      (bodyStep abortAt zlib b pending).1.dec = (round b.dec pending).dec ∧
      (bodyStep abortAt zlib b pending).1.trailerClean = (b.trailerClean || (round b.dec pending).clean) ∧
      (bodyStep abortAt zlib b pending).1.received = b.received ∧
      (bodyStep abortAt zlib b pending).1.receives = b.receives := by
  have same := sinkEmit_same abortAt zlib b (round b.dec pending).bytes
  unfold bodyStep at fine ⊢
  dsimp only at fine ⊢
  split
  · rename_i failed
    rw [if_pos failed] at fine
    exact absurd (Or.inr failed) fine
  · exact ⟨rfl, rfl, by dsimp only; rw [same.trailerClean], same.received, same.receives⟩

/-- Where the decoder stands. `s` may have been over without the loop noticing it. -/
def Decoder.Stands (d s : Decoder) : Prop := d = s ∨ s.isOver = true ∧ d = { s with done := true }

/-- What an inner loop has done that ended without abort or error. -/
structure Consumed (b : Body Z) (pending : List UInt8) (result : Body Z × List UInt8) : Prop where
  rest : result.2 = (decode b.dec pending).rest
  stands : result.1.dec.Stands (decode b.dec pending).state
  noticed : result.2 = [] ∨ result.1.dec.done = true
  clean : result.1.trailerClean = true → b.trailerClean = true ∨ result.2.take 2 = [13, 10]
  exact_ : b.dec.isOver = b.dec.done → result.1.dec = (decode b.dec pending).state
  fields : result.1.received = b.received ∧ result.1.receives = b.receives

theorem bodyInner_consumed {fuel : Nat} {pending : List UInt8} (enough : pending.length ≤ fuel)
    (fine : ¬ (bodyInner abortAt zlib fuel b pending).1.Flagged) :
    Consumed b pending (bodyInner abortAt zlib fuel b pending) := by
  have stopped : ∀ (b' : Body Z) (xs : List UInt8), (xs = [] ∨ b'.dec.done = true) → Consumed b' xs (b', xs) := by
    rintro b' xs (rfl | done)
    · exact ⟨rfl, Or.inl rfl, Or.inl rfl, fun clean => Or.inl clean, fun _ => rfl, rfl, rfl⟩
    · have isOver : b'.dec.isOver = true := by rw [Decoder.isOver, done, Bool.true_or]
      have fed : decode b'.dec xs = ⟨b'.dec, [], xs⟩ := feedUntil_over isOver xs
      refine ⟨?_, ?_, Or.inr done, fun clean => Or.inl clean, ?_, rfl, rfl⟩ <;> rw [fed]
      · exact Or.inl rfl
      · exact fun _ => rfl
  induction fuel generalizing b pending with
  | zero => exact stopped b pending (Or.inl (List.eq_nil_of_length_eq_zero (Nat.le_zero.mp enough)))
  | succ fuel ih =>
    by_cases stops : Stops b pending
    · rw [bodyInner_stops stops] at fine ⊢
      apply stopped b pending
      rcases stops with empty | done | aborted | failed
      · exact Or.inl empty
      · exact Or.inr done
      · exact absurd (Or.inl aborted) fine
      · exact absurd (Or.inr failed) fine
    rw [bodyInner_going stops] at fine ⊢
    have some_ : pending ≠ [] := fun empty => stops (Or.inl empty)
    have open_ : b.dec.done = false := Bool.eq_false_iff.mpr fun done => stops (Or.inr (Or.inl done))
    have fineRound : ¬ (bodyStep abortAt zlib b pending).1.Flagged := by
      intro flagged
      apply fine
      rw [bodyInner_stops (Or.inr (Or.inr flagged))]
      exact flagged
    obtain ⟨rest, dec, clean, received, receives⟩ := bodyStep_round fineRound
    generalize bodyStep abortAt zlib b pending = step at *
    obtain ⟨b1, left⟩ := step
    dsimp only at *
    subst rest
    cases full : b.dec.isOver with
    | true =>
      rw [round_full full open_ some_] at dec clean fine ⊢
      have done : b1.dec.done = true := by rw [dec]
      have fed : decode b.dec pending = ⟨b.dec, [], pending⟩ := feedUntil_over full pending
      rw [bodyInner_stops (Or.inr (Or.inl done))]
      refine ⟨?_, ?_, Or.inr done, ?_, ?_, received, receives⟩
      · rw [fed]
      · rw [fed]
        exact Or.inr ⟨full, dec⟩
      · intro cleaned
        rw [clean, Bool.or_false] at cleaned
        exact Or.inl cleaned
      · intro same
        rw [full, open_] at same
        cases same
    | false =>
      have fed := round_decode full some_
      have shorter := round_shorter full some_
      have later := ih (by omega) fine
      rw [← dec] at fed
      refine ⟨?_, ?_, later.noticed, ?_, ?_, later.fields.1.trans received, later.fields.2.trans receives⟩
      · rw [fed]
        exact later.rest
      · rw [fed]
        exact later.stands
      · intro cleaned
        rcases later.clean cleaned with early | here
        · rw [clean, Bool.or_eq_true] at early
          rcases early with early | now
          · exact Or.inl early
          · obtain ⟨done, crlf⟩ := round_clean now
            rw [bodyInner_stops (Or.inr (Or.inl (dec ▸ done)))]
            exact Or.inr crlf
        · exact Or.inr here
      · intro _
        rw [fed]
        apply later.exact_
        rw [dec]
        exact round_noticed some_

def Body.Reads (d0 : Decoder) (b : Body Z) : Prop := ∃ out, decode d0 b.received = ⟨b.dec, out, []⟩

/-- The loop goes on: nothing stops it, and no closing CRLF has been seen. -/
structure Body.Going (d0 : Decoder) (stream unread : List UInt8) (b : Body Z) : Prop where
  reads : b.Reads d0
  going : b.dec.done = false
  fine : ¬ b.Flagged
  clean : b.trailerClean = false
  whole : stream = b.received ++ unread

/-- The bytes received contain the whole body, with `left` behind it. -/
structure Complete (d0 : Decoder) (stream : List UInt8) (e : BodyEnd Z) : Prop where
  decoded : ∃ s out, decode d0 e.body.received = ⟨s, out, e.left⟩ ∧ s.isOver = true ∧ e.body.dec.Stands s
  done : e.body.dec.done = true
  clean : e.body.trailerClean = true → e.left.take 2 = [13, 10]
  whole : stream = e.body.received ++ e.unread

structure BodyEnd.Sound (d0 : Decoder) (stream : List UInt8) (e : BodyEnd Z) : Prop where
  stopped : e.ending = .stopped → e.body.fetch.aborted = false → Complete d0 stream e
  dry : ∀ closed, e.ending = .dry closed → e.body.Going d0 stream e.unread

variable {d0 : Decoder} {stream unread : List UInt8}

/-- What working through some bytes has come to, seen from the start of the body. -/
structure Body.Stood (d0 : Decoder) (received : List UInt8) (result : Body Z × List UInt8) : Prop where
  decoded : ∃ s out, decode d0 received = ⟨s, out, result.2⟩ ∧ result.1.dec.Stands s
  received : result.1.received = received
  noticed : result.2 = [] ∨ result.1.dec.done = true
  clean : result.1.trailerClean = true → result.2.take 2 = [13, 10]

variable (abortAt zlib) in
theorem consume_stood (bytes : List UInt8) (reads : b.Reads d0) (clean : b.trailerClean = false)
    (fine : ¬ (consume abortAt zlib b bytes).1.Flagged) :
    Body.Stood d0 (b.received ++ bytes) (consume abortAt zlib b bytes) := by
  obtain ⟨out, decoded⟩ := reads
  have consumed := bodyInner_consumed (b := { b with pendingLen := bytes.length, received := b.received ++ bytes })
    (Nat.le_refl bytes.length) fine
  have first : feedUntil Decoder.feed Decoder.payload Decoder.isOver d0 b.received = ⟨b.dec, out, []⟩ := decoded
  have both : decode d0 (b.received ++ bytes) =
      ⟨(decode b.dec bytes).state, out ++ (decode b.dec bytes).out, (decode b.dec bytes).rest⟩ := by
    rw [decode, feedUntil_append, first]
    rfl
  refine ⟨⟨(decode b.dec bytes).state, out ++ (decode b.dec bytes).out, ?_, consumed.stands⟩, consumed.fields.1, consumed.noticed, ?_⟩
  · rw [both]
    congr 1
    exact consumed.rest.symm
  · intro cleaned
    rcases consumed.clean cleaned with early | here
    · exact absurd early (by rw [clean]; exact Bool.false_ne_true)
    · exact here

variable (abortAt zlib) in
theorem consume_sound {bytes : List UInt8} (reads : b.Reads d0) (clean : b.trailerClean = false)
    (whole : stream = b.received ++ (bytes ++ unread)) :
    match Body.ended (consume abortAt zlib b bytes) unread with
    | some e => e.Sound d0 stream
    | none => (consume abortAt zlib b bytes).1.Going d0 stream unread := by
  have stood := consume_stood abortAt zlib bytes reads clean
  have whole' : (consume abortAt zlib b bytes).1.received = b.received ++ bytes →
      stream = (consume abortAt zlib b bytes).1.received ++ unread := by
    intro received
    rw [received, whole, List.append_assoc]
  generalize consume abortAt zlib b bytes = result at stood whole'
  unfold Body.ended
  split
  · rename_i e ended
    split at ended
    · cases ended
      exact ⟨nofun, nofun⟩
    rename_i decoded
    split at ended
    · rename_i stops
      cases ended
      refine ⟨?_, nofun⟩
      intro _ kept
      have fine : ¬ result.1.Flagged := by
        rintro (aborted | failed)
        · rw [kept] at aborted
          cases aborted
        · exact decoded failed
      have done : result.1.dec.done = true := by
        dsimp only at kept
        rw [kept, Bool.or_false] at stops
        exact stops
      obtain ⟨⟨s, out, fed, stands⟩, received, _, crlf⟩ := stood fine
      have isOver : s.isOver = true := by
        rcases stands with same | ⟨isOver, _⟩
        · rw [Decoder.isOver, ← same, done, Bool.true_or]
        · exact isOver
      exact ⟨⟨s, out, received ▸ fed, isOver, stands⟩, done, crlf, whole' received⟩
    · cases ended
  · rename_i ended
    split at ended
    · cases ended
    rename_i decoded
    split at ended
    · cases ended
    rename_i goes
    rw [Bool.or_eq_true, not_or, Bool.not_eq_true, Bool.not_eq_true] at goes
    have fine : ¬ result.1.Flagged := by
      rintro (aborted | failed)
      · rw [goes.2] at aborted
        cases aborted
      · exact decoded failed
    obtain ⟨⟨s, out, fed, stands⟩, received, noticed, crlf⟩ := stood fine
    have empty : result.2 = [] := by
      rcases noticed with empty | done
      · exact empty
      · rw [goes.1] at done
        cases done
    refine ⟨⟨out, ?_⟩, goes.1, fine, ?_, whole' received⟩
    · rw [received, fed, empty]
      rcases stands with same | ⟨_, noticed⟩
      · rw [same]
      · rw [noticed] at goes
        exact absurd goes.1 Bool.noConfusion
    · apply Bool.eq_false_iff.mpr
      intro cleaned
      have short := crlf cleaned
      rw [empty] at short
      cases short

theorem bodyLoop_sound {cuts : List Cut} {empties : Nat} (going : b.Going d0 stream unread) :
    (bodyLoop abortAt zlib cuts empties unread b).Sound d0 stream := by
  induction cuts generalizing empties unread b with
  | nil =>
    refine ⟨nofun, ?_⟩
    intro closed _
    exact ⟨going.reads, going.going, going.fine, going.clean, going.whole⟩
  | cons cut cuts ih =>
    have noted : b.noteReceive.Going d0 stream unread := ⟨going.reads, going.going, going.fine, going.clean, going.whole⟩
    unfold bodyLoop
    dsimp only
    split
    · exact ⟨nofun, nofun⟩
    · rename_i got
      rw [rconnRecv_keeps got nofun]
      split
      · exact ih noted
      · exact ⟨nofun, fun _ _ => noted⟩
    · rename_i bytes unread' got
      have split_ := rconnRecv_splits got
      split
      · exact ⟨nofun, nofun⟩
      · have whole : stream = b.noteReceive.received ++ (bytes ++ unread') := by
          rw [split_]
          exact noted.whole
        have sound := consume_sound abortAt zlib noted.reads noted.clean whole
        cases ended : Body.ended (consume abortAt zlib b.noteReceive bytes) unread' with
        | some e =>
          rw [ended] at sound
          exact sound
        | none =>
          rw [ended] at sound
          exact ih sound

theorem bodyPhase_sound {cuts : List Cut} {body0 : List UInt8} (fresh : b.received = []) (clean : b.trailerClean = false)
    (start : b.dec = d0) : (bodyPhase abortAt zlib cuts unread b body0).Sound d0 (body0 ++ unread) := by
  have reads : b.Reads d0 := ⟨[], by rw [fresh, start]; rfl⟩
  have whole : body0 ++ unread = b.received ++ (body0 ++ unread) := by rw [fresh, List.nil_append]
  have sound := consume_sound abortAt zlib reads clean whole
  unfold bodyPhase
  dsimp only
  cases ended : Body.ended (consume abortAt zlib b body0) unread with
  | some e =>
    rw [ended] at sound
    exact sound
  | none =>
    rw [ended] at sound
    exact bodyLoop_sound sound

end

end RexOs.NetSurf
