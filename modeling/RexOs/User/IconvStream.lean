import RexOs.User.IconvUtf8

/-! Conversion by several calls of `iconv`.

A call converts whole characters, and stops in front of one that it cannot convert. What is
converted of an input depends on the input alone, so it does not matter how the input and the
room for the output are divided among the calls.
-/

set_option autoImplicit false

namespace RexOs.User.Iconv

/-- `bytes` are a character, whatever stands behind them. -/
def IsChar (src : Enc) (bytes : List UInt8) (cp : Nat) : Prop :=
  ∃ c s, bytes = c :: s ∧ ∀ tail, decode src c (s ++ tail) = .ok (cp, s.length + 1)

def bytesOf (dst : Enc) (cp : Nat) : List UInt8 :=
  match dst with
  | .latin1 => [if cp ≤ 0xFF then UInt8.ofNat cp else 63]
  | .utf8 => encodeUtf8 cp

/-- The characters in front of `rest` are converted, in their order. -/
inductive Converts (cd : Cd) : List UInt8 → List UInt8 → List UInt8 → Prop where
  | done {rest : List UInt8} : Converts cd rest rest []
  | next {bytes input rest out : List UInt8} {cp : Nat} : IsChar cd.src bytes cp → Converts cd input rest out →
      Converts cd (bytes ++ input) rest (bytesOf cd.dst cp ++ out)

/-- What is reported in front of `rest` when there is room for `left` bytes. -/
inductive Stops (cd : Cd) (left : Nat) : List UInt8 → Option Errno → Prop where
  | done : Stops cd left [] none
  | refused {c : UInt8} {tail : List UInt8} {e : Errno} : decode cd.src c tail = .error e → Stops cd left (c :: tail) (some e)
  | full {c : UInt8} {tail : List UInt8} {cp n : Nat} : decode cd.src c tail = .ok (cp, n) →
      left < (bytesOf cd.dst cp).length → Stops cd left (c :: tail) (some .e2big)

def Ended (src : Enc) (rest : List UInt8) : Prop := ∀ bytes cp tail, IsChar src bytes cp → rest ≠ bytes ++ tail

section
variable {src dst : Enc} {cd : Cd} {c : UInt8} {s tail bytes input rest out : List UInt8} {cp cp' n left : Nat}

theorem decode_isChar (decoded : decode src c tail = .ok (cp, n)) :
    ∃ s tail', tail = s ++ tail' ∧ n = s.length + 1 ∧ IsChar src (c :: s) cp := by
  cases src with
  | latin1 =>
    cases decoded
    exact ⟨[], tail, rfl, rfl, c, [], rfl, fun _ => rfl⟩
  | utf8 =>
    unfold decode at decoded
    dsimp only at decoded
    split at decoded
    · cases decoded
    rename_i n' bits leads
    split at decoded
    · cases decoded
    rename_i enough
    split at decoded
    · cases decoded
    rename_i value right
    cases decoded
    have some_ := lead_positive leads
    have length : (tail.take (n - 1)).length = n - 1 := List.length_take_of_le (by omega)
    refine ⟨tail.take (n - 1), tail.drop (n - 1), (List.take_append_drop _ _).symm, by omega, c, _, rfl, fun more => ?_⟩
    have same : (tail.take (n - 1) ++ more).take (n - 1) = tail.take (n - 1) := List.take_left' length
    rw [decode_right leads (by rw [List.length_append, length]; omega) (by rw [same]; exact right), length,
      Nat.sub_add_cancel some_]

theorem IsChar.length_pos (char : IsChar src bytes cp) : 0 < bytes.length := by
  obtain ⟨c, s, rfl, -⟩ := char
  exact Nat.succ_pos _

theorem IsChar.unique {bytes' tail' : List UInt8} (char : IsChar src bytes cp) (char' : IsChar src bytes' cp')
    (same : bytes ++ tail = bytes' ++ tail') : bytes = bytes' ∧ cp = cp' ∧ tail = tail' := by
  obtain ⟨c, s, rfl, decoded⟩ := char
  obtain ⟨c', s', rfl, decoded'⟩ := char'
  rw [List.cons_append, List.cons_append] at same
  obtain ⟨rfl, behind⟩ := List.cons.inj same
  have first := decoded tail
  rw [behind, decoded' tail'] at first
  obtain ⟨rfl, length⟩ := Prod.mk.inj (Except.ok.inj first)
  obtain ⟨rfl, rfl⟩ := List.append_inj behind (by omega)
  exact ⟨rfl, rfl, rfl⟩

theorem bytesOf_length (dst : Enc) (cp : Nat) : (bytesOf dst cp).length = if dst = .utf8 then need cp else 1 := by
  cases dst with
  | latin1 => rfl
  | utf8 => exact encodeUtf8_length cp

theorem bytesOf_le (dst : Enc) (cp : Nat) : (bytesOf dst cp).length ≤ 4 := by
  rw [bytesOf_length]
  have size := need_cases cp
  split <;> omega

theorem encode_eq (dst : Enc) (cp left : Nat) :
    encode dst cp left = if left < (bytesOf dst cp).length then none else some (bytesOf dst cp) := by
  rw [bytesOf_length]
  cases dst <;> rfl

theorem ended_nil : Ended src [] := by
  rintro bytes cp tail char none_
  have some_ := char.length_pos
  have length := congrArg List.length none_
  rw [List.length_append, List.length_nil] at length
  omega

theorem decode_not_e2big (src : Enc) (c : UInt8) (tail : List UInt8) : decode src c tail ≠ .error .e2big := by
  intro refused
  unfold decode at refused
  split at refused
  · cases refused
  split at refused
  · cases refused
  split at refused
  · cases refused
  split at refused <;> cases refused

theorem Stops.ended {e : Option Errno} (stops : Stops cd left rest e) (room : e ≠ some .e2big) : Ended cd.src rest := by
  cases stops with
  | done => exact ended_nil
  | refused refused =>
    rintro bytes cp tail ⟨c, s, rfl, decoded⟩ same
    rw [List.cons_append] at same
    obtain ⟨rfl, rfl⟩ := List.cons.inj same
    rw [decoded tail] at refused
    cases refused
  | full => exact absurd rfl room

theorem Stops.has_char (stops : Stops cd left rest (some .e2big)) : ¬ Ended cd.src rest := by
  intro ended
  cases stops with
  | refused refused => exact decode_not_e2big _ _ _ refused
  | full decoded _ =>
    obtain ⟨s, tail, rfl, -, char⟩ := decode_isChar decoded
    exact ended _ _ tail char rfl

end

section
variable {cd : Cd} {input middle rest rest' out out' : List UInt8}

theorem Converts.append (converts : Converts cd input rest out) (more : List UInt8) :
    Converts cd (input ++ more) (rest ++ more) out := by
  induction converts with
  | done => exact .done
  | next char _ ih =>
    rw [List.append_assoc]
    exact .next char ih

theorem Converts.trans (first : Converts cd input middle out) (second : Converts cd middle rest out') :
    Converts cd input rest (out ++ out') := by
  induction first with
  | done => exact second
  | next char _ ih =>
    rw [List.append_assoc]
    exact .next char (ih second)

theorem Converts.of_ended (converts : Converts cd input rest out) (ended : Ended cd.src input) : rest = input := by
  cases converts with
  | done => rfl
  | next char _ => exact absurd rfl (ended _ _ _ char)

theorem Converts.unique (first : Converts cd input rest out) (second : Converts cd input rest' out')
    (ended : Ended cd.src rest) (ended' : Ended cd.src rest') : rest = rest' ∧ out = out' := by
  induction first generalizing out' with
  | done =>
    cases second with
    | done => exact ⟨rfl, rfl⟩
    | next char _ => exact absurd rfl (ended _ _ _ char)
  | @next bytes input rest out cp char _ ih =>
    generalize whole : bytes ++ input = all at second
    cases second with
    | done => exact absurd whole.symm (ended' _ _ _ char)
    | next char' converts =>
      obtain ⟨rfl, rfl, rfl⟩ := char.unique char' whole
      obtain ⟨rfl, rfl⟩ := ih converts ended
      exact ⟨rfl, rfl⟩

theorem Converts.length_le (converts : Converts cd input rest out) :
    rest.length ≤ input.length ∧ out.length ≤ 4 * (input.length - rest.length) := by
  induction converts with
  | done => exact ⟨Nat.le_refl _, Nat.zero_le _⟩
  | @next bytes input rest out cp char _ ih =>
    have some_ := char.length_pos
    have size := bytesOf_le cd.dst cp
    rw [List.length_append, List.length_append]
    omega

structure Call (cd : Cd) (input : List UInt8) (room : Nat) (r : Option Errno × Buffers) : Prop where
  converts : Converts cd input r.2.input r.2.out
  fits : r.2.outLeft + r.2.out.length = room
  stops : Stops cd r.2.outLeft r.2.input r.1

theorem convert_call (cd : Cd) (rounds : Nat) (b : Buffers) (enough : b.input.length ≤ rounds) :
    ∃ out, (convert cd rounds b).2.out = b.out ++ out ∧ Converts cd b.input (convert cd rounds b).2.input out ∧
      (convert cd rounds b).2.outLeft + out.length = b.outLeft ∧
      Stops cd (convert cd rounds b).2.outLeft (convert cd rounds b).2.input (convert cd rounds b).1 := by
  induction rounds generalizing b with
  | zero =>
    obtain ⟨input, out, left⟩ := b
    obtain rfl := List.length_eq_zero_iff.mp (Nat.le_zero.mp enough)
    exact ⟨[], (List.append_nil _).symm, .done, rfl, .done⟩
  | succ rounds ih =>
    obtain ⟨input, out, left⟩ := b
    cases input with
    | nil => exact ⟨[], (List.append_nil _).symm, .done, rfl, .done⟩
    | cons c tail =>
      rw [convert]
      dsimp only at enough ⊢
      cases decoded : decode cd.src c tail with
      | error e => exact ⟨[], (List.append_nil _).symm, .done, rfl, .refused decoded⟩
      | ok found =>
        obtain ⟨cp, n⟩ := found
        dsimp only
        rw [encode_eq]
        by_cases full : left < (bytesOf cd.dst cp).length
        · rw [if_pos full]
          exact ⟨[], (List.append_nil _).symm, .done, rfl, .full decoded full⟩
        · rw [if_neg full]
          dsimp only
          obtain ⟨s, tail, rfl, rfl, char⟩ := decode_isChar decoded
          rw [List.drop_succ_cons, List.drop_left]
          rw [List.length_cons, List.length_append] at enough
          obtain ⟨out', written, converts, fits, stops⟩ :=
            ih ⟨tail, out ++ bytesOf cd.dst cp, left - (bytesOf cd.dst cp).length⟩ (by dsimp only; omega)
          dsimp only at written converts fits
          refine ⟨bytesOf cd.dst cp ++ out', by rw [written, List.append_assoc], .next char converts, ?_, stops⟩
          rw [List.length_append]
          omega

theorem iconv_call (cd : Cd) (input : List UInt8) (room : Nat) : Call cd input room (iconv (some cd) (some input) room) := by
  obtain ⟨out, written, converts, fits, stops⟩ := convert_call cd input.length ⟨input, [], room⟩ (Nat.le_refl _)
  rw [List.nil_append] at written
  rw [← written] at converts fits
  exact ⟨converts, fits, stops⟩

theorem iconv_unlimited {room : Nat} (unlimited : 4 * input.length ≤ room) :
    Ended cd.src (iconv (some cd) (some input) room).2.input := by
  have call := iconv_call cd input room
  have shorter := call.converts.length_le
  have fits := call.fits
  apply call.stops.ended
  intro full
  have stops := call.stops
  rw [full] at stops
  generalize (iconv (some cd) (some input) room).2.input = rest at stops shorter
  cases stops with
  | refused refused => exact absurd refused (decode_not_e2big _ _ _)
  | @full c tail cp n _ short =>
    have size := bytesOf_le cd.dst cp
    rw [List.length_cons] at shorter
    omega

end

/-- What a caller holds: the input that is not yet converted, all the output, and the last `errno`. -/
structure Caller where
  pending : List UInt8
  out : List UInt8
  errno : Option Errno
  deriving DecidableEq, Repr

/-- What a caller adds for a call: input behind the input that is left, and room for the output. -/
structure Piece where
  more : List UInt8
  room : Nat
  deriving DecidableEq, Repr

def Caller.call (cd : Cd) (caller : Caller) (piece : Piece) : Caller :=
  let r := iconv (some cd) (some (caller.pending ++ piece.more)) piece.room
  ⟨r.2.input, caller.out ++ r.2.out, r.1⟩

def stream (cd : Cd) (pieces : List Piece) : Caller := pieces.foldl (Caller.call cd) ⟨[], [], none⟩

def supplied (pieces : List Piece) : List UInt8 := pieces.flatMap Piece.more

section
variable {cd : Cd} {caller : Caller} {piece : Piece} {pieces : List Piece}

theorem stream_snoc (cd : Cd) (pieces : List Piece) (piece : Piece) :
    stream cd (pieces ++ [piece]) = (stream cd pieces).call cd piece := by
  rw [stream, List.foldl_append]
  rfl

theorem stream_converts (cd : Cd) (pieces : List Piece) :
    Converts cd (supplied pieces) (stream cd pieces).pending (stream cd pieces).out := by
  induction pieces using List.reverseRecOn with
  | nil => exact .done
  | append_singleton pieces piece ih =>
    have all : supplied (pieces ++ [piece]) = supplied pieces ++ piece.more := by
      rw [supplied, List.flatMap_append, List.flatMap_singleton, ← supplied]
    rw [stream_snoc, all]
    exact (ih.append piece.more).trans (iconv_call cd _ piece.room).converts

theorem call_ended (done : (caller.call cd piece).errno ≠ some .e2big) : Ended cd.src (caller.call cd piece).pending :=
  (iconv_call cd _ piece.room).stops.ended done

theorem stream_ended (done : (stream cd pieces).errno ≠ some .e2big) : Ended cd.src (stream cd pieces).pending := by
  rcases List.eq_nil_or_concat pieces with rfl | ⟨pieces, piece, rfl⟩
  · exact ended_nil
  · rw [List.concat_eq_append, stream_snoc] at done ⊢
    exact call_ended done

theorem call_progress (piece : Piece) (room : 4 ≤ piece.room) (full : (caller.call cd piece).errno = some .e2big) :
    (caller.call cd piece).pending.length < (caller.pending ++ piece.more).length := by
  have call := iconv_call cd (caller.pending ++ piece.more) piece.room
  have stops := call.stops
  have fits := call.fits
  have size := call.converts.length_le
  have full : (iconv (some cd) (some (caller.pending ++ piece.more)) piece.room).1 = some .e2big := full
  show (iconv (some cd) (some (caller.pending ++ piece.more)) piece.room).2.input.length < _
  rw [full] at stops
  generalize (iconv (some cd) (some (caller.pending ++ piece.more)) piece.room).2.input = rest at stops size ⊢
  cases stops with
  | refused refused => exact absurd refused (decode_not_e2big _ _ _)
  | @full _ _ cp _ _ short =>
    have small := bytesOf_le cd.dst cp
    omega

theorem call_nothing (ended : Ended cd.src caller.pending) (room : Nat) : (caller.call cd ⟨[], room⟩).errno ≠ some .e2big := by
  intro full
  have call := iconv_call cd (caller.pending ++ []) room
  have stops := call.stops
  have full : (iconv (some cd) (some (caller.pending ++ [])) room).1 = some .e2big := full
  rw [full] at stops
  apply stops.has_char
  rw [call.converts.of_ended (by rw [List.append_nil]; exact ended), List.append_nil]
  exact ended

theorem calls_nothing (rooms : List Nat) (ended : Ended cd.src caller.pending) (done : caller.errno ≠ some .e2big) :
    ((rooms.map (Piece.mk [])).foldl (Caller.call cd) caller).errno ≠ some .e2big := by
  induction rooms generalizing caller with
  | nil => exact done
  | cons room rooms ih =>
    have next := call_nothing ended room
    exact ih (call_ended next) next

theorem calls_enough {rooms : List Nat} (four : ∀ room ∈ rooms, 4 ≤ room) (enough : caller.pending.length < rooms.length) :
    ((rooms.map (Piece.mk [])).foldl (Caller.call cd) caller).errno ≠ some .e2big := by
  induction rooms generalizing caller with
  | nil => exact absurd enough (Nat.not_lt_zero _)
  | cons room rooms ih =>
    rw [List.forall_mem_cons] at four
    by_cases full : (caller.call cd ⟨[], room⟩).errno = some .e2big
    · have shorter := call_progress ⟨[], room⟩ four.1 full
      rw [List.append_nil] at shorter
      rw [List.length_cons] at enough
      exact ih four.2 (by omega)
    · exact calls_nothing rooms (call_ended full) full

end

section
variable {cd : Cd} {input out : List UInt8} {room : Nat}

theorem latin1_char (b : UInt8) : IsChar .latin1 [b] b.toNat := ⟨b, [], rfl, fun _ => rfl⟩

theorem utf8_char (b : UInt8) : IsChar .utf8 (encodeUtf8 b.toNat) b.toNat := by
  have one : ∀ n : Fin 256, n.val < 0x80 →
      encodeUtf8 n.val = [UInt8.ofNat n.val] ∧ lead (UInt8.ofNat n.val) = some (1, n.val) := by decide +kernel
  have two : ∀ n : Fin 256, 0x80 ≤ n.val →
      encodeUtf8 n.val = [UInt8.ofNat (0xC0 ||| n.val >>> 6), UInt8.ofNat (0x80 ||| (n.val &&& 0x3F))] ∧
      lead (UInt8.ofNat (0xC0 ||| n.val >>> 6)) = some (2, n.val >>> 6) ∧
      continuation (n.val >>> 6) [UInt8.ofNat (0x80 ||| (n.val &&& 0x3F))] = some n.val := by decide +kernel
  have whole : b.toFin.val = b.toNat := rfl
  rcases Nat.lt_or_ge b.toNat 0x80 with small | large
  · obtain ⟨bytes, leads⟩ := one b.toFin small
    rw [whole] at bytes leads
    exact ⟨_, _, bytes, fun tail => decode_right leads (Nat.le_add_left _ _) rfl⟩
  · obtain ⟨bytes, leads, right⟩ := two b.toFin large
    rw [whole] at bytes leads right
    exact ⟨_, _, bytes, fun tail => decode_right leads (Nat.le_add_left _ _) right⟩

theorem converts_latin1 (bytes : List UInt8) :
    Converts ⟨.latin1, .utf8⟩ bytes [] (bytes.flatMap fun b => encodeUtf8 b.toNat) := by
  induction bytes with
  | nil => exact .done
  | cons b bytes ih => exact .next (latin1_char b) ih

theorem converts_utf8 (bytes : List UInt8) :
    Converts ⟨.utf8, .latin1⟩ (bytes.flatMap fun b => encodeUtf8 b.toNat) [] bytes := by
  induction bytes with
  | nil => exact .done
  | cons b bytes ih =>
    have same : bytesOf .latin1 b.toNat = [b] := by
      rw [bytesOf, if_pos (Nat.le_of_lt_succ b.toNat_lt), UInt8.ofNat_toNat]
    have step : Converts ⟨.utf8, .latin1⟩ (encodeUtf8 b.toNat ++ bytes.flatMap fun b => encodeUtf8 b.toNat) []
        (bytesOf .latin1 b.toNat ++ bytes) := .next (utf8_char b) ih
    rw [same] at step
    exact step

theorem iconv_whole (converts : Converts cd input [] out) (unlimited : 4 * input.length ≤ room) :
    iconv (some cd) (some input) room = (none, ⟨[], out, room - out.length⟩) := by
  have call := iconv_call cd input room
  have same := call.converts.unique converts (iconv_unlimited unlimited) ended_nil
  have fits := call.fits
  have stops := call.stops
  generalize iconv (some cd) (some input) room = r at call same fits stops
  obtain ⟨e, rest, out', left⟩ := r
  obtain ⟨rfl, rfl⟩ := same
  dsimp only at fits stops
  cases stops
  rw [← fits, Nat.add_sub_cancel]

end

/-- However the input and the room are divided, the calls convert what one call with room for everything converts.
With room for four bytes in each call they come to an end, and Latin-1 that is converted to UTF-8 is converted
back. -/
theorem iconv_streams (cd : Cd) :
    (∀ pieces : List Piece,
      ((stream cd pieces).errno ≠ some .e2big → ∀ room, 4 * (supplied pieces).length ≤ room →
        (stream cd pieces).out = (iconv (some cd) (some (supplied pieces)) room).2.out) ∧
      ∀ rooms : List Nat, (∀ room ∈ rooms, 4 ≤ room) → (supplied pieces).length < rooms.length →
        (stream cd (pieces ++ rooms.map (Piece.mk []))).errno ≠ some .e2big) ∧
    (∀ input room, Call cd input room (iconv (some cd) (some input) room)) ∧
    ∀ bytes room room', 4 * bytes.length ≤ room →
      4 * (iconv (some ⟨.latin1, .utf8⟩) (some bytes) room).2.out.length ≤ room' →
      iconv (some ⟨.utf8, .latin1⟩) (some (iconv (some ⟨.latin1, .utf8⟩) (some bytes) room).2.out) room' =
        (none, ⟨[], bytes, room' - bytes.length⟩) := by
  refine ⟨fun pieces => ⟨fun done room unlimited => ?_, fun rooms four enough => ?_⟩, iconv_call cd,
    fun bytes room room' unlimited unlimited' => ?_⟩
  · exact ((stream_converts cd pieces).unique (iconv_call cd _ room).converts (stream_ended done) (iconv_unlimited unlimited)).2
  · have shorter := (stream_converts cd pieces).length_le.1
    rw [stream, List.foldl_append]
    exact calls_enough four (Nat.lt_of_le_of_lt shorter enough)
  · rw [iconv_whole (converts_latin1 bytes) unlimited] at unlimited' ⊢
    exact iconv_whole (converts_utf8 bytes) unlimited'

/-- A character of two bytes is divided among two calls, and the third has to wait for room. -/
theorem iconv_streams_divided :
    (stream ⟨.utf8, .utf8⟩ [⟨[0x61, 0xC3], 4⟩, ⟨[0xA9, 0xF0, 0x9F, 0x98, 0x80], 4⟩, ⟨[], 4⟩]).out =
      (iconv (some ⟨.utf8, .utf8⟩) (some [0x61, 0xC3, 0xA9, 0xF0, 0x9F, 0x98, 0x80]) 28).2.out ∧
    iconv (some ⟨.utf8, .latin1⟩) (some (iconv (some ⟨.latin1, .utf8⟩) (some [0x61, 0xE9]) 8).2.out) 12 =
      (none, ⟨[], [0x61, 0xE9], 10⟩) := by
  have streams := iconv_streams ⟨.utf8, .utf8⟩
  exact ⟨(streams.1 [⟨[0x61, 0xC3], 4⟩, ⟨[0xA9, 0xF0, 0x9F, 0x98, 0x80], 4⟩, ⟨[], 4⟩]).1 (by decide) 28 (by decide),
    streams.2.2 [0x61, 0xE9] 8 12 (by decide) (by decide)⟩

end RexOs.User.Iconv
