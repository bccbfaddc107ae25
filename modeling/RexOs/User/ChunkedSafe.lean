import RexOs.User.Chunked

/-! Decoding a chunked body stays inside it exactly when its sizes fit.

`decodeLoop_round` reads a size line; the results are by induction on `SizesFit` one way and
on the rounds the other way.
-/

set_option autoImplicit false

namespace RexOs.User.Http

open RexOs.Library

section
variable {body rest : List UInt8} {outMax p fuel : Nat} {s s' : Dechunk} {truncated : Option Bool}

theorem drop_takeWhile {α : Type} (p : α → Bool) (l : List α) : l.drop (l.takeWhile p).length = l.dropWhile p := by
  calc l.drop (l.takeWhile p).length
      = (l.takeWhile p ++ l.dropWhile p).drop (l.takeWhile p).length := by rw [List.takeWhile_append_dropWhile]
    _ = l.dropWhile p := List.drop_left

theorem dropWhile_sizeDigits (rest : List UInt8) :
    (rest.drop (sizeDigits rest).length).dropWhile (· ≠ 10) = rest.dropWhile (· ≠ 10) := by
  rw [sizeDigits, drop_takeWhile]
  conv_rhs => rw [← List.takeWhile_append_dropWhile (p := fun c => 0 ≤ hHexValue c) (l := rest)]
  rw [List.dropWhile_append_of_pos]
  intro c member
  have digit := List.mem_takeWhile_imp member
  rw [decide_eq_true_iff]
  rintro rfl
  cases digit

theorem sizeField_digits (none_ : sizeDigits rest = []) : sizeField rest = 0 := by
  rw [sizeField, none_]
  rfl

theorem sizeField_bounds (rest : List UInt8) : -2 ^ 31 ≤ sizeField rest ∧ sizeField rest < 2 ^ 31 := by
  have wrapped := readInt_eq hHexValue 16 0 (sizeDigits rest)
  rw [wrapInt_of_fits (by decide) (by decide)] at wrapped
  rw [sizeField, wrapped]
  exact ⟨wrapInt_low _, wrapInt_high _⟩

variable (outMax) in
theorem decodeLoop_round (place : s.pos = p) (inside : p ≤ body.length) (here : body.drop p = rest) (more : rest ≠ []) :
    ∃ s₁, Moved body (behindLine rest) s s₁ ∧ s₁.out = s.out ∧ s₁.truncated = s.truncated ∧
      ∀ fuel, decodeLoop body outMax (fuel + 1) s =
        if sizeField rest = 0 then .ok s₁
        else takeChunk body outMax s₁ (sizeField rest) >>= decodeLoop body outMax fuel := by
  have length : rest.length = body.length - p := by rw [← here, List.length_drop]
  have enough : ∀ {q : Nat}, q ≤ body.length → (body.drop q).length < roundsFrom body q := by
    intro q _
    rw [roundsFrom, List.length_drop]
    omega
  have positive := List.length_pos_iff.mpr more
  -- behind the digits, and where the line ends
  obtain ⟨p₁, first⟩ : ∃ p₁, p₁ = p + (sizeDigits rest).length := ⟨_, rfl⟩
  have here₁ : body.drop p₁ = rest.drop (sizeDigits rest).length := by rw [first, ← here, List.drop_drop, here]
  have inside₁ : p₁ ≤ body.length := by
    have := (List.takeWhile_prefix (fun c => decide (0 ≤ hHexValue c)) (l := rest)).length_le
    rw [first, sizeDigits]
    omega
  obtain ⟨p₂, second⟩ : ∃ p₂, p₂ = p₁ + ((body.drop p₁).takeWhile (· ≠ 10)).length := ⟨_, rfl⟩
  have here₂ : body.drop p₂ = rest.dropWhile (· ≠ 10) := by
    rw [second, ← List.drop_drop, drop_takeWhile, here₁, dropWhile_sizeDigits]
  have inside₂ : p₂ ≤ body.length := by
    have := (List.takeWhile_prefix (fun c => decide (c ≠ 10)) (l := body.drop p₁)).length_le
    rw [List.length_drop] at this
    omega
  have rounds : rest.length < roundsFrom body p := by
    rw [← here]
    exact enough inside
  have size := sizeLoop_eq here rounds 0 false
  have line := lineLoop_eq (rfl : body.drop p₁ = _) (enough inside₁)
  rw [← first] at size
  rw [← second] at line
  have moved : Moved body (rest.dropWhile (· ≠ 10)) s ((s.goto p₁).goto p₂) :=
    (Moved.goto place (by omega) inside₁ rfl).trans (Moved.goto rfl (by omega) inside₂ here₂)
  obtain ⟨s₁, last, moved₁, out, kept⟩ : ∃ s₁, (if ((s.goto p₁).goto p₂).pos < body.length then
      ((s.goto p₁).goto p₂).goto (((s.goto p₁).goto p₂).pos + 1) else (s.goto p₁).goto p₂) = s₁ ∧
      Moved body (behindLine rest) s s₁ ∧ s₁.out = s.out ∧ s₁.truncated = s.truncated := by
    rw [behindLine]
    cases end_ : rest.dropWhile (· ≠ 10) with
    | nil =>
      rw [end_] at here₂ moved
      exact ⟨_, if_neg (drop_end here₂), moved, rfl, rfl⟩
    | cons c tail =>
      rw [end_] at here₂
      have within := drop_inside here₂
      have next : Moved body tail ((s.goto p₁).goto p₂) (((s.goto p₁).goto p₂).goto (p₂ + 1 : Nat)) :=
        Moved.goto rfl (Nat.le_succ p₂) (by omega) (drop_next here₂)
      exact ⟨_, if_pos within, moved.trans next, rfl, rfl⟩
  refine ⟨s₁, moved₁, out, kept, fun fuel => ?_⟩
  rw [decodeLoop, if_pos (by rw [place]; omega), place, size]
  change (lineLoop body (roundsFrom body p₁) (p₁ : Int) >>= _) = _
  rw [line]
  change (if (false || !(sizeDigits rest).isEmpty) = false then Except.ok _ else if sizeField rest = 0 then Except.ok _ else _) = _
  rw [last]
  by_cases none_ : sizeDigits rest = []
  · rw [if_pos (by rw [none_]; rfl), if_pos (sizeField_digits none_)]
  · rw [if_neg (by simpa using none_)]
    rfl

theorem behindLine_length (more : rest ≠ []) : (behindLine rest).length < rest.length := by
  have positive := List.length_pos_iff.mpr more
  have shorter := (List.dropWhile_suffix (fun c => decide (c ≠ 10)) (l := rest)).length_le
  rw [behindLine, List.length_tail]
  omega

theorem dropChar_length (c : UInt8) (l : List UInt8) : (dropChar c l).length ≤ l.length := by
  cases l with
  | nil => exact Nat.le_refl _
  | cons b l =>
    rw [dropChar]
    split
    · exact Nat.le_succ _
    · exact Nat.le_refl _

theorem behindChunk_length (rest : List UInt8) :
    (behindChunk rest).length ≤ (behindLine rest).length - (sizeField rest).toNat := by
  rw [behindChunk]
  have first := dropChar_length 13 ((behindLine rest).drop (sizeField rest).toNat)
  have second := dropChar_length 10 (dropChar 13 ((behindLine rest).drop (sizeField rest).toNat))
  rw [List.length_drop] at first
  omega

theorem sizeField_some (size : sizeField rest ≠ 0) : rest ≠ [] := by
  rintro rfl
  exact size rfl

theorem decodeLoop_nil (fuel : Nat) (place : s.pos = p) (here : body.drop p = []) :
    decodeLoop body outMax (fuel + 1) s = .ok s := by
  rw [decodeLoop, place, if_neg (drop_end here)]

variable (outMax) in
theorem decodeLoop_fits (s : Dechunk) (small : body.length < 2 ^ 31) (fits : SizesFit body.length rest) (place : s.pos = p)
    (inside : p ≤ body.length) (here : body.drop p = rest) (room : s.out.length < outMax) (forward : s.Forward) :
    ∃ fuel s', decodeLoop body outMax fuel s = .ok s' ∧ s'.Forward ∧ s'.out.length < outMax ∧
      s'.out.length ≤ s.out.length + rest.length := by
  induction fits generalizing s p with
  | @last rest zero =>
    by_cases none_ : rest = []
    · exact ⟨1, s, decodeLoop_nil 0 place (here.trans none_), forward, room, Nat.le_add_right _ _⟩
    · obtain ⟨s₁, moved, out, -, line⟩ := decodeLoop_round outMax place inside here none_
      refine ⟨1, s₁, by rw [line 0, if_pos zero], moved.forward forward, ?_, ?_⟩
      · rw [out]
        exact room
      · rw [out]
        exact Nat.le_add_right _ _
  | @chunk rest positive fit _ ih =>
    have more : rest ≠ [] := sizeField_some (by omega)
    have shorter := behindLine_length more
    obtain ⟨s₁, moved, out, -, line⟩ := decodeLoop_round outMax place inside here more
    obtain ⟨q, place₁, inside₁, here₁⟩ := moved.place
    have length : (behindLine rest).length = body.length - q := by rw [← here₁, List.length_drop]
    obtain ⟨s₂, taken, moved₂, out₂, -⟩ := takeChunk_moved outMax small place₁ inside₁ here₁ positive (by omega) (by rw [out]; exact room)
    have size : s₂.out.length ≤ s.out.length + min (sizeField rest).toNat (behindLine rest).length ∧ s₂.out.length < outMax := by
      rw [out₂, out, List.length_append, List.length_take, List.length_take]
      omega
    obtain ⟨q₂, place₂, inside₂, here₂⟩ := moved₂.place
    obtain ⟨fuel, s', rounds, forward', room', bound⟩ :=
      ih _ place₂ inside₂ here₂ size.2 (moved₂.forward (moved.forward forward))
    refine ⟨fuel + 1, s', ?_, forward', room', ?_⟩
    · rw [line fuel, if_neg (by omega), taken]
      exact rounds
    · have := behindChunk_length rest
      omega

theorem takeChunk_trail {n : Int} (returned : takeChunk body outMax s n = .ok s') : s.trail <+: s'.trail := by
  have clipped : (clip body s n).1.trail = s.trail := by
    rw [clip]
    split <;> rfl
  obtain ⟨⟨copied, out⟩, -, returned⟩ := bind_returns returned
  obtain ⟨s₁, first, second⟩ := bind_returns returned
  have more := (skipChar_trail first).trans (skipChar_trail second)
  rw [← clipped]
  apply List.IsPrefix.trans _ more
  simp only [Dechunk.goto]
  split <;> exact List.prefix_append ..

theorem decodeLoop_trail (returned : decodeLoop body outMax fuel s = .ok s') : s.trail <+: s'.trail := by
  induction fuel generalizing s with
  | zero => cases returned
  | succ fuel ih =>
    rw [decodeLoop] at returned
    split at returned
    · obtain ⟨⟨pos, chunkLen, sawDigit⟩, -, returned⟩ := bind_returns returned
      obtain ⟨pos₂, -, returned⟩ := bind_returns returned
      dsimp only at returned
      generalize line : (if ((s.goto pos).goto pos₂).pos < body.length then
        ((s.goto pos).goto pos₂).goto (((s.goto pos).goto pos₂).pos + 1) else (s.goto pos).goto pos₂) = s₁ at returned
      have read : s.trail <+: s₁.trail := by
        rw [← line]
        split
        · exact ((List.prefix_append ..).trans (List.prefix_append ..)).trans (List.prefix_append ..)
        · exact (List.prefix_append ..).trans (List.prefix_append ..)
      split at returned
      · cases returned
        exact read
      split at returned
      · cases returned
        exact read
      obtain ⟨s₂, taken, rounds⟩ := bind_returns returned
      exact (read.trans (takeChunk_trail taken)).trans (ih rounds)
    · cases returned
      exact List.prefix_refl _

theorem decodeLoop_fitted (small : body.length < 2 ^ 31) (place : s.pos = p) (inside : p ≤ body.length)
    (here : body.drop p = rest) (room : s.out.length < outMax) (forward : s.Forward)
    (returned : decodeLoop body outMax fuel s = .ok s') (chain : s'.trail.IsChain (· ≤ ·)) : SizesFit body.length rest := by
  induction fuel generalizing s p rest with
  | zero => cases returned
  | succ fuel ih =>
    by_cases zero : sizeField rest = 0
    · exact SizesFit.last zero
    have more := sizeField_some zero
    obtain ⟨s₁, moved, out, -, line⟩ := decodeLoop_round outMax place inside here more
    obtain ⟨q, place₁, inside₁, here₁⟩ := moved.place
    have length : (behindLine rest).length = body.length - q := by rw [← here₁, List.length_drop]
    have bounds := sizeField_bounds rest
    rw [line fuel, if_neg zero] at returned
    obtain ⟨s₂, taken, rounds⟩ := bind_returns returned
    by_cases bad : sizeField rest < 0 ∨ 2 ^ 31 ≤ (q : Int) + sizeField rest
    · obtain ⟨pos, back, trail⟩ := takeChunk_back place₁ inside₁ small bounds.1 bounds.2 bad taken
      have chain' := List.IsChain.prefix chain (trail.trans (decodeLoop_trail rounds))
      have ahead := (moved.forward forward).back chain'
      omega
    · rw [not_or] at bad
      have positive : 0 < sizeField rest := by omega
      obtain ⟨s₂', taken', moved₂, out₂, -⟩ :=
        takeChunk_moved outMax small place₁ inside₁ here₁ positive (by omega) (by rw [out]; exact room)
      rw [taken] at taken'
      cases taken'
      obtain ⟨q₂, place₂, inside₂, here₂⟩ := moved₂.place
      have room₂ : s₂.out.length < outMax := by
        rw [out₂, out, List.length_append, List.length_take]
        omega
      refine SizesFit.chunk positive (by omega) ?_
      exact ih place₂ inside₂ here₂ room₂ (moved₂.forward (moved.forward forward)) rounds

def dechunkStart (truncated : Option Bool) : Dechunk := ⟨0, [], truncated, [0]⟩

theorem dechunkStart_forward : (dechunkStart truncated).Forward := ⟨List.isChain_singleton _, rfl⟩

theorem dechunkStart_pos : (dechunkStart truncated).pos = ((0 : Nat) : Int) := rfl

theorem hDecodeChunked_eq (room : 1 ≤ outMax) (fuel : Nat) : hDecodeChunked body outMax truncated fuel =
    (decodeLoop body outMax fuel (dechunkStart truncated) >>= fun s =>
      put outMax s.out 0 >>= fun out => .ok ⟨wrapInt s.out.length, out, s.truncated, s.trail⟩) := by
  rw [hDecodeChunked, if_neg (by omega)]
  rfl

theorem decoded_fits {r : Decoded} (small : body.length < 2 ^ 31) (room : 1 ≤ outMax)
    (returned : Returns (hDecodeChunked body outMax truncated) r) (safely : DecodedSafely outMax r) :
    SizesFit body.length body := by
  obtain ⟨fuel, returned⟩ := returned
  rw [hDecodeChunked_eq room] at returned
  obtain ⟨s, rounds, returned⟩ := bind_returns returned
  obtain ⟨out, -, returned⟩ := bind_returns returned
  have forward := safely.forward
  rw [← Except.ok.inj returned] at forward
  exact decodeLoop_fitted small dechunkStart_pos (Nat.zero_le _) List.drop_zero room dechunkStart_forward rounds forward

/-- The decoder returns, stays inside and never moves backwards exactly when the sizes that it comes to fit. -/
theorem chunked_decodes_safely (small : body.length < 2 ^ 31) (room : 1 ≤ outMax) :
    (∃ r, Returns (hDecodeChunked body outMax truncated) r ∧ DecodedSafely outMax r) ↔ SizesFit body.length body := by
  constructor
  · rintro ⟨r, returned, safely⟩
    exact decoded_fits small room returned safely
  · intro fits
    obtain ⟨fuel, s, rounds, forward, room', bound⟩ := decodeLoop_fits outMax (dechunkStart truncated)
      small fits dechunkStart_pos (Nat.zero_le _) List.drop_zero room dechunkStart_forward
    have last : put outMax s.out 0 = .ok (s.out ++ [0]) := if_pos room'
    have counted : s.out.length ≤ body.length := by simpa [dechunkStart] using bound
    refine ⟨⟨wrapInt s.out.length, s.out ++ [0], s.truncated, s.trail⟩, ⟨fuel, ?_⟩, forward.chain, ?_, ?_⟩
    · rw [hDecodeChunked_eq room, rounds]
      change (put outMax s.out 0 >>= _) = _
      rw [last]
      rfl
    · rw [List.length_append]
      exact room'
    · rw [wrapInt_of_fits (by omega) (by omega), List.length_append, List.length_singleton, Nat.cast_succ]

/-- `2` CR LF `hi` CR LF `0` CR LF. -/
def hiChunk : List UInt8 := [50, 13, 10, 104, 105, 13, 10, 48, 13, 10]

theorem chunked_decodes_safely_hi :
    (∃ r, Returns (hDecodeChunked hiChunk 16 none) r ∧ DecodedSafely 16 r) ↔ SizesFit 10 hiChunk :=
  chunked_decodes_safely (by decide) (by decide)

/-- `7FFFFFFF` CR LF. -/
def hugeChunk : List UInt8 := [55, 70, 70, 70, 70, 70, 70, 70, 13, 10]

/-- The size makes the position overflow, and the copy starts behind the body. -/
theorem chunk_size_overflows : ¬ ∀ (body : List UInt8) (outMax : Nat) (truncated : Option Bool), body.length < 2 ^ 31 →
    1 ≤ outMax → ∃ r, Returns (hDecodeChunked body outMax truncated) r ∧ DecodedSafely outMax r := by
  intro claim
  obtain ⟨r, returned, safely⟩ := claim hugeChunk 4096 none (by decide) (by decide)
  cases decoded_fits (by decide) (by decide) returned safely with
  | last zero => exact absurd zero (by decide)
  | chunk _ fit _ => exact absurd fit (by decide)

end

structure Chunk where
  digits : List UInt8
  ext : List UInt8
  data : List UInt8
  hex : ∀ c ∈ digits, IsDigit 16 c
  size : digitsValue 16 digits = data.length
  filled : data ≠ []
  ext_line : 10 ∉ ext
  ext_apart : ∀ c ∈ ext.head?, ¬ IsDigit 16 c

def Chunk.bytes (c : Chunk) : List UInt8 := c.digits ++ (c.ext ++ 13 :: 10 :: (c.data ++ [13, 10]))

structure LastChunk where
  more : Nat
  ext : List UInt8
  ext_line : 10 ∉ ext
  ext_apart : ∀ c ∈ ext.head?, ¬ IsDigit 16 c

def LastChunk.digits (c : LastChunk) : List UInt8 := List.replicate (c.more + 1) 48

def LastChunk.bytes (c : LastChunk) : List UInt8 := c.digits ++ (c.ext ++ [13, 10])

def encoded (chunks : List Chunk) (last : LastChunk) (trailer : List UInt8) : List UInt8 :=
  chunks.flatMap Chunk.bytes ++ (last.bytes ++ trailer)

def content (chunks : List Chunk) : List UInt8 := chunks.flatMap Chunk.data

variable {body rest digits ext : List UInt8} {outMax p : Nat} {s : Dechunk} {truncated : Option Bool}

theorem hHexValue_digit {c : UInt8} {v : Nat} (value : digitValue c = some v) (small : v < 16) : hHexValue c = v := by
  have all : ∀ n : Fin 256, ∀ v ∈ digitValue (UInt8.ofFin n), v < 16 → hHexValue (UInt8.ofFin n) = v := by decide +kernel
  exact all c.toFin v value small

theorem hHexValue_other {c : UInt8} (other : ¬ IsDigit 16 c) : hHexValue c < 0 := by
  have all : ∀ n : Fin 256, ¬ IsDigit 16 (UInt8.ofFin n) → hHexValue (UInt8.ofFin n) < 0 := by decide +kernel
  exact all c.toFin other

theorem readNumber_hex (hex : ∀ c ∈ digits, IsDigit 16 c) (acc : Nat) :
    readNumber hHexValue 16 acc digits = (readDigits 16 acc digits : Nat) := by
  induction digits generalizing acc with
  | nil => rfl
  | cons c digits ih =>
    obtain ⟨v, value, small⟩ := hex c List.mem_cons_self
    have next := ih (fun x member => hex x (List.mem_cons_of_mem _ member)) (acc * 16 + v)
    have step : readDigits 16 acc (c :: digits) = readDigits 16 (acc * 16 + v) digits := by
      simp only [readDigits, value, small, if_true]
    rw [step, ← next, Nat.cast_add, Nat.cast_mul, ← hHexValue_digit value small]
    rfl

theorem sizeDigits_line (hex : ∀ c ∈ digits, IsDigit 16 c) (apart : ∀ c ∈ ext.head?, ¬ IsDigit 16 c) :
    sizeDigits (digits ++ (ext ++ 13 :: rest)) = digits := by
  have stop : (ext ++ 13 :: rest).takeWhile (fun c => decide (0 ≤ hHexValue c)) = [] := by
    cases ext with
    | nil => rfl
    | cons c ext => exact List.takeWhile_cons_of_neg (by simpa using hHexValue_other (apart c rfl))
  rw [sizeDigits, List.takeWhile_append_of_pos, stop, List.append_nil]
  intro c member
  obtain ⟨v, value, small⟩ := hex c member
  rw [decide_eq_true_iff, hHexValue_digit value small]
  exact Int.natCast_nonneg v

theorem sizeField_line (hex : ∀ c ∈ digits, IsDigit 16 c) (apart : ∀ c ∈ ext.head?, ¬ IsDigit 16 c)
    (small : digitsValue 16 digits < 2 ^ 31) : sizeField (digits ++ (ext ++ 13 :: rest)) = digitsValue 16 digits := by
  have wrapped := readInt_eq hHexValue 16 0 digits
  rw [wrapInt_of_fits (by decide) (by decide)] at wrapped
  have number := readNumber_hex hex 0
  rw [sizeField, sizeDigits_line hex apart, wrapped]
  rw [Nat.cast_zero] at number
  rw [number]
  exact wrapInt_of_fits (by omega) (by rw [digitsValue] at small; omega)

theorem behindLine_line (hex : ∀ c ∈ digits, IsDigit 16 c) (plain : 10 ∉ ext) :
    behindLine (digits ++ (ext ++ 13 :: 10 :: rest)) = rest := by
  have front : digits ++ (ext ++ 13 :: 10 :: rest) = (digits ++ (ext ++ [13])) ++ 10 :: rest := by simp
  have line : ∀ c ∈ digits ++ (ext ++ [13]), decide (c ≠ 10) = true := by
    intro c member
    rw [decide_eq_true_iff]
    rintro rfl
    simp only [List.mem_append, List.mem_singleton] at member
    rcases member with digit | here | here
    · exact absurd (hex 10 digit) (by decide)
    · exact plain here
    · cases here
  rw [behindLine, front, List.dropWhile_append_of_pos line, List.dropWhile_cons_of_neg (by decide), List.tail_cons]

namespace Chunk
variable (c : Chunk)

theorem split (rest : List UInt8) : c.bytes ++ rest = c.digits ++ (c.ext ++ 13 :: 10 :: (c.data ++ 13 :: 10 :: rest)) := by
  simp [bytes]

theorem sizeField (rest : List UInt8) (small : c.data.length < 2 ^ 31) : sizeField (c.bytes ++ rest) = c.data.length := by
  rw [split, sizeField_line c.hex c.ext_apart (by rw [c.size]; exact small), c.size]

theorem behindLine : behindLine (c.bytes ++ rest) = c.data ++ 13 :: 10 :: rest := by
  rw [split, behindLine_line c.hex c.ext_line]

theorem resync (k : Nat) (size : k = c.data.length) :
    dropChar 10 (dropChar 13 ((c.data ++ 13 :: 10 :: rest).drop k)) = rest := by
  rw [size, List.drop_left]
  rfl

end Chunk

theorem LastChunk.hex (last : LastChunk) : ∀ c ∈ last.digits, IsDigit 16 c := by
  intro c member
  rw [List.eq_of_mem_replicate member]
  decide

theorem LastChunk.sizeField (last : LastChunk) (trailer : List UInt8) : sizeField (last.bytes ++ trailer) = 0 := by
  have zeros : ∀ n, readDigits 16 0 (List.replicate n 48) = 0 := by
    intro n
    induction n with
    | zero => rfl
    | succ n ih => exact ih
  have value : digitsValue 16 last.digits = 0 := zeros _
  have split_ : last.bytes ++ trailer = last.digits ++ (last.ext ++ 13 :: 10 :: trailer) := by simp [LastChunk.bytes]
  rw [split_, sizeField_line last.hex last.ext_apart (by rw [value]; decide), value]
  rfl

variable (outMax) in
theorem decodeLoop_encoded (s : Dechunk) (small : body.length < 2 ^ 31) (chunks : List Chunk) (last : LastChunk) (trailer : List UInt8)
    (place : s.pos = p) (inside : p ≤ body.length) (here : body.drop p = encoded chunks last trailer)
    (room : s.out.length + (content chunks).length < outMax) :
    ∃ fuel s', decodeLoop body outMax fuel s = .ok s' ∧ s'.out = s.out ++ content chunks ∧ s'.truncated = s.truncated := by
  induction chunks generalizing s p with
  | nil =>
    have zero := last.sizeField trailer
    have more : last.bytes ++ trailer ≠ [] := by simp [LastChunk.bytes]
    obtain ⟨s₁, -, out, kept, line⟩ := decodeLoop_round outMax place inside here more
    exact ⟨1, s₁, (line 0).trans (if_pos zero), by rw [out]; exact (List.append_nil _).symm, kept⟩
  | cons c chunks ih =>
    have split_ : encoded (c :: chunks) last trailer = c.bytes ++ encoded chunks last trailer := by
      simp only [encoded, List.flatMap_cons, List.append_assoc]
    have total : content (c :: chunks) = c.data ++ content chunks := List.flatMap_cons
    rw [total, List.length_append] at room
    rw [split_] at here
    have filled := List.length_pos_iff.mpr c.filled
    have lengths := congrArg List.length here
    have sizes : (c.bytes ++ encoded chunks last trailer).length =
        c.digits.length + (c.ext.length + (c.data.length + 2 + 2)) + (encoded chunks last trailer).length := by
      simp only [Chunk.bytes, List.length_append, List.length_cons, List.length_nil]
    rw [List.length_drop, sizes] at lengths
    have size := c.sizeField (encoded chunks last trailer) (by omega)
    have more : c.bytes ++ encoded chunks last trailer ≠ [] := by simp [Chunk.bytes]
    obtain ⟨s₁, moved, out, kept, line⟩ := decodeLoop_round outMax place inside here more
    rw [c.behindLine] at moved
    obtain ⟨q, place₁, inside₁, here₁⟩ := moved.place
    have behind := congrArg List.length here₁
    rw [List.length_drop, List.length_append, List.length_cons, List.length_cons] at behind
    have positive : (0 : Int) < c.data.length := Int.natCast_pos.mpr filled
    have fits : (q : Int) + c.data.length < 2 ^ 31 := by omega
    obtain ⟨s₂, taken, moved₂, out₂, kept₂⟩ := takeChunk_moved outMax small place₁ inside₁ here₁ positive fits
      (by rw [out]; omega)
    rw [c.resync _ (Int.toNat_natCast _)] at moved₂
    obtain ⟨q₂, place₂, inside₂, here₂⟩ := moved₂.place
    have all : s₂.out = s.out ++ c.data := by
      rw [out₂, out, Int.toNat_natCast, List.take_left, List.take_of_length_le (by omega)]
    obtain ⟨fuel, s', rounds, out', kept'⟩ := ih _ place₂ inside₂ here₂ (by rw [all, List.length_append]; omega)
    refine ⟨fuel + 1, s', ?_, ?_, ?_⟩
    · rw [line fuel, size, if_neg (by omega), taken]
      exact rounds
    · rw [out', all, total, List.append_assoc]
    · rw [kept', kept₂ (by rw [List.length_append]; omega) (by rw [out]; omega), kept]

theorem content_length (chunks : List Chunk) (last : LastChunk) (trailer : List UInt8) :
    (content chunks).length ≤ (encoded chunks last trailer).length := by
  induction chunks with
  | nil => exact Nat.zero_le _
  | cons c chunks ih =>
    simp only [content, encoded, Chunk.bytes, List.flatMap_cons, List.length_append, List.length_cons] at ih ⊢
    omega

/-- The content of the chunks is decoded, and nothing is truncated. -/
theorem chunked_round_trip (chunks : List Chunk) (last : LastChunk) (trailer : List UInt8)
    (small : (encoded chunks last trailer).length < 2 ^ 31) (room : (content chunks).length < outMax) :
    ∃ r, Returns (hDecodeChunked (encoded chunks last trailer) outMax truncated) r ∧ r.value = (content chunks).length ∧
      r.out = content chunks ++ [0] ∧ r.truncated = truncated := by
  obtain ⟨fuel, s, rounds, out, kept⟩ := decodeLoop_encoded outMax (dechunkStart truncated) small chunks
    last trailer dechunkStart_pos (Nat.zero_le _) List.drop_zero (by rw [dechunkStart, List.length_nil]; omega)
  have out : s.out = content chunks := out
  have fits := Nat.lt_of_le_of_lt (content_length chunks last trailer) small
  have putLast : put outMax s.out 0 = .ok (s.out ++ [0]) := if_pos (by rw [out]; exact room)
  refine ⟨⟨wrapInt s.out.length, s.out ++ [0], s.truncated, s.trail⟩, ⟨fuel, ?_⟩, ?_, ?_, kept⟩
  · rw [hDecodeChunked_eq (by omega), rounds]
    change (put outMax s.out 0 >>= _) = _
    rw [putLast]
    rfl
  · rw [wrapInt_of_fits (by omega) (by rw [out]; omega), out]
  · rw [out]

/-- `02;x` CR LF and two bytes that look like a line end. -/
def lineChunk : Chunk :=
  { digits := [48, 50], ext := [59, 120], data := [13, 10], hex := by decide +kernel, size := by decide +kernel
    filled := by decide, ext_line := by decide, ext_apart := by decide +kernel }

def plainLast : LastChunk := { more := 0, ext := [], ext_line := by decide, ext_apart := by decide +kernel }

theorem chunked_round_trip_line :
    ∃ r, Returns (hDecodeChunked (encoded [lineChunk] plainLast [13, 10]) 3 (some false)) r ∧
      r.value = (content [lineChunk]).length ∧ r.out = content [lineChunk] ++ [0] ∧ r.truncated = some false :=
  chunked_round_trip [lineChunk] plainLast [13, 10] (by decide) (by decide)

end RexOs.User.Http
