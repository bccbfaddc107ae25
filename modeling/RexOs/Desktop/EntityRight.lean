import RexOs.Desktop.Entity

/-! What entities are decoded to, and whether that depends on the maximum.

A name matches, or a number follows, or nothing is consumed.
-/

set_option autoImplicit false

namespace RexOs.Desktop.Browser

open RexOs.Library
open RexOs.User.Iconv (ascii)

def Starts (s : Mem) : Nat → List UInt8 → Prop
  | _, [] => True
  | i, c :: name => toLowerByte (s i) = toLowerByte c ∧ Starts s (i + 1) name

def Digits (hex : Bool) (s : Mem) : Nat → List Nat → Prop
  | _, [] => True
  | i, d :: digits => digitOf hex (s i) = some d ∧ Digits hex s (i + 1) digits

structure Numeric (s : Mem) (hex : Bool) (digits : List Nat) : Prop where
  amp : s 0 = 38
  hash : s 1 = 35
  mark : isX (s 2) = hex
  run : Digits hex s (start hex) digits
  some_ : digits ≠ []
  stop : s (start hex + digits.length) = 59

def numericLength (hex : Bool) (digits : List Nat) : Nat := start hex + digits.length + 1

def numberOf (hex : Bool) (digits : List Nat) : Nat := digits.foldl (fun n d => n * base hex + d) 0

def IsScalar (v : Nat) : Prop := v.isValidChar

instance (v : Nat) : Decidable (IsScalar v) := inferInstanceAs (Decidable v.isValidChar)

def scalarOf (v : Nat) : Nat := if IsScalar v then v else 0xFFFD

/-- The entity of `n` characters stands for the scalar value `v`. -/
def Denotes (s : Mem) (n v : Nat) : Prop :=
  (∃ e ∈ namedEntities, Starts s 0 e.name ∧ n = e.name.length ∧ v = e.cp) ∨
    ∃ hex digits, Numeric s hex digits ∧ n = numericLength hex digits ∧ v = scalarOf (numberOf hex digits)

structure DecodesRight (s : Mem) (max : Int) : Prop where
  returns : ∃ r, decodeEntity (memory s) max = .ok r
  within : ∀ n bytes, decodeEntity (memory s) max = .ok (n, bytes) → 0 < n → n ≤ max
  alike : ∀ n bytes, decodeEntity (memory s) max = .ok (n, bytes) → 0 < n → ∀ m : Int, n ≤ m → decodeEntity (memory s) m = .ok (n, bytes)
  encoded : ∀ n bytes, decodeEntity (memory s) max = .ok (n, bytes) → 0 < n →
    ∃ c : Char, Denotes s n c.toNat ∧ bytes = String.utf8EncodeChar c

/-- The value of a numeric entity is not a surrogate, and if it is larger than all scalar values, so is what an `int` keeps of it. -/
def ValueFits (v : Nat) : Prop :=
  ¬ (0xD800 ≤ v ∧ v ≤ 0xDFFF) ∧ (v ≤ 0x10FFFF ∨ 0x10FFFF < v % 2 ^ 32 ∨ v % 2 ^ 32 = 0xFFFD)

structure EntityFits (s : Mem) (max : Int) : Prop where
  deg : Starts s 0 (ascii "&deg;") → max < 6
  euro : Starts s 0 (ascii "&euro;") → max < 7
  value : ∀ hex digits, Numeric s hex digits → numericLength hex digits ≤ max → ValueFits (numberOf hex digits)

theorem lor_two : ∀ n, n < 32 → 0xC0 ||| n = n + 0xC0 := by decide

theorem lor_three : ∀ n, n < 16 → 0xE0 ||| n = n + 0xE0 := by decide

theorem lor_four : ∀ n, n < 8 → 0xF0 ||| n = n + 0xF0 := by decide

theorem lor_trail : ∀ n, n < 64 → 0x80 ||| n = n + 0x80 := by decide

theorem and_trail (n : Nat) : n &&& 0x3F = n % 64 := Nat.and_two_pow_sub_one_eq_mod n 6

theorem utf8Encode_char (c : Char) : utf8Encode c.toNat = String.utf8EncodeChar c := by
  have small : c.toNat < 0x110000 := by
    rcases c.valid with low | high
    · exact Nat.lt_trans low (by decide)
    · exact high.2
  have same : c.val.toNat = c.toNat := rfl
  have inside : ¬ ((c.toNat : Int) < 0 ∨ (c.toNat : Int) > 0x10FFFF) := by omega
  unfold utf8Encode String.utf8EncodeChar
  rw [if_neg inside, Int.toNat_natCast, same]
  generalize c.toNat = v at small
  dsimp only
  simp only [Nat.shiftRight_eq_div_pow, and_trail]
  rcases Nat.lt_or_ge v 0x80 with one | more
  · rw [if_pos one, if_pos (Nat.le_of_lt_succ one)]
  rw [if_neg (Nat.not_lt.mpr more), if_neg (Nat.not_le.mpr more), lor_trail _ (Nat.mod_lt v (by decide))]
  rcases Nat.lt_or_ge v 0x800 with two | more
  · rw [if_pos two, if_pos (Nat.le_of_lt_succ two), lor_two _ (by omega), Nat.mod_eq_of_lt (a := v / 64) (by omega)]
  rw [if_neg (Nat.not_lt.mpr more), if_neg (Nat.not_le.mpr more), lor_trail _ (Nat.mod_lt (v / 2 ^ 6) (by decide))]
  rcases Nat.lt_or_ge v 0x10000 with three | more
  · rw [if_pos three, if_pos (Nat.le_of_lt_succ three), lor_three _ (by omega), Nat.mod_eq_of_lt (a := v / 4096) (by omega)]
  · rw [if_neg (Nat.not_lt.mpr more), if_neg (Nat.not_le.mpr more), lor_trail _ (Nat.mod_lt (v / 2 ^ 12) (by decide)),
      lor_four _ (by omega), Nat.mod_eq_of_lt (a := v / 262144) (by omega)]

section
variable {s : Mem} {max : Int} {hex : Bool} {digits : List Nat} {i : Nat}

theorem ciEq_memory (s : Mem) (i : Nat) (name : List UInt8) :
    ciEq (memory s) i name = .ok true ∧ Starts s i name ∨ ciEq (memory s) i name = .ok false ∧ ¬ Starts s i name := by
  induction name generalizing i with
  | nil => exact Or.inl ⟨rfl, trivial⟩
  | cons c name ih =>
    have first : ciEq (memory s) i (c :: name) = if toLowerByte (s i) ≠ toLowerByte c then .ok false else ciEq (memory s) (i + 1) name := rfl
    rw [first]
    by_cases same : toLowerByte (s i) = toLowerByte c
    · rw [if_neg (not_not_intro same)]
      exact (ih (i + 1)).imp (fun yes => ⟨yes.1, same, yes.2⟩) fun no => ⟨no.1, fun starts => no.2 starts.2⟩
    · rw [if_pos same]
      exact Or.inr ⟨rfl, fun starts => same starts.1⟩

theorem matchNamed_memory (s : Mem) (max : Int) (names : List Named) :
    (matchNamed (memory s) max names = .ok none ∧ ∀ e ∈ names, e.bound ≤ max → ¬ Starts s 0 e.name) ∨
      ∃ e ∈ names, matchNamed (memory s) max names = .ok (some e) ∧ e.bound ≤ max ∧ Starts s 0 e.name := by
  induction names with
  | nil => exact Or.inl ⟨rfl, List.forall_mem_nil _⟩
  | cons e names ih =>
    by_cases here : e.bound ≤ max ∧ Starts s 0 e.name
    · refine Or.inr ⟨e, List.mem_cons_self .., ?_, here⟩
      rw [matchNamed, if_pos here.1, ((ciEq_memory s 0 e.name).resolve_right fun no => no.2 here.2).1]
      rfl
    · have rest : matchNamed (memory s) max (e :: names) = matchNamed (memory s) max names := by
        rw [matchNamed]
        split
        · rename_i small
          rw [((ciEq_memory s 0 e.name).resolve_left fun yes => here ⟨small, yes.2⟩).1]
          rfl
        · rfl
      rw [rest]
      exact ih.imp (fun no => ⟨no.1, List.forall_mem_cons.mpr ⟨fun small starts => here ⟨small, starts⟩, no.2⟩⟩)
        fun ⟨e', member, found⟩ => ⟨e', List.mem_cons_of_mem _ member, found⟩

theorem numberLoop_stop (fuel : Nat) (code : Int) (count : Nat) (stop : ¬ (i : Int) < max ∨ digitOf hex (s i) = none) :
    numberLoop (memory s) hex max (fuel + 1) i code count = .ok (i, code, count) := by
  rcases stop with outside | digit
  · rw [numberLoop, if_neg outside]
  · simp only [numberLoop, memory, bind, Except.bind, digit, ite_self]

theorem numberLoop_digit (fuel : Nat) (code : Int) (count : Nat) {d : Nat} (inside : (i : Int) < max) (digit : digitOf hex (s i) = some d) :
    numberLoop (memory s) hex max (fuel + 1) i code count =
      numberLoop (memory s) hex max fuel (i + 1) (wrapInt (code * base hex + d)) (count + 1) := by
  rw [numberLoop, if_pos inside]
  simp only [memory, bind, Except.bind, digit]

theorem numberLoop_memory (s : Mem) (max : Int) (hex : Bool) (i fuel : Nat) (code : Int) (count : Nat) (enough : max - i ≤ fuel) :
    ∃ digits, Digits hex s i digits ∧
      ((i + digits.length : Nat) < max → digitOf hex (s (i + digits.length)) = none) ∧
      numberLoop (memory s) hex max (fuel + 1) i code count =
        .ok (i + digits.length, readInt (fun d : Nat => (d : Int)) (base hex) code digits, count + digits.length) := by
  induction fuel generalizing i code count with
  | zero =>
    have outside : ¬ (i : Int) < max := by omega
    exact ⟨[], trivial, fun inside => absurd inside outside, numberLoop_stop 0 code count (Or.inl outside)⟩
  | succ fuel ih =>
    by_cases inside : (i : Int) < max
    · cases digit : digitOf hex (s i) with
      | none => exact ⟨[], trivial, fun _ => digit, numberLoop_stop (fuel + 1) code count (Or.inr digit)⟩
      | some d =>
        obtain ⟨rest, run, last, result⟩ := ih (i + 1) (wrapInt (code * base hex + d)) (count + 1) (by omega)
        have place : i + (d :: rest).length = i + 1 + rest.length := by
          rw [List.length_cons]
          omega
        refine ⟨d :: rest, ⟨digit, run⟩, fun before => ?_, ?_⟩
        · rw [place] at before ⊢
          exact last before
        · rw [numberLoop_digit (fuel + 1) code count inside digit, result, place, List.length_cons, Nat.add_right_comm count]
          rfl
    · exact ⟨[], trivial, fun before => absurd before inside, numberLoop_stop (fuel + 1) code count (Or.inl inside)⟩

theorem Digits.unique {digits' : List Nat} (run : Digits hex s i digits) (run' : Digits hex s i digits')
    (stop : digitOf hex (s (i + digits.length)) = none) (stop' : digitOf hex (s (i + digits'.length)) = none) : digits = digits' := by
  induction digits generalizing digits' i with
  | nil =>
    cases digits' with
    | nil => rfl
    | cons d' rest' =>
      have some_ := run'.1
      rw [List.length_nil, Nat.add_zero] at stop
      rw [stop] at some_
      cases some_
  | cons d rest ih =>
    have some_ := run.1
    cases digits' with
    | nil =>
      rw [List.length_nil, Nat.add_zero] at stop'
      rw [stop'] at some_
      cases some_
    | cons d' rest' =>
      rw [run'.1] at some_
      cases some_
      rw [List.length_cons, Nat.add_comm _ 1, ← Nat.add_assoc] at stop stop'
      rw [ih run.2 run'.2 stop stop']

theorem semicolon_stops (hex : Bool) : digitOf hex 59 = none := by
  cases hex <;> rfl

theorem Numeric.unique {hex' : Bool} {digits' : List Nat} (numeric : Numeric s hex digits) (numeric' : Numeric s hex' digits') :
    hex = hex' ∧ digits = digits' := by
  have same : hex = hex' := numeric.mark.symm.trans numeric'.mark
  subst same
  refine ⟨rfl, numeric.run.unique numeric'.run ?_ ?_⟩
  · rw [numeric.stop]
    exact semicolon_stops hex
  · rw [numeric'.stop]
    exact semicolon_stops hex

theorem Digits.at_ (run : Digits hex s i digits) {k : Nat} (small : k < digits.length) : digitOf hex (s (i + k)) ≠ none := by
  induction digits generalizing i k with
  | nil => exact absurd small (Nat.not_lt_zero k)
  | cons d rest ih =>
    cases k with
    | zero =>
      rw [Nat.add_zero, run.1]
      exact Option.some_ne_none d
    | succ k =>
      have later := ih run.2 (Nat.lt_of_succ_lt_succ small)
      rw [Nat.add_assoc, Nat.add_comm 1 k] at later
      exact later

theorem readNumber_nat (hex : Bool) (digits : List Nat) (acc : Nat) :
    readNumber (fun d : Nat => (d : Int)) (base hex) acc digits = (digits.foldl (fun n d => n * base hex + d) acc : Nat) := by
  induction digits generalizing acc with
  | nil => rfl
  | cons d digits ih =>
    rw [List.foldl_cons, ← ih, Int.natCast_add, Int.natCast_mul]
    rfl

theorem readInt_nat (hex : Bool) (digits : List Nat) :
    readInt (fun d : Nat => (d : Int)) (base hex) 0 digits = wrapInt (numberOf hex digits) := by
  have zero : wrapInt 0 = 0 := rfl
  rw [← zero, readInt_eq]
  exact congrArg wrapInt (readNumber_nat hex digits 0)

theorem decodeNumeric_memory (s : Mem) (max : Int) : ∃ hex digits, (2 < max → isX (s 2) = hex) ∧ Digits hex s (start hex) digits ∧
    ((start hex + digits.length : Nat) < max → digitOf hex (s (start hex + digits.length)) = none) ∧
    decodeNumeric (memory s) max =
      .ok (if (0 < digits.length ∧ (start hex + digits.length : Nat) < max) ∧ s (start hex + digits.length) = 59 then
        some (numericLength hex digits, wrapInt (numberOf hex digits)) else none) := by
  have mark : ∃ hex, hexMark (memory s) max = .ok hex ∧ (2 < max → isX (s 2) = hex) := by
    unfold hexMark
    by_cases room : 2 < max
    · exact ⟨isX (s 2), if_pos room, fun _ => rfl⟩
    · exact ⟨false, if_neg room, fun room' => absurd room' room⟩
  obtain ⟨hex, marked, same⟩ := mark
  obtain ⟨digits, run, last, result⟩ := numberLoop_memory s max hex (start hex) max.toNat 0 0 (by omega)
  refine ⟨hex, digits, same, run, last, ?_⟩
  unfold decodeNumeric
  rw [readInt_nat, Nat.zero_add] at result
  simp only [marked, result, bind, Except.bind, memory]
  by_cases complete : 0 < digits.length ∧ (start hex + digits.length : Nat) < max
  · rw [if_pos complete]
    by_cases semicolon : s (start hex + digits.length) = 59
    · rw [if_pos semicolon, if_pos ⟨complete, semicolon⟩]
      rfl
    · rw [if_neg semicolon, if_neg fun all => semicolon all.2]
  · rw [if_neg complete, if_neg fun all => complete all.1]

theorem start_two (hex : Bool) : 2 ≤ start hex := by
  cases hex <;> decide

theorem decodeNumeric_some (numeric : Numeric s hex digits) (fits : numericLength hex digits ≤ max) :
    decodeNumeric (memory s) max = .ok (some (numericLength hex digits, wrapInt (numberOf hex digits))) := by
  obtain ⟨hex', digits', mark, run, last, result⟩ := decodeNumeric_memory s max
  have two := start_two hex
  have some_ := List.length_pos_iff.mpr numeric.some_
  unfold numericLength at fits
  have same : hex' = hex := (mark (by omega)).symm.trans numeric.mark
  subst same
  -- the loop cannot go on behind the semicolon
  have short : digits'.length ≤ digits.length := by
    by_contra long
    have digit := run.at_ (Nat.lt_of_not_le long)
    rw [numeric.stop] at digit
    exact digit (semicolon_stops hex')
  have stop : digitOf hex' (s (start hex' + digits.length)) = none := by
    rw [numeric.stop]
    exact semicolon_stops hex'
  have same := numeric.run.unique run stop (last (by omega))
  subst same
  rw [result, if_pos ⟨⟨some_, by omega⟩, numeric.stop⟩]

theorem decodeNumeric_none (amp : s 0 = 38) (hash : s 1 = 35)
    (no : ∀ hex digits, Numeric s hex digits → ¬ (numericLength hex digits : Int) ≤ max) : decodeNumeric (memory s) max = .ok none := by
  obtain ⟨hex, digits, mark, run, last, result⟩ := decodeNumeric_memory s max
  have two := start_two hex
  rw [result, if_neg]
  rintro ⟨⟨some_, inside⟩, semicolon⟩
  refine no hex digits ⟨amp, hash, mark (by omega), run, List.length_pos_iff.mp some_, semicolon⟩ ?_
  unfold numericLength
  omega

theorem namedEntities_row : ∀ e ∈ namedEntities, e.consumed = e.name.length ∧ 0 < e.consumed ∧ (e.consumed : Int) ≤ e.bound ∧
    IsScalar e.cp ∧
      (e.bound = e.consumed ∨ e.name = ascii "&deg;" ∧ e.bound = 6 ∨ e.name = ascii "&euro;" ∧ e.bound = 7) := by decide +kernel

theorem namedEntities_apart : ∀ e ∈ namedEntities, ∀ e' ∈ namedEntities,
    (e.name.map toLowerByte).take e'.name.length = (e'.name.map toLowerByte).take e.name.length → e = e' := by decide +kernel

theorem namedEntities_head : ∀ e ∈ namedEntities, 2 ≤ e.name.length ∧ (e.name.map toLowerByte)[0]? = some 38 ∧ (e.name.map toLowerByte)[1]? ≠ some 35 := by
  decide +kernel

theorem Starts.map_eq {name : List UInt8} (starts : Starts s i name) :
    name.map toLowerByte = (List.range name.length).map fun k => toLowerByte (s (i + k)) := by
  induction name generalizing i with
  | nil => rfl
  | cons c name ih =>
    rw [List.map_cons, ih starts.2, ← starts.1, List.length_cons, List.range_succ_eq_map, List.map_cons, List.map_map]
    refine congrArg _ (List.map_congr_left fun k _ => ?_)
    show toLowerByte (s (i + 1 + k)) = toLowerByte (s (i + (k + 1)))
    rw [Nat.add_assoc, Nat.add_comm 1]

theorem Starts.unique {e e' : Named} (starts : Starts s 0 e.name) (starts' : Starts s 0 e'.name) (member : e ∈ namedEntities)
    (member' : e' ∈ namedEntities) : e = e' := by
  refine namedEntities_apart e member e' member' ?_
  rw [starts.map_eq, starts'.map_eq, ← List.map_take, ← List.map_take, List.take_range, List.take_range, Nat.min_comm]

theorem toLowerByte_amp {c : UInt8} (lower : toLowerByte c = 38) : c = 38 := by
  unfold toLowerByte at lower
  split at lower
  · rename_i letter
    have low := UInt8.le_iff_toNat_le.mp letter.1
    have high := UInt8.le_iff_toNat_le.mp letter.2
    have sum := congrArg UInt8.toNat lower
    rw [UInt8.toNat_add] at sum
    simp only [UInt8.reduceToNat] at low high sum
    omega
  · exact lower

theorem Starts.amp {e : Named} (starts : Starts s 0 e.name) (member : e ∈ namedEntities) : s 0 = 38 ∧ s 1 ≠ 35 := by
  obtain ⟨long, first, second⟩ := namedEntities_head e member
  rw [starts.map_eq, List.getElem?_map, List.getElem?_range (by omega), Option.map_some] at first second
  refine ⟨toLowerByte_amp (Option.some.inj first), fun hash => second ?_⟩
  show some (toLowerByte (s (0 + 1))) = some 35
  rw [Nat.zero_add, hash]
  rfl

theorem decodeEntity_named {e : Named} (member : e ∈ namedEntities) (starts : Starts s 0 e.name) (small : e.bound ≤ max) :
    decodeEntity (memory s) max = .ok (e.consumed, utf8Encode e.cp) := by
  have found : matchNamed (memory s) max namedEntities = .ok (some e) := by
    rcases matchNamed_memory s max namedEntities with ⟨-, no⟩ | ⟨e', member', found, -, starts'⟩
    · exact absurd starts (no e member small)
    · rw [found, starts.unique starts' member member']
  unfold decodeEntity
  simp only [memory, bind, Except.bind] at found ⊢
  rw [(starts.amp member).1, if_neg (by decide)]
  simp only [found]

theorem decodeEntity_numeric (numeric : Numeric s hex digits) (fits : numericLength hex digits ≤ max) :
    decodeEntity (memory s) max = .ok (numericLength hex digits, utf8Encode (wrapInt (numberOf hex digits))) := by
  have found : matchNamed (memory s) max namedEntities = .ok none := by
    rcases matchNamed_memory s max namedEntities with ⟨none_, -⟩ | ⟨e, member, -, -, starts⟩
    · exact none_
    · exact absurd numeric.hash (starts.amp member).2
  have decoded := decodeNumeric_some numeric fits
  unfold decodeEntity
  simp only [memory, bind, Except.bind] at found decoded ⊢
  rw [numeric.amp, numeric.hash, if_neg (by decide)]
  simp only [found, decoded, if_true]

theorem decodeEntity_nothing (unnamed : ∀ e ∈ namedEntities, e.bound ≤ max → ¬ Starts s 0 e.name)
    (no : ∀ hex digits, Numeric s hex digits → ¬ (numericLength hex digits : Int) ≤ max) : decodeEntity (memory s) max = .ok (0, []) := by
  have found : matchNamed (memory s) max namedEntities = .ok none := by
    rcases matchNamed_memory s max namedEntities with ⟨none_, -⟩ | ⟨e, member, -, small, starts⟩
    · exact none_
    · exact absurd starts (unnamed e member small)
  unfold decodeEntity
  by_cases amp : s 0 = 38
  · by_cases hash : s 1 = 35
    · have decoded := decodeNumeric_none amp hash no
      simp only [memory, bind, Except.bind] at found decoded ⊢
      rw [amp, hash, if_neg (by decide)]
      simp only [found, decoded, if_true]
    · simp only [memory, bind, Except.bind] at found ⊢
      rw [amp, if_neg (by decide)]
      simp only [found, if_neg hash]
  · simp only [memory, bind, Except.bind]
    rw [if_pos amp]

theorem decodeEntity_cases (s : Mem) (max : Int) :
    (∃ e ∈ namedEntities, Starts s 0 e.name ∧ e.bound ≤ max ∧ decodeEntity (memory s) max = .ok (e.consumed, utf8Encode e.cp)) ∨
      (∃ hex digits, Numeric s hex digits ∧ numericLength hex digits ≤ max ∧
        decodeEntity (memory s) max = .ok (numericLength hex digits, utf8Encode (wrapInt (numberOf hex digits)))) ∨
      decodeEntity (memory s) max = .ok (0, []) := by
  by_cases named : ∃ e ∈ namedEntities, e.bound ≤ max ∧ Starts s 0 e.name
  · obtain ⟨e, member, small, starts⟩ := named
    exact Or.inl ⟨e, member, starts, small, decodeEntity_named member starts small⟩
  by_cases numbered : ∃ hex digits, Numeric s hex digits ∧ (numericLength hex digits : Int) ≤ max
  · obtain ⟨hex, digits, numeric, fits⟩ := numbered
    exact Or.inr (Or.inl ⟨hex, digits, numeric, fits, decodeEntity_numeric numeric fits⟩)
  · refine Or.inr (Or.inr (decodeEntity_nothing (fun e member small starts => named ⟨e, member, small, starts⟩) ?_))
    exact fun hex digits numeric fits => numbered ⟨hex, digits, numeric, fits⟩

end

theorem scalarOf_scalar (v : Nat) : IsScalar (scalarOf v) := by
  unfold scalarOf
  split
  · assumption
  · decide

theorem toNat_ofNat {v : Nat} (scalar : IsScalar v) : (Char.ofNat v).toNat = v := by
  unfold Char.ofNat
  rw [dif_pos (show v.isValidChar from scalar)]
  rfl

theorem utf8Encode_scalar {v : Nat} (scalar : IsScalar v) : utf8Encode v = String.utf8EncodeChar (Char.ofNat v) := by
  rw [← utf8Encode_char, toNat_ofNat scalar]

theorem ofNat_inj {a b : Nat} (small : a < 256) (small' : b < 256) (same : UInt8.ofNat a = UInt8.ofNat b) : a = b := by
  have bytes := congrArg UInt8.toNat same
  rw [UInt8.toNat_ofNat_of_lt' small, UInt8.toNat_ofNat_of_lt' small'] at bytes
  exact bytes

theorem utf8Encode_replacement {v : Nat} (small : v ≤ 0x10FFFF) (same : utf8Encode v = utf8Encode 0xFFFD) : v = 0xFFFD := by
  have replacement : utf8Encode 0xFFFD = [UInt8.ofNat 0xEF, UInt8.ofNat 0xBF, UInt8.ofNat 0xBD] := by decide
  have inside : ¬ ((v : Int) < 0 ∨ (v : Int) > 0x10FFFF) := by omega
  rw [replacement, utf8Encode, if_neg inside, Int.toNat_natCast] at same
  simp only [Nat.shiftRight_eq_div_pow, and_trail] at same
  rcases Nat.lt_or_ge v 0x80 with one | more
  · rw [if_pos one] at same
    cases (List.cons.inj same).2
  rw [if_neg (Nat.not_lt.mpr more)] at same
  rcases Nat.lt_or_ge v 0x800 with two | more
  · rw [if_pos two] at same
    cases (List.cons.inj (List.cons.inj same).2).2
  rw [if_neg (Nat.not_lt.mpr more)] at same
  rcases Nat.lt_or_ge v 0x10000 with three | more
  · rw [if_pos three, lor_three _ (by omega), lor_trail _ (Nat.mod_lt _ (by decide)), lor_trail _ (Nat.mod_lt _ (by decide))] at same
    obtain ⟨first, rest⟩ := List.cons.inj same
    obtain ⟨second, rest⟩ := List.cons.inj rest
    have first := ofNat_inj (by omega) (by decide) first
    have second := ofNat_inj (by omega) (by decide) second
    have third := ofNat_inj (by omega) (by decide) (List.cons.inj rest).1
    omega
  · rw [if_neg (Nat.not_lt.mpr more)] at same
    cases (List.cons.inj (List.cons.inj (List.cons.inj same).2).2).2

theorem utf8Encode_outside {cp : Int} (outside : cp < 0 ∨ cp > 0x10FFFF) : utf8Encode cp = utf8Encode 0xFFFD := by
  unfold utf8Encode
  rw [if_pos outside]
  rfl

theorem wrapInt_residue (v : Nat) :
    v % 2 ^ 32 ≤ 0x10FFFF ∧ wrapInt v = (v % 2 ^ 32 : Nat) ∨ 0x10FFFF < v % 2 ^ 32 ∧ (wrapInt v < 0 ∨ wrapInt v > 0x10FFFF) := by
  have residue := wrapInt_emod v
  have low := wrapInt_low v
  have high := wrapInt_high v
  omega

theorem not_scalar {v : Nat} : ¬ IsScalar v ↔ (0xD800 ≤ v ∧ v ≤ 0xDFFF) ∨ 0x10FFFF < v := by
  unfold IsScalar Nat.isValidChar
  omega

theorem value_encoded (v : Nat) : utf8Encode (wrapInt v) = utf8Encode (scalarOf v) ↔ ValueFits v := by
  unfold ValueFits scalarOf
  by_cases scalar : IsScalar v
  · have inside := not_not.mpr scalar
    rw [not_scalar] at inside
    have fits : wrapInt v = v := wrapInt_of_fits (by omega) (by omega)
    rw [if_pos scalar, fits]
    exact iff_of_true rfl ⟨by omega, Or.inl (by omega)⟩
  · rw [if_neg scalar]
    rw [not_scalar] at scalar
    rcases wrapInt_residue v with ⟨small, same⟩ | ⟨large, outside⟩
    · rw [same]
      constructor
      · intro encoded
        have replaced := utf8Encode_replacement small encoded
        exact ⟨by omega, by omega⟩
      · rintro ⟨surrogate, fits⟩
        have replaced : v % 2 ^ 32 = 0xFFFD := by omega
        rw [replaced]
    · exact iff_of_true (utf8Encode_outside outside) ⟨by omega, Or.inr (Or.inl large)⟩

section
variable {s : Mem} {max : Int} {hex : Bool} {digits : List Nat}

theorem numericLength_pos (hex : Bool) (digits : List Nat) : 0 < numericLength hex digits := Nat.succ_pos _

theorem decodesRight_named {e : Named} (fits : EntityFits s max) (member : e ∈ namedEntities) (starts : Starts s 0 e.name)
    (small : e.bound ≤ max) : DecodesRight s max := by
  have decoded := decodeEntity_named member starts small
  obtain ⟨length, some_, le, scalar, bound⟩ := namedEntities_row e member
  have exact_ : e.bound = e.consumed := by
    rcases bound with same | ⟨deg, six⟩ | ⟨euro, seven⟩
    · exact same
    · have less := fits.deg (deg ▸ starts)
      omega
    · have less := fits.euro (euro ▸ starts)
      omega
  refine ⟨⟨_, decoded⟩, ?_, ?_, ?_⟩
  all_goals
    intro n bytes result _
    rw [decoded] at result
    cases result
  · omega
  · exact fun m enough => decodeEntity_named member starts (by omega)
  · refine ⟨Char.ofNat e.cp, Or.inl ⟨e, member, starts, length, toNat_ofNat scalar⟩, utf8Encode_scalar scalar⟩

theorem decodesRight_numeric (fits : EntityFits s max) (numeric : Numeric s hex digits) (room : numericLength hex digits ≤ max) :
    DecodesRight s max := by
  have decoded := decodeEntity_numeric numeric room
  refine ⟨⟨_, decoded⟩, ?_, ?_, ?_⟩
  all_goals
    intro n bytes result _
    rw [decoded] at result
    cases result
  · exact room
  · exact fun m enough => decodeEntity_numeric numeric enough
  · have scalar := scalarOf_scalar (numberOf hex digits)
    refine ⟨Char.ofNat (scalarOf (numberOf hex digits)), Or.inr ⟨hex, digits, numeric, rfl, toNat_ofNat scalar⟩, ?_⟩
    rw [(value_encoded _).mpr (fits.value hex digits numeric room), utf8Encode_scalar scalar]

theorem decodeEntity_below {e : Named} (member : e ∈ namedEntities) (starts : Starts s 0 e.name) (less : max < e.bound) :
    decodeEntity (memory s) max = .ok (0, []) := by
  refine decodeEntity_nothing (fun e' member' small starts' => ?_) fun hex digits numeric => absurd numeric.hash (starts.amp member).2
  have same := starts.unique starts' member member'
  subst same
  omega

theorem bound_of_right (right : DecodesRight s max) {e : Named} (member : e ∈ namedEntities) (starts : Starts s 0 e.name)
    (long : (e.consumed : Int) < e.bound) : max < e.bound := by
  by_contra small
  have some_ := (namedEntities_row e member).2.1
  have alike := right.alike _ _ (decodeEntity_named member starts (Int.not_lt.mp small)) some_ e.consumed (Int.le_refl _)
  rw [decodeEntity_below member starts long] at alike
  have none_ := congrArg Prod.fst (Except.ok.inj alike)
  exact absurd none_ (Nat.ne_of_lt some_)

theorem value_of_right (right : DecodesRight s max) (numeric : Numeric s hex digits) (room : numericLength hex digits ≤ max) :
    ValueFits (numberOf hex digits) := by
  obtain ⟨c, denotes, bytes⟩ := right.encoded _ _ (decodeEntity_numeric numeric room) (numericLength_pos hex digits)
  rcases denotes with ⟨e, member, starts, -⟩ | ⟨hex', digits', numeric', -, value⟩
  · exact absurd numeric.hash (starts.amp member).2
  · obtain ⟨rfl, rfl⟩ := numeric.unique numeric'
    rw [← utf8Encode_char, value] at bytes
    exact (value_encoded _).mp bytes

end

/-- Entities are decoded as they should be if and only if they are none of the two names with a bound that is too large, and
the value of a number fits. -/
theorem decodeEntity_iff (s : Mem) (max : Int) : DecodesRight s max ↔ EntityFits s max := by
  constructor
  · intro right
    refine ⟨fun starts => ?_, fun starts => ?_, fun hex digits numeric room => value_of_right right numeric room⟩
    · have row : ⟨6, ascii "&deg;", 0xB0, 5⟩ ∈ namedEntities := by decide
      exact bound_of_right right row starts (by decide)
    · have row : ⟨7, ascii "&euro;", 0x20AC, 6⟩ ∈ namedEntities := by decide
      exact bound_of_right right row starts (by decide)
  · intro fits
    rcases decodeEntity_cases s max with ⟨e, member, starts, small, -⟩ | ⟨hex, digits, numeric, room, -⟩ | nothing
    · exact decodesRight_named fits member starts small
    · exact decodesRight_numeric fits numeric room
    · refine ⟨⟨_, nothing⟩, ?_, ?_, ?_⟩
      all_goals
        intro n bytes result some_
        rw [nothing] at result
        cases result
        cases some_

/-- `&deg;` is decoded with a maximum of six, but not with five, although it has five characters. A surrogate is encoded like
a scalar value, and 2^32 + 65 is decoded to an `A`. -/
theorem decodeEntity_wrong :
    decodeEntity (memory fun i => (ascii "&deg;").getD i 0) 6 = .ok (5, [0xC2, 0xB0]) ∧
    decodeEntity (memory fun i => (ascii "&deg;").getD i 0) 5 = .ok (0, []) ∧
    decodeEntity (memory fun i => (ascii "&#xD800;").getD i 0) 8 = .ok (8, [0xED, 0xA0, 0x80]) ∧
    decodeEntity (memory fun i => (ascii "&#4294967361;").getD i 0) 13 = .ok (13, [65]) ∧
    ¬ DecodesRight (fun i => (ascii "&deg;").getD i 0) 6 ∧ ¬ DecodesRight (fun i => (ascii "&#4294967361;").getD i 0) 13 := by
  have degree : decodeEntity (memory fun i => (ascii "&deg;").getD i 0) 6 = .ok (5, [0xC2, 0xB0]) := by decide +kernel
  have shorter : decodeEntity (memory fun i => (ascii "&deg;").getD i 0) 5 = .ok (0, []) := by decide +kernel
  have wrapped : decodeEntity (memory fun i => (ascii "&#4294967361;").getD i 0) 13 = .ok (13, [65]) := by decide +kernel
  refine ⟨degree, shorter, by decide +kernel, wrapped, fun right => ?_, fun right => ?_⟩
  · have alike := right.alike 5 _ degree (by decide) 5 (by decide)
    rw [shorter] at alike
    cases alike
  · have numeric : Numeric (fun i => (ascii "&#4294967361;").getD i 0) false [4, 2, 9, 4, 9, 6, 7, 3, 6, 1] :=
      ⟨by decide +kernel, by decide +kernel, by decide +kernel, by simp only [Digits]; decide +kernel, by decide, by decide +kernel⟩
    exact absurd (value_of_right right numeric (by decide)).2 (by decide +kernel)

end RexOs.Desktop.Browser
