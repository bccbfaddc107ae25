import Mathlib.Data.List.DropRight
import RexOs.User.Url

/-! Response headers: `h_find_header_end`, `h_header_value` and `h_header_content_length` of
`user/http.c`.

A header is cut at the newlines; its value is a place in the response and a length.
-/

set_option autoImplicit false

namespace RexOs.User.Http

open RexOs.Library

def hFindHeaderEnd (raw : List UInt8) : Int :=
  match firstAt [13, 10, 13, 10] raw with
  | some i => i + 4
  | none => -1

def stripReturn (line : List UInt8) : List UInt8 := if line.getLast? = some 13 then line.dropLast else line

def isBlank (c : UInt8) : Bool := c = 32 ∨ c = 9

def headerLoop (name : List UInt8) : Nat → Nat → List UInt8 → Option (Nat × Nat)
  | 0, _, _ => none
  | fuel + 1, pos, rest =>
      if rest = [] then none
      else
        let whole := rest.takeWhile (· ≠ 10)
        let line := stripReturn whole
        if line = [] then none
        else if name.length < line.length ∧ startsNoCase name line ∧ (line)[name.length]? = some 58 then
          let value := line.drop (name.length + 1)
          some (pos + name.length + 1 + (value.takeWhile isBlank).length, ((value.dropWhile isBlank).rdropWhile isBlank).length)
        else headerLoop name fuel (pos + whole.length + 1) (rest.drop (whole.length + 1))

def hHeaderValue (headers : List UInt8) (headerLen : Nat) (name : List UInt8) : Option (Nat × Nat) :=
  let lines := headers.take headerLen
  let first := lines.takeWhile (· ≠ 10)
  headerLoop name (headerLen + 1) (first.length + 1) (lines.drop (first.length + 1))

def hHeaderContentLength (headers : List UInt8) (headerLen : Nat) : Int :=
  match hHeaderValue headers headerLen (text "Content-Length") with
  | some (start, len) => if len = 0 then -1 else hAtoi (headers.drop start)
  | none => -1

def contentLengthDigits (headers : List UInt8) (headerLen : Nat) : Option (List UInt8) :=
  match hHeaderValue headers headerLen (text "Content-Length") with
  | some (start, len) => if len = 0 then none else some (((headers.drop start).take len).takeWhile isDecimal)
  | none => none

def decimal (digits : List UInt8) : Int := readNumber decimalValue 10 0 digits

theorem hAtoi_eq (s : List UInt8) : hAtoi s = wrapInt (decimal (s.takeWhile isDecimal)) := by
  have read := readInt_eq decimalValue 10 0 (s.takeWhile isDecimal)
  rw [wrapInt_of_fits (x := 0) (by decide) (by decide)] at read
  exact read

theorem readNumber_nonneg {digits : List UInt8} (decimals : ∀ c ∈ digits, isDecimal c = true) {acc : Int} (low : 0 ≤ acc) :
    0 ≤ readNumber decimalValue 10 acc digits := by
  induction digits generalizing acc with
  | nil => exact low
  | cons c digits ih =>
    have digit : ∀ n : Fin 256, isDecimal (UInt8.ofFin n) = true → 0 ≤ decimalValue (UInt8.ofFin n) := by decide +kernel
    have positive := digit c.toFin (decimals c (List.mem_cons_self ..))
    apply ih fun d member => decimals d (List.mem_cons_of_mem _ member)
    have positive : 0 ≤ decimalValue c := positive
    show 0 ≤ acc * 10 + decimalValue c
    omega

theorem decimal_nonneg {digits : List UInt8} (decimals : ∀ c ∈ digits, isDecimal c = true) : 0 ≤ decimal digits :=
  readNumber_nonneg decimals (Int.le_refl 0)

def NoDigitAt (s : List UInt8) (i : Nat) : Prop := ∀ c ∈ s[i]?, isDecimal c = false

theorem stripReturn_tail (line : List UInt8) : ∃ tail, line = stripReturn line ++ tail ∧ ∀ c ∈ tail, c = 13 := by
  rw [stripReturn]
  split
  · rename_i last
    refine ⟨[13], ?_, fun c member => List.mem_singleton.mp member⟩
    exact (List.dropLast_append_getLast? 13 last).symm
  · exact ⟨[], (List.append_nil line).symm, fun c member => absurd member List.not_mem_nil⟩

theorem firstLine_split {rest : List UInt8} (ends : rest.getLast? = some 10) :
    ∃ more, rest = rest.takeWhile (· ≠ 10) ++ 10 :: more ∧ (more = [] ∨ more.getLast? = some 10) := by
  induction rest with
  | nil => cases ends
  | cons c rest ih =>
    by_cases newline : c = 10
    · subst newline
      refine ⟨rest, rfl, ?_⟩
      cases rest with
      | nil => exact .inl rfl
      | cons d rest => exact .inr (by rwa [List.getLast?_cons_cons] at ends)
    · cases rest with
      | nil => exact absurd (Option.some.inj ends) newline
      | cons d rest =>
        rw [List.getLast?_cons_cons] at ends
        obtain ⟨more, split_, last⟩ := ih ends
        refine ⟨more, ?_, last⟩
        rw [List.takeWhile_cons_of_pos (by simpa using newline), List.cons_append, ← split_]

theorem noDigitAt_append {front tail : List UInt8} {i : Nat} (length : front.length = i)
    (stop : ∀ c ∈ tail.head?, isDecimal c = false) : NoDigitAt (front ++ tail) i := by
  intro c found
  rw [List.getElem?_append_right (by omega), length, Nat.sub_self, ← List.head?_eq_getElem?] at found
  exact stop c found

theorem white_not_decimal {c : UInt8} (white : isBlank c = true ∨ c = 13 ∨ c = 10) : isDecimal c = false := by
  have all : ∀ n : Fin 256, isBlank (UInt8.ofFin n) = true → isDecimal (UInt8.ofFin n) = false := by decide +kernel
  rcases white with blank | rfl | rfl
  · exact all c.toFin blank
  · rfl
  · rfl

theorem value_split {line value : List UInt8} {n : Nat} (long : n < (stripReturn line).length)
    (behind : (stripReturn line).drop (n + 1) = value) :
    ∃ front tail, line = front ++ tail ∧ (∀ c ∈ tail, isBlank c = true ∨ c = 13) ∧
      front.length = n + 1 + (value.takeWhile isBlank).length + ((value.dropWhile isBlank).rdropWhile isBlank).length := by
  obtain ⟨returns, whole, only⟩ := stripReturn_tail line
  have named := List.take_append_drop (n + 1) (stripReturn line)
  have lead : value.takeWhile isBlank ++ value.dropWhile isBlank = value := List.takeWhile_append_dropWhile
  have trimmed : (value.dropWhile isBlank).rdropWhile isBlank ++ (value.dropWhile isBlank).rtakeWhile isBlank =
      value.dropWhile isBlank := List.rdropWhile_append_rtakeWhile
  refine ⟨(stripReturn line).take (n + 1) ++ (value.takeWhile isBlank ++ (value.dropWhile isBlank).rdropWhile isBlank),
    (value.dropWhile isBlank).rtakeWhile isBlank ++ returns, ?_, ?_, ?_⟩
  · conv_lhs => rw [whole, ← named, behind, ← lead, ← trimmed]
    simp only [List.append_assoc]
  · intro c member
    rcases List.mem_append.mp member with blank | return_
    · exact .inl (List.mem_rtakeWhile_imp blank)
    · exact .inr (only c return_)
  · rw [List.length_append, List.length_append, List.length_take]
    omega

theorem headerLoop_value {name : List UInt8} {fuel pos : Nat} {rest : List UInt8} {start len : Nat}
    (ends : rest = [] ∨ rest.getLast? = some 10) (found : headerLoop name fuel pos rest = some (start, len)) :
    ∃ i, start = pos + i ∧ i + len < rest.length ∧ NoDigitAt rest (i + len) := by
  induction fuel generalizing pos rest with
  | zero => cases found
  | succ fuel ih =>
    rw [headerLoop] at found
    split at found
    · cases found
    rename_i some_
    obtain ⟨more, split_, last⟩ := firstLine_split (ends.resolve_left some_)
    generalize rest.takeWhile (· ≠ 10) = line at found split_
    subst split_
    dsimp only at found
    split at found
    · cases found
    split at found
    · rename_i hit
      have found := Option.some.inj found
      rw [Prod.mk.injEq] at found
      obtain ⟨front, tail, whole, white, length⟩ := value_split hit.1 rfl
      refine ⟨start - pos, by omega, ?_, ?_⟩
      · rw [whole, List.length_append, List.length_append, List.length_cons]
        omega
      · have same : line ++ 10 :: more = front ++ (tail ++ 10 :: more) := by rw [whole, List.append_assoc]
        rw [same]
        apply noDigitAt_append (by omega)
        intro c head
        cases tail with
        | nil => exact white_not_decimal (.inr (.inr (Option.some.inj head).symm))
        | cons d tail =>
          have first : d = c := Option.some.inj head
          exact white_not_decimal ((white c (first ▸ List.mem_cons_self ..)).imp_right .inl)
    · have behind : (line ++ 10 :: more).drop (line.length + 1) = more := by
        rw [← List.drop_drop, List.drop_left]
        rfl
      rw [behind] at found
      obtain ⟨i, rfl, inside, stop⟩ := ih last found
      have place : line.length + 1 + i + len = (line ++ [10]).length + (i + len) := by
        rw [List.length_append, List.length_singleton]
        omega
      refine ⟨line.length + 1 + i, by omega, ?_, ?_⟩
      · rw [List.length_append, List.length_cons]
        omega
      · have same : line ++ 10 :: more = (line ++ [10]) ++ more := by rw [List.append_assoc, List.singleton_append]
        rw [NoDigitAt, place, same, List.getElem?_append_right (Nat.le_add_right _ _), Nat.add_sub_cancel_left]
        exact stop

theorem hFindHeaderEnd_newline {raw : List UInt8} {headerLen : Nat} (found : hFindHeaderEnd raw = headerLen) :
    headerLen ≤ raw.length ∧ (raw.take headerLen).getLast? = some 10 := by
  rw [hFindHeaderEnd] at found
  split at found
  · rename_i i at_
    have place : headerLen = i + 4 := by omega
    have fits : i + 4 ≤ raw.length := firstAt_fits at_
    have text_ : (raw.drop i).take 4 = [13, 10, 13, 10] := (List.prefix_iff_eq_take.mp (firstAt_stands at_)).symm
    rw [place, List.take_add, text_, List.getLast?_append]
    exact ⟨fits, rfl⟩
  · omega

theorem hHeaderValue_stop {raw name : List UInt8} {headerLen start len : Nat} (found : hFindHeaderEnd raw = headerLen)
    (value : hHeaderValue raw headerLen name = some (start, len)) : start + len < headerLen ∧ NoDigitAt raw (start + len) := by
  obtain ⟨-, newline⟩ := hFindHeaderEnd_newline found
  rw [hHeaderValue] at value
  generalize (raw.take headerLen).takeWhile (· ≠ 10) = first at value
  have ends : (raw.take headerLen).drop (first.length + 1) = [] ∨ ((raw.take headerLen).drop (first.length + 1)).getLast? = some 10 := by
    rw [List.getLast?_drop]
    split
    · rename_i short
      exact .inl (List.drop_eq_nil_iff.mpr short)
    · exact .inr newline
  obtain ⟨i, rfl, inside, stop⟩ := headerLoop_value ends value
  rw [List.length_drop] at inside
  have short := List.length_take_le headerLen raw
  refine ⟨by omega, ?_⟩
  intro c at_
  apply stop c
  rw [List.getElem?_drop, List.getElem?_take_of_lt (by omega), ← Nat.add_assoc]
  exact at_

theorem takeWhile_value {s : List UInt8} {len : Nat} (stop : NoDigitAt s len) : s.takeWhile isDecimal = (s.take len).takeWhile isDecimal := by
  have none_ : (s.drop len).takeWhile isDecimal = [] := by
    cases behind : s.drop len with
    | nil => rfl
    | cons c rest =>
      have at_ : s[len]? = some c := by rw [← List.head?_drop, behind, List.head?_cons]
      rw [List.takeWhile_cons_of_neg (by rw [stop c at_]; exact Bool.false_ne_true)]
  conv_lhs => rw [← List.take_append_drop len s]
  rw [List.takeWhile_append, none_, List.append_nil]
  split
  · rename_i all
    exact (List.takeWhile_prefix isDecimal).eq_of_length all |>.symm
  · rfl

theorem hHeaderContentLength_eq {raw : List UInt8} {headerLen : Nat} (found : hFindHeaderEnd raw = headerLen) :
    hHeaderContentLength raw headerLen =
      match contentLengthDigits raw headerLen with
      | some digits => wrapInt (decimal digits)
      | none => -1 := by
  rw [hHeaderContentLength, contentLengthDigits]
  cases value : hHeaderValue raw headerLen (text "Content-Length") with
  | none => rfl
  | some place =>
    rcases place with ⟨start, len⟩
    have stop : NoDigitAt (raw.drop start) len := by
      intro c at_
      rw [List.getElem?_drop] at at_
      exact (hHeaderValue_stop found value).2 c at_
    dsimp only
    split
    · rfl
    · rw [hAtoi_eq, takeWhile_value stop]

theorem hFindHeaderEnd_append {raw : List UInt8} {headerLen : Nat} (found : hFindHeaderEnd raw = headerLen) (more : List UInt8) :
    hFindHeaderEnd (raw ++ more) = headerLen := by
  rw [hFindHeaderEnd] at found ⊢
  split at found
  · rename_i i at_
    rw [firstAt_append at_]
    exact found
  · omega

theorem contentLengthDigits_append {raw : List UInt8} {headerLen : Nat} (found : hFindHeaderEnd raw = headerLen) (more : List UInt8) :
    contentLengthDigits (raw ++ more) headerLen = contentLengthDigits raw headerLen := by
  have fits := (hFindHeaderEnd_newline found).1
  have same : hHeaderValue (raw ++ more) headerLen (text "Content-Length") = hHeaderValue raw headerLen (text "Content-Length") := by
    rw [hHeaderValue, hHeaderValue, List.take_append_of_le_length fits]
  rw [contentLengthDigits, contentLengthDigits, same]
  cases value : hHeaderValue raw headerLen (text "Content-Length") with
  | none => rfl
  | some place =>
    rcases place with ⟨start, len⟩
    have inside := (hHeaderValue_stop found value).1
    have length : len ≤ (raw.drop start).length := by
      rw [List.length_drop]
      omega
    dsimp only
    rw [List.drop_append_of_le_length (by omega), List.take_append_of_le_length length]

end RexOs.User.Http
