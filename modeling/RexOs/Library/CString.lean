import Mathlib.Data.List.TakeWhile
import Mathlib.Data.UInt

/-! Strings of C as lists of bytes: searching, comparing without case, and reading numbers.

A string ends at its first zero byte. `long` has 64 bits, and a number that does not fit is cut
to the nearest one that does.
-/

set_option autoImplicit false

namespace RexOs.Library

def toLowerByte (c : UInt8) : UInt8 := if 65 ≤ c ∧ c ≤ 90 then c + 32 else c

def isSpaceByte (c : UInt8) : Bool := c = 32 ∨ 9 ≤ c ∧ c ≤ 13

def digitValue (c : UInt8) : Option Nat :=
  if 48 ≤ c ∧ c ≤ 57 then some (c.toNat - 48)
  else if 97 ≤ toLowerByte c ∧ toLowerByte c ≤ 122 then some ((toLowerByte c).toNat - 87)
  else none

def IsDigit (base : Nat) (c : UInt8) : Prop := ∃ v, digitValue c = some v ∧ v < base

instance (base : Nat) (c : UInt8) : Decidable (IsDigit base c) := inferInstanceAs (Decidable (∃ v ∈ digitValue c, v < base))

def readDigits (base acc : Nat) : List UInt8 → Nat
  | [] => acc
  | c :: rest =>
      match digitValue c with
      | some v => if v < base then readDigits base (acc * base + v) rest else acc
      | none => acc

def clampLong (i : Int) : Int := max (-(2 ^ 63)) (min i (2 ^ 63 - 1))

def splitSign (s : List UInt8) : Bool × List UInt8 :=
  if s.head? = some 45 then (true, s.tail) else if s.head? = some 43 then (false, s.tail) else (false, s)

def skipHexPrefix (s : List UInt8) : List UInt8 :=
  if s.take 2 = [48, 120] ∨ s.take 2 = [48, 88] then s.drop 2 else s

def strtol (base : Nat) (s : List UInt8) : Int :=
  let (negative, s) := splitSign (s.dropWhile isSpaceByte)
  let s := if base = 16 then skipHexPrefix s else s
  clampLong (if negative then -(readDigits base 0 s) else readDigits base 0 s)

def atol (s : List UInt8) : Int := strtol 10 s

/-- The `long` is cut to an `int` of 32 bits. -/
def atoi (s : List UInt8) : Int := Int.bmod (strtol 10 s) (2 ^ 32)

def firstAt (needle : List UInt8) : List UInt8 → Option Nat
  | [] => if needle = [] then some 0 else none
  | c :: rest => if needle <+: c :: rest then some 0 else (firstAt needle rest).map (· + 1)

def strstr (needle s : List UInt8) : Option Nat := firstAt needle (s.takeWhile (· ≠ 0))

def hasNoCase (needle s : List UInt8) : Bool := (firstAt (needle.map toLowerByte) (s.map toLowerByte)).isSome

def startsNoCase (start s : List UInt8) : Bool := (s.take start.length).map toLowerByte = start.map toLowerByte

variable {needle : List UInt8}

theorem firstAt_fits {s : List UInt8} {i : Nat} (found : firstAt needle s = some i) : i + needle.length ≤ s.length := by
  induction s generalizing i with
  | nil =>
    rw [firstAt] at found
    split at found
    · rename_i empty
      rw [empty, ← Option.some.inj found]
      exact Nat.le_refl _
    · cases found
  | cons c rest ih =>
    rw [firstAt] at found
    split at found
    · rename_i here
      rw [← Option.some.inj found, Nat.zero_add]
      exact here.length_le
    · obtain ⟨j, later, rfl⟩ := Option.map_eq_some_iff.mp found
      have fits := ih later
      rw [List.length_cons]
      omega

theorem firstAt_stands {s : List UInt8} {i : Nat} (found : firstAt needle s = some i) : needle <+: s.drop i := by
  induction s generalizing i with
  | nil =>
    rw [firstAt] at found
    split at found
    · rename_i empty
      rw [empty]
      exact List.nil_prefix
    · cases found
  | cons c rest ih =>
    rw [firstAt] at found
    split at found
    · rename_i here
      rw [← Option.some.inj found]
      exact here
    · obtain ⟨j, later, rfl⟩ := Option.map_eq_some_iff.mp found
      exact ih later

theorem firstAt_append {s : List UInt8} {i : Nat} (found : firstAt needle s = some i) (t : List UInt8) :
    firstAt needle (s ++ t) = some i := by
  induction s generalizing i with
  | nil =>
    rw [firstAt] at found
    split at found
    · rename_i empty
      subst empty
      cases t with
      | nil => exact found
      | cons c rest =>
        rw [List.nil_append, firstAt, if_pos (List.nil_prefix)]
        exact found
    · cases found
  | cons c rest ih =>
    rw [firstAt] at found
    rw [List.cons_append, firstAt]
    split at found
    · rename_i here
      have still : needle <+: c :: (rest ++ t) := here.trans (List.prefix_append (c :: rest) t)
      rw [if_pos still]
      exact found
    · rename_i away
      obtain ⟨j, later, same⟩ := Option.map_eq_some_iff.mp found
      have fits := firstAt_fits later
      rw [if_neg, ih later, Option.map_some, same]
      intro here
      apply away
      apply List.prefix_of_prefix_length_le here (List.prefix_append (c :: rest) t)
      rw [List.length_cons]
      omega

theorem firstAt_here {s : List UInt8} (here : needle <+: s) : firstAt needle s = some 0 := by
  cases s with
  | nil => rw [firstAt, if_pos (List.prefix_nil.mp here)]
  | cons c rest => rw [firstAt, if_pos here]

theorem firstAt_take {s : List UInt8} {i : Nat} (found : firstAt needle s = some i) :
    firstAt needle (s.take (i + needle.length)) = some i := by
  induction s generalizing i with
  | nil =>
    rw [List.take_nil]
    exact found
  | cons c rest ih =>
    rw [firstAt] at found
    split at found
    · rename_i here
      cases found
      apply firstAt_here
      rw [List.prefix_take_iff, Nat.zero_add]
      exact ⟨here, Nat.le_refl _⟩
    · rename_i away
      obtain ⟨j, later, rfl⟩ := Option.map_eq_some_iff.mp found
      rw [Nat.add_right_comm, List.take_succ_cons, firstAt, if_neg, ih later, Option.map_some]
      intro here
      apply away
      exact here.trans (List.prefix_cons_inj c |>.mpr (List.take_prefix _ _))

theorem firstAt_none {s t : List UInt8} {i : Nat} (found : firstAt needle (s ++ t) = some i)
    (short : s.length < i + needle.length) : firstAt needle s = none := by
  rw [Option.eq_none_iff_forall_ne_some]
  intro j here
  have same := (firstAt_append here t).symm.trans found
  have fits := firstAt_fits here
  rw [Option.some.inj same] at fits
  omega

theorem strstr_fits {s : List UInt8} {i : Nat} (found : strstr needle s = some i) : i + needle.length ≤ s.length := by
  have fits := firstAt_fits found
  have shorter := (List.takeWhile_prefix (fun c : UInt8 => decide (c ≠ 0)) (l := s)).length_le
  omega

theorem strstr_kept {s : List UInt8} {i : Nat} (found : strstr needle s = some i) (t : List UInt8) :
    strstr needle (s.take (i + needle.length) ++ t) = some i := by
  unfold strstr at found ⊢
  have fits := firstAt_fits found
  have whole : s.take (i + needle.length) = (s.takeWhile (· ≠ 0)).take (i + needle.length) := by
    conv_lhs => rw [← List.takeWhile_append_dropWhile (p := (· ≠ 0)) (l := s)]
    rw [List.take_append_of_le_length fits]
  have text : ∀ c ∈ s.take (i + needle.length), decide (c ≠ 0) = true := by
    intro c member
    rw [whole] at member
    have early := List.mem_of_mem_take member
    exact List.mem_takeWhile_imp (p := fun c : UInt8 => decide (c ≠ 0)) early
  rw [List.takeWhile_append_of_pos text, whole]
  exact firstAt_append (firstAt_take found) _

theorem digit_not_space {base : Nat} {c : UInt8} (digit : IsDigit base c) : isSpaceByte c = false ∧ c ≠ 45 ∧ c ≠ 43 := by
  obtain ⟨v, value, _⟩ := digit
  refine ⟨?_, ?_, ?_⟩
  · apply Bool.eq_false_iff.mpr
    intro space
    have all : ∀ n : Fin 256, isSpaceByte (UInt8.ofFin n) = true → digitValue (UInt8.ofFin n) = none := by decide +kernel
    have none_ : digitValue c = none := all c.toFin space
    rw [none_] at value
    cases value
  · rintro rfl
    cases value
  · rintro rfl
    cases value

def digitsValue (base : Nat) (s : List UInt8) : Nat := readDigits base 0 s

theorem readDigits_stop {base : Nat} {digits tail : List UInt8} (all : ∀ c ∈ digits, IsDigit base c)
    (stop : ∀ c ∈ tail.head?, ¬ IsDigit base c) (acc : Nat) :
    readDigits base acc (digits ++ tail) = readDigits base acc digits := by
  induction digits generalizing acc with
  | nil =>
    cases tail with
    | nil => rfl
    | cons c tail =>
      rw [List.nil_append, readDigits, readDigits]
      cases value : digitValue c with
      | none => rfl
      | some v =>
        have large : ¬ v < base := fun small => stop c rfl ⟨v, value, small⟩
        simp only [large, if_false]
  | cons c digits ih =>
    obtain ⟨v, value, small⟩ := all c (List.mem_cons_self ..)
    simp only [List.cons_append, readDigits, value, small, if_true]
    exact ih (fun x member => all x (List.mem_cons_of_mem _ member)) _

theorem skipHexPrefix_digits {c : UInt8} {digits tail : List UInt8} (all : ∀ x ∈ c :: digits, IsDigit 16 x)
    (stop : ∀ x ∈ tail.head?, x ≠ 120 ∧ x ≠ 88) : skipHexPrefix (c :: digits ++ tail) = c :: digits ++ tail := by
  -- the letter x is no digit
  have second : ∀ x ∈ (digits ++ tail).head?, x ≠ 120 ∧ x ≠ 88 := by
    intro x head
    cases digits with
    | nil => exact stop x head
    | cons d digits =>
      obtain ⟨v, value, small⟩ := all x (List.mem_cons_of_mem _ (by cases head; exact List.mem_cons_self ..))
      constructor <;> rintro rfl <;> cases value <;> exact absurd small (by decide)
  rw [List.cons_append]
  generalize digits ++ tail = rest at second
  rw [skipHexPrefix, if_neg]
  cases rest with
  | nil => exact fun short => by rcases short with short | short <;> cases short
  | cons x rest =>
    obtain ⟨small, large⟩ := second x rfl
    rintro (same | same)
    · exact small (List.cons.inj (List.cons.inj same).2).1
    · exact large (List.cons.inj (List.cons.inj same).2).1

theorem strtol_hex {digits tail : List UInt8} (some_ : digits ≠ []) (all : ∀ c ∈ digits, IsDigit 16 c)
    (stop : ∀ c ∈ tail.head?, ¬ IsDigit 16 c ∧ c ≠ 120 ∧ c ≠ 88) (fits : digitsValue 16 digits < 2 ^ 63) :
    strtol 16 (digits ++ tail) = digitsValue 16 digits := by
  cases digits with
  | nil => exact absurd rfl some_
  | cons c digits =>
    obtain ⟨space, minus, plus⟩ := digit_not_space (all c (List.mem_cons_self ..))
    have trimmed : (c :: digits ++ tail).dropWhile isSpaceByte = c :: digits ++ tail := by
      rw [List.cons_append, List.dropWhile_cons_of_neg]
      rw [space]
      exact Bool.false_ne_true
    have unsigned : splitSign (c :: digits ++ tail) = (false, c :: digits ++ tail) := by
      rw [splitSign, if_neg, if_neg]
      · exact fun head => plus (Option.some.inj head)
      · exact fun head => minus (Option.some.inj head)
    have value : readDigits 16 0 (c :: digits ++ tail) = digitsValue 16 (c :: digits) :=
      readDigits_stop all (fun x head => (stop x head).1) 0
    have prefixed := skipHexPrefix_digits all fun x head => (stop x head).2
    simp only [strtol, trimmed, unsigned, if_true, prefixed, value, Bool.false_eq_true, if_false, clampLong]
    omega

end RexOs.Library
