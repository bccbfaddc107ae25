import Mathlib.Data.List.Count

/-! Canonical prefix codes.

A code is given by the list of its code lengths, one for each symbol, with 0 for
a symbol that has no code. The codes of one length are consecutive numbers in
the order of their symbols, and they start at twice the end of the codes of the
length before.
-/

set_option autoImplicit false

namespace RexOs.Library

def firstCode (lengths : List Nat) : Nat → Nat
  | 0 => 0
  | len + 1 => 2 * (firstCode lengths len + if len = 0 then 0 else lengths.count len)

/-- How many symbols have a code shorter than `len`. -/
def offset (lengths : List Nat) : Nat → Nat
  | 0 => 0
  | len + 1 => offset lengths len + if len = 0 then 0 else lengths.count len

def codeLeft (lengths : List Nat) : Nat → Int
  | 0 => 1
  | len + 1 => 2 * codeLeft lengths len - lengths.count (len + 1)

/-- How many symbols before `sym` have a code as long as that of `sym`. -/
def rank (lengths : List Nat) (sym : Nat) : Nat := (lengths.take sym).count (lengths.getD sym 0)

def place (lengths : List Nat) (sym : Nat) : Nat := offset lengths (lengths.getD sym 0) + rank lengths sym

def canonicalCode (lengths : List Nat) (sym : Nat) : Nat :=
  firstCode lengths (lengths.getD sym 0) + rank lengths sym

variable {lengths : List Nat} {sym sym' len len' : Nat}

theorem rank_lt (inside : sym < lengths.length) : rank lengths sym < lengths.count (lengths.getD sym 0) := by
  have split : lengths = lengths.take sym ++ lengths[sym] :: lengths.drop (sym + 1) := by simp
  have value : lengths.getD sym 0 = lengths[sym] := by simp [List.getD, inside]
  unfold rank
  rw [value]
  calc (lengths.take sym).count lengths[sym]
      < (lengths.take sym).count lengths[sym] + (lengths[sym] :: lengths.drop (sym + 1)).count lengths[sym] := by
        rw [List.count_cons_self]; omega
    _ = lengths.count lengths[sym] := by rw [← List.count_append, ← split]

theorem rank_succ (len : Nat) (inside : sym < lengths.length) :
    (lengths.take (sym + 1)).count len =
      (lengths.take sym).count len + if lengths.getD sym 0 = len then 1 else 0 := by
  have value : lengths.getD sym 0 = lengths[sym] := by simp [List.getD, inside]
  rw [List.take_succ_eq_append_getElem inside, List.count_append, value, List.count_singleton]
  simp [beq_iff_eq]

theorem offset_mono (lengths : List Nat) (le : len ≤ len') : offset lengths len ≤ offset lengths len' := by
  induction le with
  | refl => exact Nat.le_refl _
  | step _ ih => exact Nat.le_trans ih (by simp only [offset]; omega)

theorem offset_cons (x : Nat) (len : Nat) :
    offset (x :: lengths) (len + 1) = offset lengths (len + 1) + if 0 < x ∧ x ≤ len then 1 else 0 := by
  induction len with
  | zero =>
    have none : ¬ (0 < x ∧ x ≤ 0) := by omega
    rw [if_neg none]
    rfl
  | succ len ih =>
    have step : ∀ l : List Nat, offset l (len + 1 + 1) = offset l (len + 1) + l.count (len + 1) := by
      intro l
      simp [offset]
    rw [step, step, ih, List.count_cons]
    simp only [beq_iff_eq]
    split <;> split <;> split <;> omega

theorem offset_le (lengths : List Nat) (len : Nat) :
    offset lengths (len + 1) + lengths.count 0 ≤ lengths.length := by
  induction lengths with
  | nil =>
    have : offset [] (len + 1) = 0 := by
      induction len with
      | zero => rfl
      | succ len ih => simp [offset] at ih ⊢; exact ih
    simp [this]
  | cons x xs ih =>
    rw [offset_cons, List.count_cons, List.length_cons]
    simp only [beq_iff_eq]
    split <;> split <;> omega

theorem codeLeft_pos (few : offset lengths (len + 1) ≤ 1) : 1 ≤ codeLeft lengths len + offset lengths (len + 1) := by
  induction len with
  | zero =>
    rw [codeLeft]
    omega
  | succ len ih =>
    have step : offset lengths (len + 1 + 1) = offset lengths (len + 1) + lengths.count (len + 1) := by simp [offset]
    have := ih (by omega)
    rw [codeLeft, step]
    omega

theorem place_lt (inside : sym < lengths.length) (coded : lengths.getD sym 0 ≠ 0) :
    place lengths sym < offset lengths (lengths.getD sym 0 + 1) := by
  have := rank_lt inside
  simp only [place, offset, coded, if_false]
  omega

theorem rank_strictMono (before : sym < sym') (inside : sym' < lengths.length)
    (same : lengths.getD sym 0 = lengths.getD sym' 0) : rank lengths sym < rank lengths sym' := by
  have counted := rank_succ (lengths.getD sym 0) (by omega : sym < lengths.length)
  have sub : (lengths.take (sym + 1)).count (lengths.getD sym 0) ≤ (lengths.take sym').count (lengths.getD sym 0) :=
    (List.take_sublist_take_left (by omega)).count_le _
  unfold rank
  rw [← same]
  simp only [if_true] at counted
  omega

theorem place_inj (inside : sym < lengths.length) (inside' : sym' < lengths.length)
    (coded : lengths.getD sym 0 ≠ 0) (coded' : lengths.getD sym' 0 ≠ 0)
    (same : place lengths sym = place lengths sym') : sym = sym' := by
  have below := place_lt inside coded
  have below' := place_lt inside' coded'
  rcases Nat.lt_trichotomy (lengths.getD sym 0) (lengths.getD sym' 0) with shorter | equal | longer
  · have := offset_mono lengths (by omega : lengths.getD sym 0 + 1 ≤ lengths.getD sym' 0)
    simp only [place] at *
    omega
  · simp only [place, equal] at same
    rcases Nat.lt_trichotomy sym sym' with before | rfl | after
    · have := rank_strictMono before inside' equal
      omega
    · rfl
    · have := rank_strictMono after inside equal.symm
      omega
  · have := offset_mono lengths (by omega : lengths.getD sym' 0 + 1 ≤ lengths.getD sym 0)
    simp only [place] at *
    omega

end RexOs.Library
