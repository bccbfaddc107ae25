import Mathlib.Data.UInt

/-! Well-formed UTF-8: the byte sequences of the Unicode table, and the texts made of them.

The first byte of a sequence tells its length, so no sequence is the beginning of another one
and a string has one longest prefix that is a text (`Longest`).
-/

set_option autoImplicit false

namespace RexOs.Library.Utf8

/-- Each row gives the ranges of the bytes of a sequence. -/
def table : List (List (UInt8 × UInt8)) := [
  [(0x00, 0x7F)],
  [(0xC2, 0xDF), (0x80, 0xBF)],
  [(0xE0, 0xE0), (0xA0, 0xBF), (0x80, 0xBF)],
  [(0xE1, 0xEC), (0x80, 0xBF), (0x80, 0xBF)],
  [(0xED, 0xED), (0x80, 0x9F), (0x80, 0xBF)],
  [(0xEE, 0xEF), (0x80, 0xBF), (0x80, 0xBF)],
  [(0xF0, 0xF0), (0x90, 0xBF), (0x80, 0xBF), (0x80, 0xBF)],
  [(0xF1, 0xF3), (0x80, 0xBF), (0x80, 0xBF), (0x80, 0xBF)],
  [(0xF4, 0xF4), (0x80, 0x8F), (0x80, 0xBF), (0x80, 0xBF)]]

def Matches (row : List (UInt8 × UInt8)) (s : List UInt8) : Prop := List.Forall₂ (fun range b => range.1 ≤ b ∧ b ≤ range.2) row s

def WellFormed (s : List UInt8) : Prop := ∃ row ∈ table, Matches row s

/-- The first bytes of a sequence whose other bytes are missing. -/
def Incomplete (s : List UInt8) : Prop := s ≠ [] ∧ ∃ t, t ≠ [] ∧ WellFormed (s ++ t)

/-- The longest prefix of a string that consists of well-formed sequences, and what follows. -/
structure Longest (input : List UInt8) (seqs : List (List UInt8)) (rest : List UInt8) : Prop where
  whole : input = seqs.flatten ++ rest
  formed : ∀ s ∈ seqs, WellFormed s
  longest : ∀ seqs' : List (List UInt8), (∀ s ∈ seqs', WellFormed s) → seqs'.flatten <+: input →
    seqs'.flatten.length ≤ seqs.flatten.length

def Trails (b : UInt8) : Prop := 0x80 ≤ b.toNat ∧ b.toNat < 0xC0

/-- The sequences by their length; the second byte of an `E0` or an `F0` is not one of the smallest. -/
inductive Shape : List UInt8 → Prop where
  | one {a : UInt8} (small : a.toNat < 0x80) : Shape [a]
  | two {a b : UInt8} (low : 0xC2 ≤ a.toNat) (high : a.toNat < 0xE0) (second : Trails b) : Shape [a, b]
  | three {a b c : UInt8} (low : 0xE0 ≤ a.toNat) (high : a.toNat < 0xF0) (second : Trails b) (third : Trails c)
      (long : a.toNat = 0xE0 → 0xA0 ≤ b.toNat) : Shape [a, b, c]
  | four {a b c d : UInt8} (low : 0xF0 ≤ a.toNat) (high : a.toNat < 0xF5) (second : Trails b) (third : Trails c)
      (fourth : Trails d) (long : a.toNat = 0xF0 → 0x90 ≤ b.toNat) : Shape [a, b, c, d]

section
variable {s t : List UInt8} {a : UInt8}

theorem matches_nil : Matches [] s ↔ s = [] := List.forall₂_nil_left_iff

theorem matches_cons {lo hi : UInt8} {row : List (UInt8 × UInt8)} :
    Matches ((lo, hi) :: row) s ↔ ∃ b rest, (lo.toNat ≤ b.toNat ∧ b.toNat ≤ hi.toNat) ∧ Matches row rest ∧ s = b :: rest :=
  List.forall₂_cons_left_iff

theorem WellFormed.shape (formed : WellFormed s) : Shape s := by
  obtain ⟨row, member, fits⟩ := formed
  simp only [table, List.mem_cons, List.not_mem_nil, or_false] at member
  rcases member with rfl | rfl | rfl | rfl | rfl | rfl | rfl | rfl | rfl
  all_goals simp only [matches_cons, matches_nil, UInt8.reduceToNat] at fits
  · obtain ⟨a, _, first, rfl, rfl⟩ := fits
    exact .one (by omega)
  · obtain ⟨a, _, first, ⟨b, _, second, rfl, rfl⟩, rfl⟩ := fits
    exact .two (by omega) (by omega) ⟨by omega, by omega⟩
  iterate 4
    · obtain ⟨a, _, first, ⟨b, _, second, ⟨c, _, third, rfl, rfl⟩, rfl⟩, rfl⟩ := fits
      exact .three (by omega) (by omega) ⟨by omega, by omega⟩ ⟨by omega, by omega⟩ (by omega)
  iterate 3
    · obtain ⟨a, _, first, ⟨b, _, second, ⟨c, _, third, ⟨d, _, fourth, rfl, rfl⟩, rfl⟩, rfl⟩, rfl⟩ := fits
      exact .four (by omega) (by omega) ⟨by omega, by omega⟩ ⟨by omega, by omega⟩ ⟨by omega, by omega⟩ (by omega)

def lengthOf (a : UInt8) : Nat := if a.toNat < 0x80 then 1 else if a.toNat < 0xE0 then 2 else if a.toNat < 0xF0 then 3 else 4

theorem Shape.length (shape : Shape s) (head : s.head? = some a) : s.length = lengthOf a := by
  unfold lengthOf
  cases shape with
  | one small =>
    cases head
    rw [if_pos small]
    rfl
  | two low high second =>
    cases head
    rw [if_neg (by omega), if_pos high]
    rfl
  | three low high second third long =>
    cases head
    rw [if_neg (by omega), if_neg (by omega), if_pos high]
    rfl
  | four low high second third fourth long =>
    cases head
    rw [if_neg (by omega), if_neg (by omega), if_neg (by omega)]
    rfl

theorem WellFormed.cons (formed : WellFormed s) : ∃ a rest, s = a :: rest := by
  cases formed.shape with
  | one _ | two _ _ _ | three _ _ _ _ _ | four _ _ _ _ _ _ => exact ⟨_, _, rfl⟩

theorem WellFormed.unique {input : List UInt8} (formed : WellFormed s) (formed' : WellFormed t) (here : s <+: input)
    (here' : t <+: input) : s = t := by
  obtain ⟨a, rest, rfl⟩ := formed.cons
  obtain ⟨b, rest', rfl⟩ := formed'.cons
  obtain ⟨tail, rfl⟩ := here
  have same : b = a := (List.cons_prefix_cons.mp here').1
  subst same
  have length := formed.shape.length rfl
  have length' := formed'.shape.length rfl
  have within : b :: rest <+: b :: rest ++ tail := List.prefix_append _ _
  exact (List.prefix_of_prefix_length_le within here' (by omega)).eq_of_length (by omega)

end

section
variable {input rest s : List UInt8} {seqs seqs' : List (List UInt8)}

theorem longest_of_stop (formed : ∀ s ∈ seqs, WellFormed s) (stop : ∀ s, WellFormed s → ¬ s <+: rest)
    (formed' : ∀ s ∈ seqs', WellFormed s) (here : seqs'.flatten <+: seqs.flatten ++ rest) :
    seqs'.flatten.length ≤ seqs.flatten.length := by
  induction seqs' generalizing seqs with
  | nil => exact Nat.zero_le _
  | cons t seqs' ih =>
    rw [List.forall_mem_cons] at formed'
    rw [List.flatten_cons] at here
    have first := (List.prefix_append t seqs'.flatten).trans here
    cases seqs with
    | nil => exact absurd first (stop t formed'.1)
    | cons s seqs =>
      rw [List.forall_mem_cons] at formed
      rw [List.flatten_cons, List.append_assoc] at here first
      have same := formed'.1.unique formed.1 first (List.prefix_append _ _)
      subst same
      rw [List.prefix_append_right_inj] at here
      have rest_ := ih formed.2 formed'.2 here
      rw [List.flatten_cons, List.flatten_cons, List.length_append, List.length_append]
      omega

theorem stop_exists (n : Nat) {input : List UInt8} (short : input.length ≤ n) : ∃ (seqs : List (List UInt8)) (rest : List UInt8),
    input = seqs.flatten ++ rest ∧ (∀ s ∈ seqs, WellFormed s) ∧ ∀ s, WellFormed s → ¬ s <+: rest := by
  induction n generalizing input with
  | zero =>
    refine ⟨[], input, rfl, fun _ none_ => absurd none_ List.not_mem_nil, ?_⟩
    rintro s formed ⟨tail, rfl⟩
    obtain ⟨a, s, rfl⟩ := formed.cons
    cases short
  | succ n ih =>
    by_cases more : ∃ s, WellFormed s ∧ s <+: input
    · obtain ⟨s, formed, tail, rfl⟩ := more
      obtain ⟨a, s, rfl⟩ := formed.cons
      rw [List.length_append, List.length_cons] at short
      have shorter : tail.length ≤ n := by omega
      obtain ⟨seqs, rest, rfl, all, stop⟩ := ih shorter
      exact ⟨(a :: s) :: seqs, rest, by rw [List.flatten_cons, List.append_assoc], List.forall_mem_cons.mpr ⟨formed, all⟩, stop⟩
    · exact ⟨[], input, rfl, fun _ none_ => absurd none_ List.not_mem_nil, fun s formed here => more ⟨s, formed, here⟩⟩

theorem longest_exists (input : List UInt8) : ∃ seqs rest, Longest input seqs rest := by
  obtain ⟨seqs, rest, rfl, formed, stop⟩ := stop_exists input.length (Nat.le_refl input.length)
  exact ⟨seqs, rest, rfl, formed, fun seqs' formed' here => longest_of_stop formed stop formed' here⟩

end

end RexOs.Library.Utf8
