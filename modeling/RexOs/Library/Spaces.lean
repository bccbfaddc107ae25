import Mathlib.Data.List.DropRight
import Mathlib.Data.UInt

/-! Texts whose words are separated by one space each.

`collapse` makes every run of spaces and line breaks one space, and `trimEnd` takes the spaces at
the end away. The result is `Tidy`, and a tidy text is not changed by either of them.
-/

set_option autoImplicit false

namespace RexOs.Library

def isBreak (c : UInt8) : Bool := c = 13 ∨ c = 10 ∨ c = 9

structure Tidy (s : List UInt8) : Prop where
  leading : s.head? ≠ some 32
  trailing : s.getLast? ≠ some 32
  doubled : ¬ [32, 32] <:+: s
  breaks : ∀ c ∈ s, isBreak c = false

/-- The flag tells whether a space, or the beginning, comes before. -/
def collapse : Bool → List UInt8 → List UInt8
  | _, [] => []
  | space, c :: rest =>
      if (if isBreak c then 32 else c) = 32 then if space then collapse true rest else 32 :: collapse true rest
      else c :: collapse false rest

def trimEnd (s : List UInt8) : List UInt8 := s.rdropWhile (· = 32)

section
variable {s : List UInt8} {c : UInt8} {space : Bool}

theorem Tidy.nil : Tidy [] := ⟨by simp, by simp, by simp, by simp⟩

theorem collapse_space (blank : (if isBreak c then 32 else c) = 32) :
    collapse space (c :: s) = if space then collapse true s else 32 :: collapse true s := if_pos blank

theorem collapse_letter (letter : ¬ (if isBreak c then 32 else c) = 32) : collapse space (c :: s) = c :: collapse false s :=
  if_neg letter

theorem letter_iff : ¬ (if isBreak c then 32 else c) = 32 ↔ isBreak c = false ∧ c ≠ 32 := by
  cases breaks : isBreak c with
  | true => exact iff_of_false (fun other => other rfl) fun both => Bool.noConfusion both.1
  | false => exact (and_iff_right rfl).symm

theorem collapse_head (s : List UInt8) : (collapse true s).head? ≠ some 32 := by
  induction s with
  | nil => exact fun none_ => by cases none_
  | cons c s ih =>
    by_cases blank : (if isBreak c then 32 else c) = 32
    · rw [collapse_space blank, if_pos rfl]
      exact ih
    · rw [collapse_letter blank, List.head?_cons]
      exact fun same => (letter_iff.mp blank).2 (Option.some.inj same)

theorem collapse_doubled (space : Bool) (s : List UInt8) : ¬ [32, 32] <:+: collapse space s := by
  induction s generalizing space with
  | nil => exact fun infix_ => by simp [collapse] at infix_
  | cons c s ih =>
    by_cases blank : (if isBreak c then 32 else c) = 32
    · rw [collapse_space blank]
      cases space with
      | true => exact ih true
      | false =>
        rw [if_neg Bool.false_ne_true, List.infix_cons_iff]
        rintro (first | later)
        · obtain ⟨tail, whole⟩ := (List.cons_prefix_cons.mp first).2
          refine collapse_head s ?_
          rw [← whole]
          rfl
        · exact ih true later
    · rw [collapse_letter blank, List.infix_cons_iff]
      rintro (first | later)
      · exact (letter_iff.mp blank).2 (List.cons_prefix_cons.mp first).1.symm
      · exact ih false later

theorem collapse_breaks (space : Bool) (s : List UInt8) : ∀ c ∈ collapse space s, isBreak c = false := by
  induction s generalizing space with
  | nil => exact List.forall_mem_nil _
  | cons c s ih =>
    by_cases blank : (if isBreak c then 32 else c) = 32
    · rw [collapse_space blank]
      cases space with
      | true => exact ih true
      | false => exact List.forall_mem_cons.mpr ⟨by decide, ih true⟩
    · rw [collapse_letter blank]
      exact List.forall_mem_cons.mpr ⟨(letter_iff.mp blank).1, ih false⟩

theorem collapse_nonzero (space : Bool) (nonzero : ∀ c ∈ s, c ≠ 0) : ∀ c ∈ collapse space s, c ≠ 0 := by
  induction s generalizing space with
  | nil => exact List.forall_mem_nil _
  | cons c s ih =>
    rw [List.forall_mem_cons] at nonzero
    by_cases blank : (if isBreak c then 32 else c) = 32
    · rw [collapse_space blank]
      cases space with
      | true => exact ih true nonzero.2
      | false => exact List.forall_mem_cons.mpr ⟨by decide, ih true nonzero.2⟩
    · rw [collapse_letter blank]
      exact List.forall_mem_cons.mpr ⟨nonzero.1, ih false nonzero.2⟩

theorem collapse_length (space : Bool) (s : List UInt8) : (collapse space s).length ≤ s.length := by
  induction s generalizing space with
  | nil => exact Nat.le_refl 0
  | cons c s ih =>
    by_cases blank : (if isBreak c then 32 else c) = 32
    · rw [collapse_space blank]
      cases space with
      | true => exact Nat.le_succ_of_le (ih true)
      | false => exact Nat.succ_le_succ (ih true)
    · rw [collapse_letter blank]
      exact Nat.succ_le_succ (ih false)

theorem trimEnd_start (s : List UInt8) : trimEnd s <+: s := List.rdropWhile_prefix _ _

theorem tidy_trimEnd (s : List UInt8) : Tidy (trimEnd (collapse true s)) := by
  have start := trimEnd_start (collapse true s)
  refine ⟨fun first => ?_, fun last => ?_, fun doubled => ?_, fun c member => ?_⟩
  · obtain ⟨tail, whole⟩ := start
    refine collapse_head s ?_
    rw [← whole]
    cases trimmed : trimEnd (collapse true s) with
    | nil =>
      rw [trimmed] at first
      cases first
    | cons c rest =>
      rw [trimmed] at first
      exact first
  · have some_ : trimEnd (collapse true s) ≠ [] := fun none_ => by
      rw [none_] at last
      cases last
    rw [List.getLast?_eq_getLast_of_ne_nil some_] at last
    refine List.rdropWhile_last_not (fun c : UInt8 => decide (c = 32)) (collapse true s) some_ ?_
    exact decide_eq_true (Option.some.inj last)
  · exact collapse_doubled true s (doubled.trans start.isInfix)
  · exact collapse_breaks true s c (start.subset member)

theorem collapse_eq (start : space = true → s.head? ≠ some 32) (doubled : ¬ [32, 32] <:+: s) (breaks : ∀ c ∈ s, isBreak c = false) :
    collapse space s = s := by
  induction s generalizing space with
  | nil => rfl
  | cons c s ih =>
    rw [List.forall_mem_cons] at breaks
    rw [List.infix_cons_iff, not_or] at doubled
    by_cases blank : c = 32
    · subst blank
      rw [collapse_space rfl]
      cases space with
      | true => exact absurd rfl (start rfl)
      | false =>
        rw [if_neg Bool.false_ne_true, ih (fun _ first => doubled.1 ?_) doubled.2 breaks.2]
        obtain ⟨rest, rfl⟩ := List.head?_eq_some_iff.mp first
        exact ⟨rest, rfl⟩
    · rw [collapse_letter (letter_iff.mpr ⟨breaks.1, blank⟩), ih (fun none_ => Bool.noConfusion none_) doubled.2 breaks.2]

theorem Tidy.collapse_eq (tidy : Tidy s) : collapse true s = s :=
  RexOs.Library.collapse_eq (fun _ => tidy.leading) tidy.doubled tidy.breaks

theorem Tidy.trimEnd_eq (tidy : Tidy s) : trimEnd s = s := by
  refine List.rdropWhile_eq_self_iff.mpr fun some_ last => tidy.trailing ?_
  rw [List.getLast?_eq_getLast_of_ne_nil some_]
  exact congrArg some (of_decide_eq_true last)

end

end RexOs.Library
