import RexOs.Library.Safe
import Mathlib.Data.UInt

/-! Buffers of fixed size that hold strings.

A read or write outside of a buffer is a fault. `Text t s` says that the string in `t` is `s`;
what is behind its NUL does not matter.
-/

set_option autoImplicit false

namespace RexOs.Library

variable {ε : Type}

def readByte (fault : ε) (t : List UInt8) (i : Nat) : Except ε UInt8 := (t[i]?).elim (.error fault) .ok

def writeByte (fault : ε) (t : List UInt8) (i : Nat) (c : UInt8) : Except ε (List UInt8) :=
  if i < t.length then .ok (t.set i c) else .error fault

def overwrite (t : List UInt8) (j : Nat) (s : List UInt8) : List UInt8 := t.take j ++ s ++ t.drop (j + s.length)

structure Text (t s : List UInt8) : Prop where
  nonzero : ∀ c ∈ s, c ≠ 0
  stored : ∃ rest, t = s ++ 0 :: rest

section
variable {fault : ε} {t s : List UInt8} {i j : Nat} {c : UInt8}

theorem readByte_ok (inside : i < t.length) : readByte fault t i = .ok t[i] := by
  rw [readByte, List.getElem?_eq_getElem inside]
  rfl

theorem writeByte_ok (inside : i < t.length) : writeByte fault t i c = .ok (t.set i c) := if_pos inside

theorem exists_text (zero : 0 ∈ t) : ∃ s, Text t s := by
  induction t with
  | nil => cases zero
  | cons c t ih =>
    by_cases first : c = 0
    · subst first
      exact ⟨[], List.forall_mem_nil _, t, rfl⟩
    · obtain ⟨s, nonzero, rest, whole⟩ := ih ((List.mem_cons.mp zero).resolve_left fun same => first same.symm)
      exact ⟨c :: s, List.forall_mem_cons.mpr ⟨first, nonzero⟩, rest, by rw [whole, List.cons_append]⟩

theorem Text.length_lt (text : Text t s) : s.length < t.length := by
  obtain ⟨rest, rfl⟩ := text.stored
  rw [List.length_append, List.length_cons]
  omega

theorem Text.read (text : Text t s) (fault : ε) (le : i ≤ s.length) : readByte fault t i = .ok (s.getD i 0) := by
  obtain ⟨rest, rfl⟩ := text.stored
  rw [readByte]
  rcases Nat.lt_or_eq_of_le le with inside | rfl
  · rw [List.getElem?_append_left inside, List.getD_eq_getElem?_getD, List.getElem?_eq_getElem inside]
    rfl
  · rw [List.getElem?_append_right (Nat.le_refl _), Nat.sub_self, List.getD_eq_getElem?_getD, List.getElem?_eq_none (Nat.le_refl _)]
    rfl

theorem overwrite_nil (t : List UInt8) (j : Nat) : overwrite t j [] = t := by
  rw [overwrite, List.append_nil, List.length_nil, Nat.add_zero, List.take_append_drop]

theorem overwrite_cons (inside : j < t.length) : overwrite (t.set j c) (j + 1) s = overwrite t j (c :: s) := by
  have front : (t.set j c).take (j + 1) = t.take j ++ [c] := by
    rw [List.take_add_one, List.take_set_of_le (Nat.le_refl j), List.getElem?_set_self inside]
    rfl
  have back : (t.set j c).drop (j + 1 + s.length) = t.drop (j + (c :: s).length) := by
    rw [List.drop_set_of_lt (by omega), List.length_cons, Nat.add_assoc, Nat.add_comm 1]
  rw [overwrite, overwrite, front, back, List.append_assoc (t.take j)]
  rfl

theorem overwrite_zero (t s : List UInt8) : overwrite t 0 s = s ++ t.drop s.length := by
  rw [overwrite, List.take_zero, List.nil_append, Nat.zero_add]

theorem text_set (nonzero : ∀ c ∈ s, c ≠ 0) (fits : s.length < t.length) (start : s <+: t) : Text (t.set s.length 0) s := by
  obtain ⟨rest, rfl⟩ := start
  rw [List.length_append] at fits
  cases rest with
  | nil => exact absurd fits (Nat.lt_irrefl _)
  | cons c rest =>
    refine ⟨nonzero, rest, ?_⟩
    rw [List.set_append_right _ _ (Nat.le_refl _), Nat.sub_self, List.set_cons_zero]

end

end RexOs.Library
