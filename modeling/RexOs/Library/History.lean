import Mathlib.Algebra.GroupWithZero.Nat
import Mathlib.Data.List.DropRight

/-! Histories of bounded length, with a position.

A visit drops what is ahead of the position, and the oldest entries when there are too many. Going
back and forward moves the position and keeps the entries.
-/

set_option autoImplicit false

namespace RexOs.Library

structure History (α : Type) (cap : Nat) where
  entries : List α
  pos : Nat
  bounded : entries.length ≤ cap
  inside : entries ≠ [] → pos < entries.length
  unvisited : entries = [] → pos = 0

namespace History

section
variable {α : Type} {cap : Nat}

def empty (α : Type) (cap : Nat) : History α cap := ⟨[], 0, Nat.zero_le cap, fun some_ => absurd rfl some_, fun _ => rfl⟩

def current (h : History α cap) : Option α := h.entries[h.pos]?

def visited (h : History α cap) (a : α) : List α := (h.entries.take (h.pos + 1) ++ [a]).rtake cap

theorem rtake_length (l : List α) (n : Nat) : (l.rtake n).length = min n l.length := by
  unfold List.rtake
  rw [List.length_drop]
  omega

theorem visited_length (h : History α cap) (a : α) : (h.visited a).length = min cap (min (h.pos + 1) h.entries.length + 1) := by
  unfold visited
  rw [rtake_length, List.length_append, List.length_take, List.length_singleton]

theorem visited_bounded (h : History α cap) (a : α) : (h.visited a).length ≤ cap := by
  rw [visited_length]
  exact Nat.min_le_left _ _

theorem visited_inside [NeZero cap] (h : History α cap) (a : α) : (h.visited a).length - 1 < (h.visited a).length := by
  have room := Nat.pos_of_ne_zero (NeZero.ne cap)
  rw [visited_length]
  omega

def visit [NeZero cap] (h : History α cap) (a : α) : History α cap where
  entries := h.visited a
  pos := (h.visited a).length - 1
  bounded := h.visited_bounded a
  inside _ := h.visited_inside a
  unvisited none_ := by rw [none_, List.length_nil]

def back (h : History α cap) : History α cap where
  entries := h.entries
  pos := h.pos - 1
  bounded := h.bounded
  inside some_ := Nat.lt_of_le_of_lt (Nat.sub_le _ _) (h.inside some_)
  unvisited none_ := by rw [h.unvisited none_]

def forward (h : History α cap) : History α cap where
  entries := h.entries
  pos := if h.pos + 1 < h.entries.length then h.pos + 1 else h.pos
  bounded := h.bounded
  inside some_ := by
    have := h.inside some_
    split <;> omega
  unvisited none_ := by
    rw [none_, List.length_nil, if_neg (Nat.not_lt_zero _)]
    exact h.unvisited none_

theorem pos_le (h : History α cap) : h.pos ≤ h.entries.length := by
  by_cases none_ : h.entries = []
  · rw [h.unvisited none_]
    exact Nat.zero_le _
  · exact Nat.le_of_lt (h.inside none_)

theorem visited_ne_nil [NeZero cap] (h : History α cap) (a : α) : h.visited a ≠ [] := by
  intro none_
  have inside := h.visited_inside a
  rw [none_] at inside
  exact absurd inside (Nat.not_lt_zero _)

theorem visited_eq [NeZero cap] (h : History α cap) (a : α) : h.visited a =
    (if (h.entries.take (h.pos + 1)).length = cap then (h.entries.take (h.pos + 1)).tail else h.entries.take (h.pos + 1)) ++ [a] := by
  obtain ⟨n, rfl⟩ := Nat.exists_eq_succ_of_ne_zero (NeZero.ne cap)
  have few : (h.entries.take (h.pos + 1)).length ≤ n + 1 := by
    rw [List.length_take]
    exact (Nat.min_le_right _ _).trans h.bounded
  unfold visited
  rw [List.rtake_concat_succ]
  congr 1
  unfold List.rtake
  split
  · rename_i full
    rw [full, Nat.succ_sub (Nat.le_refl n), Nat.sub_self, List.drop_one]
  · rw [Nat.sub_eq_zero_of_le (by omega), List.drop_zero]

theorem visit_current [NeZero cap] (h : History α cap) (a : α) : (h.visit a).current = some a := by
  show (h.visited a)[(h.visited a).length - 1]? = some a
  rw [visited_eq, List.length_append, List.length_singleton, Nat.add_sub_cancel, List.getElem?_concat_length]

end

end History

end RexOs.Library
