import Mathlib.Logic.Function.Basic
import Mathlib.Algebra.Group.Nat.Defs

/-! Serial numbers modulo `2 ^ 32`.

A counter that only grows is seen through its 32 low bits. Two values of it that
are less than `2 ^ 32` apart are told apart by their numbers. `numbered n bytes`
gives each byte of a stream its number, and `latest` finds the byte that a number
stands for last.
-/

set_option autoImplicit false

namespace RexOs.Library

variable {n : UInt32} {a b : Nat}

theorem serial_sub (le : b ≤ a) (near : a - b < 2 ^ 32) :
    ((n + UInt32.ofNat a) - (n + UInt32.ofNat b)).toNat = a - b := by
  simp only [UInt32.toNat_sub, UInt32.toNat_add, UInt32.toNat_ofNat']
  have := n.toNat_lt
  omega

theorem serial_sub_behind (lt : a < b) (near : b ≤ a + 2 ^ 31) :
    2 ^ 31 ≤ ((n + UInt32.ofNat a) - (n + UInt32.ofNat b)).toNat := by
  simp only [UInt32.toNat_sub, UInt32.toNat_add, UInt32.toNat_ofNat']
  have := n.toNat_lt
  omega

theorem serial_inj (same : n + UInt32.ofNat a = n + UInt32.ofNat b) (near : a < b + 2 ^ 32)
    (near' : b < a + 2 ^ 32) : a = b := by
  have := congrArg UInt32.toNat same
  simp only [UInt32.toNat_add, UInt32.toNat_ofNat'] at this
  have := n.toNat_lt
  omega

theorem serial_add (a b : Nat) : n + UInt32.ofNat a + UInt32.ofNat b = n + UInt32.ofNat (a + b) := by
  rw [UInt32.ofNat_add, UInt32.add_assoc]

variable {α : Type}

def numbered (n : UInt32) : List α → List (UInt32 × α)
  | [] => []
  | x :: xs => (n, x) :: numbered (n + 1) xs

/-- What the number `n` was last used for. -/
def latest (log : List (UInt32 × α)) (n : UInt32) : Option α :=
  (log.reverse.find? fun e => e.1 == n).map Prod.snd

theorem numbered_append (n : UInt32) (xs ys : List α) :
    numbered n (xs ++ ys) = numbered n xs ++ numbered (n + UInt32.ofNat xs.length) ys := by
  induction xs generalizing n with
  | nil => simp [numbered]
  | cons x xs ih =>
    have next : n + 1 + UInt32.ofNat xs.length = n + UInt32.ofNat (x :: xs).length := by
      rw [List.length_cons, Nat.add_comm, ← serial_add]
      rfl
    simp only [List.cons_append, numbered, ih, next]

theorem mem_numbered {xs : List α} {e : UInt32 × α} (member : e ∈ numbered n xs) :
    ∃ k < xs.length, e.1 = n + UInt32.ofNat k := by
  induction xs generalizing n with
  | nil => simp [numbered] at member
  | cons x xs ih =>
    simp only [numbered, List.mem_cons] at member
    rcases member with rfl | member
    · exact ⟨0, by simp, by simp⟩
    · obtain ⟨k, lt, same⟩ := ih member
      refine ⟨k + 1, by simpa using lt, ?_⟩
      rw [same, Nat.add_comm, ← serial_add]
      rfl

/-- In a stream the latest use of a number is found less than `2 ^ 32` before the end. -/
theorem latest_numbered {xs : List α} {k : Nat} (inside : k < xs.length) (near : xs.length < k + 2 ^ 32) :
    latest (numbered n xs) (n + UInt32.ofNat k) = some xs[k] := by
  have split : xs = xs.take k ++ xs[k] :: xs.drop (k + 1) := by simp
  have size : (xs.take k).length = k := by simp; omega
  have later : ∀ e ∈ numbered (n + UInt32.ofNat (k + 1)) (xs.drop (k + 1)), ¬ e.1 = n + UInt32.ofNat k := by
    intro e member same
    obtain ⟨j, lt, at_⟩ := mem_numbered member
    rw [at_, serial_add] at same
    rw [List.length_drop] at lt
    have := serial_inj same (by omega) (by omega)
    omega
  have shape : numbered n xs = numbered n (xs.take k) ++ (n + UInt32.ofNat k, xs[k]) ::
      numbered (n + UInt32.ofNat (k + 1)) (xs.drop (k + 1)) := by
    have parts := numbered_append n (xs.take k) (xs[k] :: xs.drop (k + 1))
    rw [← split, size, numbered] at parts
    rw [parts, ← serial_add k 1]
    rfl
  unfold latest
  rw [shape, List.reverse_append, List.reverse_cons, List.append_assoc, List.find?_append]
  have none : (numbered (n + UInt32.ofNat (k + 1)) (xs.drop (k + 1))).reverse.find?
      (fun e => e.1 == n + UInt32.ofNat k) = none := by
    rw [List.find?_eq_none]
    intro e member
    simpa using later e (by simpa using member)
  rw [none]
  simp

end RexOs.Library
