import Mathlib.Algebra.Order.Ring.Int

/-! A walk in unit steps along a straight line, with an error term.

The walk goes `a` places along one axis and `b` along the other. What the error term says is
linear in both; its bounds decide that each step goes on along the longer axis, so that both
ends are reached in the same step.
-/

set_option autoImplicit false

namespace RexOs.Library

structure Walk where
  i : Nat
  j : Nat
  err : Int
  deriving DecidableEq, Repr

/-- One test for each axis, with the error before the step. -/
def Walk.next (a b : Nat) (w : Walk) : Walk where
  i := if w.err * 2 > -b then w.i + 1 else w.i
  j := if w.err * 2 < a then w.j + 1 else w.j
  err := (if w.err * 2 > -b then w.err - b else w.err) + if w.err * 2 < a then (a : Int) else 0

def walkAfter (a b : Nat) : Nat → Walk
  | 0 => ⟨0, 0, a - b⟩
  | k + 1 => (walkAfter a b k).next a b

def Walk.swap (w : Walk) : Walk := ⟨w.j, w.i, -w.err⟩

/-- What is known after `k` steps when the first axis is not the shorter one. -/
structure Walk.Along (a b k : Nat) (w : Walk) : Prop where
  main : w.i = k
  error : w.err = a - b - b * w.i + a * w.j
  low : -(b : Int) < w.err * 2
  high : w.err * 2 < 3 * a - 2 * b

section
variable {a b k : Nat} {w : Walk}

theorem next_swap (a b : Nat) (w : Walk) : w.swap.next b a = (w.next a b).swap := by
  have first : (-w.err) * 2 > -(a : Int) ↔ w.err * 2 < a := by omega
  have second : (-w.err) * 2 < (b : Int) ↔ w.err * 2 > -b := by omega
  unfold Walk.next Walk.swap
  simp only [first, second]
  split <;> split <;> simp only [Walk.mk.injEq, true_and] <;> omega

theorem walkAfter_swap (a b k : Nat) : walkAfter b a k = (walkAfter a b k).swap := by
  induction k with
  | zero =>
    unfold walkAfter Walk.swap
    simp only [Walk.mk.injEq, true_and]
    omega
  | succ k ih =>
    rw [walkAfter, walkAfter, ih]
    exact next_swap a b _

theorem Walk.Along.next (along : w.Along a b k) (longer : b ≤ a) : (w.next a b).Along a b (k + 1) := by
  obtain ⟨main, error, low, high⟩ := along
  have across : w.err * 2 > -b := low
  by_cases up : w.err * 2 < a
  · refine ⟨?_, ?_, ?_, ?_⟩
    all_goals
      unfold Walk.next
      simp only [if_pos across, if_pos up]
    · rw [main]
    · rw [error, Int.natCast_add, Int.natCast_add, Int.mul_add, Int.mul_add]
      omega
    · omega
    · omega
  · refine ⟨?_, ?_, ?_, ?_⟩
    all_goals
      unfold Walk.next
      simp only [if_pos across, if_neg up]
    · rw [main]
    · rw [error, Int.natCast_add, Int.mul_add]
      omega
    · omega
    · omega

theorem along_walkAfter (longer : b ≤ a) (some_ : 0 < a) (k : Nat) : (walkAfter a b k).Along a b k := by
  induction k with
  | zero =>
    refine ⟨rfl, ?_, ?_, ?_⟩
    all_goals
      dsimp only [walkAfter]
      omega
  | succ k ih => exact ih.next longer

theorem Walk.Along.other_le (along : w.Along a b k) (some_ : 0 < a) (le : k ≤ a) : w.j ≤ b := by
  obtain ⟨rfl, error, -, high⟩ := along
  by_contra ahead
  have before : (b : Int) * w.i ≤ b * a := Int.mul_le_mul_of_nonneg_left (by omega) (by omega)
  have beyond : (a : Int) * (b + 1) ≤ a * w.j := Int.mul_le_mul_of_nonneg_left (by omega) (by omega)
  rw [Int.mul_add, Int.mul_comm a b] at beyond
  omega

theorem Walk.Along.other_end (along : w.Along a b a) (some_ : 0 < a) : w.j = b := by
  refine Nat.le_antisymm (along.other_le some_ (Nat.le_refl a)) ?_
  obtain ⟨main, error, low, -⟩ := along
  by_contra behind
  have less : (a : Int) * (w.j + 1) ≤ a * b := Int.mul_le_mul_of_nonneg_left (by omega) (by omega)
  rw [main] at error
  rw [Int.mul_add, Int.mul_comm a b] at less
  omega

/-- Where the walk is, while it goes along the longer axis. -/
structure Walk.Inside (a b k : Nat) (w : Walk) : Prop where
  first : w.i ≤ a
  second : w.j ≤ b
  error : -(3 * max a b : Int) ≤ w.err * 2 ∧ w.err * 2 ≤ 3 * max a b
  main : w.i = a ∧ w.j = b ↔ k = max a b

theorem Walk.Along.inside (along : w.Along a b k) (longer : b ≤ a) (some_ : 0 < a) (le : k ≤ a) : w.Inside a b k := by
  have other := along.other_le some_ le
  refine ⟨along.main ▸ le, other, ?_, ?_⟩
  · have low := along.low
    have high := along.high
    omega
  · rw [Nat.max_eq_left longer]
    refine ⟨fun ends => along.main.symm.trans ends.1, fun last => ?_⟩
    subst last
    exact ⟨along.main, along.other_end some_⟩

theorem Walk.Inside.swap (inside : w.Inside a b k) : w.swap.Inside b a k := by
  obtain ⟨first, second, error, main⟩ := inside
  refine ⟨second, first, ?_, ?_⟩
  · dsimp only [Walk.swap]
    omega
  · rw [Nat.max_comm b a, ← main]
    exact and_comm

theorem walkAfter_inside (le : k ≤ max a b) : (walkAfter a b k).Inside a b k := by
  rcases Nat.le_total b a with longer | longer
  · rw [Nat.max_eq_left longer] at le
    rcases Nat.eq_zero_or_pos a with rfl | some_
    · have none_ := Nat.le_zero.mp longer
      subst none_
      have start := Nat.le_zero.mp le
      subst start
      exact ⟨Nat.le_refl _, Nat.le_refl _, by decide, by decide⟩
    · exact (along_walkAfter longer some_ k).inside longer some_ le
  · rw [Nat.max_eq_right longer] at le
    rcases Nat.eq_zero_or_pos b with rfl | some_
    · have none_ := Nat.le_zero.mp longer
      subst none_
      have start := Nat.le_zero.mp le
      subst start
      exact ⟨Nat.le_refl _, Nat.le_refl _, by decide, by decide⟩
    · rw [walkAfter_swap b a]
      exact ((along_walkAfter longer some_ k).inside longer some_ le).swap

end

end RexOs.Library
