import Mathlib.Data.List.Basic

/-! Rings whose slots carry a phase bit.

A writer goes round `n` slots and gives every value a bit that changes from lap to lap.
`Laid` says that the last values of a log are in their slots. A reader that is less
than a lap behind sees by the bit alone whether the value at its position is new.
-/

set_option autoImplicit false

namespace RexOs.Library

/-- How often slot `i` is written in `q` writes. -/
def writes (n q i : Nat) : Nat := (q + (n - 1 - i)) / n

/-- The bit of write number `q`. -/
def phaseOf (n q : Nat) : Nat := (q / n + 1) % 2

theorem phaseOf_lt (n q : Nat) : phaseOf n q < 2 := Nat.mod_lt _ (by decide)

theorem phaseOf_succ (n q : Nat) :
    phaseOf n (q + 1) = if (q + 1) % n = 0 then phaseOf n q ^^^ 1 else phaseOf n q := by
  have flip : ∀ bit < 2, bit ^^^ 1 = (bit + 1) % 2 := by decide
  rw [flip _ (phaseOf_lt n q), phaseOf, phaseOf, Nat.succ_div]
  by_cases last : (q + 1) % n = 0
  · rw [if_pos last, if_pos (Nat.dvd_of_mod_eq_zero last), Nat.mod_add_mod]
  · rw [if_neg last, if_neg (mt Nat.mod_eq_zero_of_dvd last), Nat.add_zero]

variable {n p q i : Nat}

theorem writes_zero (inside : i < n) : writes n 0 i = 0 := by
  rw [writes]
  apply Nat.div_eq_of_lt
  omega

/-- A reader at `p` tells from the number of writes to its slot whether it is behind. -/
theorem writes_window (inside : 0 < n) (low : p ≤ q) (high : q ≤ p + n) :
    writes n q (p % n) = if p = q then p / n else p / n + 1 := by
  have small := Nat.mod_lt p inside
  have split := Nat.div_add_mod p n
  have shifted : q + (n - 1 - p % n) = n * (p / n) + (q - p + (n - 1)) := by omega
  rw [writes, shifted, Nat.mul_add_div inside]
  by_cases same : p = q
  · subst same
    have none_ : (p - p + (n - 1)) / n = 0 := by
      apply Nat.div_eq_of_lt
      omega
    rw [if_pos rfl, none_, Nat.add_zero]
  · have one : (q - p + (n - 1)) / n = 1 := by
      apply Nat.div_eq_of_lt_le <;> omega
    rw [if_neg same, one]

theorem writes_there (inside : i < n) (other : i ≠ q % n) : writes n (q + 1) i = writes n q i := by
  have small := Nat.mod_lt q (Nat.zero_lt_of_lt inside)
  have split := Nat.div_add_mod q n
  have before : q + (n - 1 - i) = n * (q / n) + (q % n + (n - 1 - i)) := by omega
  have after : q + 1 + (n - 1 - i) = n * (q / n) + (q % n + 1 + (n - 1 - i)) := by omega
  rw [writes, writes, before, after, Nat.mul_add_div (by omega), Nat.mul_add_div (by omega)]
  congr 1
  rcases Nat.lt_or_ge i (q % n) with below | above
  · have one : (q % n + (n - 1 - i)) / n = 1 := by
      apply Nat.div_eq_of_lt_le <;> omega
    have two : (q % n + 1 + (n - 1 - i)) / n = 1 := by
      apply Nat.div_eq_of_lt_le <;> omega
    rw [one, two]
  · rw [Nat.div_eq_of_lt (by omega), Nat.div_eq_of_lt (by omega)]

theorem writes_here (inside : 0 < n) : writes n (q + 1) (q % n) = q / n + 1 := by
  rw [writes_window inside (Nat.le_succ q) (by omega), if_neg (by omega)]

variable {α : Type} {log : List α} {x : α} {slot slot' : Nat → α} {bit bit' : Nat → Nat}

structure Laid (n : Nat) (log : List α) (slot : Nat → α) (bit : Nat → Nat) : Prop where
  value : ∀ k x, log[k]? = some x → log.length < k + n → slot (k % n) = x
  phase : ∀ i < n, bit i = writes n log.length i % 2

namespace Laid

theorem nil (clear : ∀ i < n, bit i = 0) : Laid n [] slot bit := by
  constructor
  · intro k x here
    cases here
  · intro i inside
    rw [clear i inside, List.length_nil, writes_zero inside]

theorem scratch (laid : Laid n log slot bit) (others : ∀ i, i ≠ log.length % n → slot' i = slot i)
    (bits : ∀ i < n, bit' i = bit i) : Laid n log slot' bit' := by
  constructor
  · intro k x here recent
    have inside := (List.getElem?_eq_some_iff.mp here).1
    rw [others, laid.value k x here recent]
    intro same
    have close := Nat.sub_mod_eq_zero_of_mod_eq same.symm
    rw [Nat.mod_eq_of_lt (by omega)] at close
    omega
  · intro i inside
    rw [bits i inside, laid.phase i inside]

theorem push (laid : Laid n log slot bit) (room : 0 < n) (here : slot' (log.length % n) = x)
    (there : ∀ i, i ≠ log.length % n → slot' i = slot i) (bitHere : bit' (log.length % n) = phaseOf n log.length)
    (bitThere : ∀ i < n, i ≠ log.length % n → bit' i = bit i) : Laid n (log ++ [x]) slot' bit' := by
  constructor
  · intro k y found recent
    rw [List.length_append, List.length_singleton] at recent
    have inside := (List.getElem?_eq_some_iff.mp found).1
    rw [List.length_append, List.length_singleton] at inside
    by_cases last : k = log.length
    · subst last
      rw [List.getElem?_concat_length, Option.some.injEq] at found
      rw [here, found]
    · rw [List.getElem?_append_left (by omega)] at found
      rw [there, laid.value k y found (by omega)]
      intro same
      have close := Nat.sub_mod_eq_zero_of_mod_eq same.symm
      rw [Nat.mod_eq_of_lt (by omega)] at close
      omega
  · intro i inside
    rw [List.length_append, List.length_singleton]
    by_cases this : i = log.length % n
    · subst this
      rw [bitHere, writes_here room, phaseOf]
    · rw [bitThere i inside this, laid.phase i inside, writes_there inside this]

theorem new_iff (laid : Laid n log slot bit) (room : 0 < n) (low : p ≤ log.length) (high : log.length ≤ p + n) :
    bit (p % n) = phaseOf n p ↔ p < log.length := by
  rw [laid.phase _ (Nat.mod_lt p room), writes_window room low high, phaseOf]
  split <;> omega

theorem read (laid : Laid n log slot bit) (behind : p < log.length) (high : log.length < p + n) :
    log[p]? = some (slot (p % n)) := by
  have found := List.getElem?_eq_getElem behind
  rw [laid.value p _ found high]
  exact found

end Laid

end RexOs.Library
