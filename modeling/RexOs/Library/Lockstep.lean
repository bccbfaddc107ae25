import Mathlib.Logic.Function.Basic

/-! Two computations side by side.

`Lockstep` is about computations that ask their environments at each tick of a clock: while the
environments give the same answers, the computations do the same. `Follows R x y` says that `y`
returns whenever `x` does, and that the results are related by `R`; nothing is said of `y` when
`x` faults.
-/

set_option autoImplicit false

namespace RexOs.Library

section
variable {α β : Type} {alike : Nat → Prop} {t t₁ t' : Nat}

/-- A computation takes the time from `t` to `t'` and gives `x`, and the other one gives the same if the
environments were alike in this time. -/
structure Lockstep (alike : Nat → Prop) (t : Nat) (x x' : α) (t' : Nat) : Prop where
  later : t ≤ t'
  same : (∀ s, t ≤ s → s < t' → alike s) → x' = x

theorem Lockstep.refl (t : Nat) (x : α) : Lockstep alike t x x t := ⟨Nat.le_refl t, fun _ => rfl⟩

theorem Lockstep.tick {x x' : α} (one : alike t → x' = x) : Lockstep alike t x x' (t + 1) :=
  ⟨Nat.le_succ t, fun during => one (during t (Nat.le_refl t) (Nat.lt_succ_self t))⟩

theorem Lockstep.step {y y' : α} {x : β} {f : α → β} (first : Lockstep alike t y y' t₁)
    (rest : Lockstep alike t₁ x (f y) t') : Lockstep alike t x (f y') t' := by
  refine ⟨Nat.le_trans first.later rest.later, fun during => ?_⟩
  have same := first.same fun s low high => during s low (Nat.lt_of_lt_of_le high rest.later)
  rw [same]
  exact rest.same fun s low high => during s (Nat.le_trans first.later low) high

theorem Lockstep.map {y y' : α} (f : α → β) (first : Lockstep alike t y y' t') : Lockstep alike t (f y) (f y') t' :=
  first.step (.refl t' (f y))

end

section
variable {ε α β γ δ : Type} {R R' : α → β → Prop} {Q : γ → δ → Prop} {x x' : Except ε α} {y y' : Except ε β}
variable {f : α → Except ε γ} {g : β → Except ε δ}

def Follows (R : α → β → Prop) (x : Except ε α) (y : Except ε β) : Prop := ∀ a, x = .ok a → ∃ b, y = .ok b ∧ R a b

namespace Follows

theorem ok {a : α} {b : β} (related : R a b) : Follows R (.ok a : Except ε α) (.ok b) := by
  intro _ returned
  cases returned
  exact ⟨b, rfl, related⟩

theorem error {fault : ε} : Follows R (.error fault) y := by
  intro _ returned
  cases returned

theorem bind (first : Follows R x y) (rest : ∀ a b, R a b → Follows Q (f a) (g b)) : Follows Q (x >>= f) (y >>= g) := by
  intro c returned
  cases result : x with
  | error fault =>
    rw [result] at returned
    cases returned
  | ok a =>
    obtain ⟨b, rfl, related⟩ := first a result
    rw [result] at returned
    exact rest a b related c returned

theorem ite {c c' : Prop} [Decidable c] [Decidable c'] (alike : c ↔ c') (yes : c → Follows R x y)
    (no : ¬ c → Follows R x' y') : Follows R (if c then x else x') (if c' then y else y') := by
  by_cases holds : c
  · rw [if_pos holds, if_pos (alike.mp holds)]
    exact yes holds
  · rw [if_neg holds, if_neg fun holds' => holds (alike.mpr holds')]
    exact no holds

theorem mono (follows : Follows R x y) (weaken : ∀ a b, R a b → R' a b) : Follows R' x y := by
  intro a returned
  obtain ⟨b, result, related⟩ := follows a returned
  exact ⟨b, result, weaken a b related⟩

theorem same {g : α → Except ε δ} (rest : ∀ a, Follows Q (f a) (g a)) : Follows Q (x >>= f) (x >>= g) := by
  intro c returned
  cases result : x with
  | error fault =>
    rw [result] at returned
    cases returned
  | ok a =>
    rw [result] at returned
    exact rest a c returned

end Follows

end

end RexOs.Library
