import Mathlib.Logic.Function.Basic

/-! Total correctness of computations that may fault.

`Safe x post` says that `x` returns, and that what it returns satisfies `post`.
Proofs follow the text of a computation with one rule per construct. A loop that
takes fuel `Settles`: once it returns, more fuel does not change what it returns.
-/

set_option autoImplicit false

namespace RexOs.Library

variable {ε α β : Type} {x y : Except ε α} {f : α → Except ε β} {post : α → Prop} {next : β → Prop}

def Safe (x : Except ε α) (post : α → Prop) : Prop := ∃ a, x = .ok a ∧ post a

theorem Safe.ok {a : α} (holds : post a) : Safe (.ok a : Except ε α) post := ⟨a, rfl, holds⟩

theorem Safe.bind (first : Safe x post) (rest : ∀ a, post a → Safe (f a) next) : Safe (x >>= f) next := by
  obtain ⟨a, rfl, holds⟩ := first
  exact rest a holds

theorem Safe.mono {weaker : α → Prop} (safe : Safe x post) (weaken : ∀ a, post a → weaker a) : Safe x weaker := by
  obtain ⟨a, rfl, holds⟩ := safe
  exact ⟨a, rfl, weaken a holds⟩

theorem Safe.and {other : α → Prop} (safe : Safe x post) (safe' : Safe x other) :
    Safe x fun a => post a ∧ other a := by
  obtain ⟨a, rfl, holds⟩ := safe
  obtain ⟨_, ⟨rfl⟩, holds'⟩ := safe'
  exact ⟨a, rfl, holds, holds'⟩

theorem Safe.result (safe : Safe x post) : Safe x fun a => x = .ok a := by
  obtain ⟨a, rfl, _⟩ := safe
  exact ⟨a, rfl, rfl⟩

theorem Safe.ite {c : Prop} [Decidable c] (yes : c → Safe x post) (no : ¬ c → Safe y post) :
    Safe (if c then x else y) post := by
  by_cases holds : c
  · rw [if_pos holds]
    exact yes holds
  · rw [if_neg holds]
    exact no holds

theorem Safe.pos {c : Prop} [Decidable c] (holds : c) (yes : Safe x post) : Safe (if c then x else y) post :=
  Safe.ite (fun _ => yes) fun fails => absurd holds fails

theorem Safe.neg {c : Prop} [Decidable c] (fails : ¬ c) (no : Safe y post) : Safe (if c then x else y) post :=
  Safe.ite (fun holds => absurd holds fails) fun _ => no

theorem bind_returns {r : β} (returned : x >>= f = .ok r) : ∃ y, x = .ok y ∧ f y = .ok r := by
  cases x with
  | error fault => cases returned
  | ok y => exact ⟨y, rfl, returned⟩

def Settles (f : Nat → Except ε α) : Prop := ∀ fuel r, f fuel = .ok r → f (fuel + 1) = .ok r

theorem Settles.le {f : Nat → Except ε α} (settles : Settles f) {fuel fuel' : Nat} {r : α}
    (returns : f fuel = .ok r) (le : fuel ≤ fuel') : f fuel' = .ok r := by
  induction le with
  | refl => exact returns
  | step _ ih => exact settles _ r ih

def Returns (f : Nat → Except ε α) (r : α) : Prop := ∃ fuel, f fuel = .ok r

theorem Returns.holds {f : Nat → Except ε α} {r : α} {bound : Nat} (returns : Returns f r) (settles : Settles f)
    (safe : ∀ fuel, bound < fuel → Safe (f fuel) post) : post r := by
  obtain ⟨fuel, result⟩ := returns
  obtain ⟨r', result', holds⟩ := safe (max fuel bound + 1) (by omega)
  rw [settles.le result (by omega)] at result'
  cases result'
  exact holds

theorem Safe.returns {f : Nat → Except ε α} {fuel : Nat} (safe : Safe (f fuel) post) :
    ∃ r, Returns f r ∧ post r := by
  obtain ⟨r, result, holds⟩ := safe
  exact ⟨r, ⟨fuel, result⟩, holds⟩

theorem Settles.const (x : Except ε α) : Settles fun _ => x := fun _ _ returns => returns

theorem ite_returns {x' y' : Except ε α} {c : Prop} [Decidable c] {r : α} (yes : x = .ok r → x' = .ok r)
    (no : y = .ok r → y' = .ok r) : (if c then x else y) = .ok r → (if c then x' else y') = .ok r := by
  by_cases holds : c
  · simpa only [holds, if_true] using yes
  · simpa only [holds, if_false] using no

theorem Settles.ite {f g : Nat → Except ε α} {c : Prop} [Decidable c] (yes : Settles f) (no : Settles g) :
    Settles fun fuel => if c then f fuel else g fuel := fun fuel r => ite_returns (yes fuel r) (no fuel r)

theorem Settles.bind {f : Nat → Except ε α} {g : Nat → α → Except ε β} (first : Settles f)
    (second : ∀ a, Settles fun fuel => g fuel a) : Settles fun fuel => f fuel >>= g fuel := by
  intro fuel r returns
  cases result : f fuel with
  | error fault =>
    simp only [result] at returns
    cases returns
  | ok a =>
    simp only [result] at returns
    simp only [first fuel a result]
    exact second a fuel r returns

end RexOs.Library
