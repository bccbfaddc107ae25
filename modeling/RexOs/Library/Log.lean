import Mathlib.Data.List.Induction
import Mathlib.Algebra.Group.Nat.Defs

/-! Reading a log of events.

An event may set a value, clear it, or say nothing about it. `latest` is the value
after all events of a log, that is the one set last, unless it was cleared since.
-/

set_option autoImplicit false

namespace RexOs.Library.Log

variable {Event Value : Type}

def latest (leaves : Event → Option (Option Value)) (log : List Event) : Option Value :=
  log.foldl (fun value event => (leaves event).getD value) none

variable {leaves : Event → Option (Option Value)} {log log' : List Event} {event : Event}

@[simp]
theorem latest_nil : latest leaves [] = none := rfl

@[simp]
theorem latest_snoc : latest leaves (log ++ [event]) = (leaves event).getD (latest leaves log) := by
  simp only [latest, List.foldl_append, List.foldl_cons, List.foldl_nil]

theorem latest_append_some {value : Value} (last : latest leaves (log ++ log') = some value) :
    latest leaves log = some value ∨ ∃ event ∈ log', leaves event = some (some value) := by
  induction log' using List.reverseRecOn with
  | nil =>
    rw [List.append_nil] at last
    exact Or.inl last
  | append_singleton log' event ih =>
    rw [← List.append_assoc, latest_snoc] at last
    cases said : leaves event with
    | none =>
      rw [said, Option.getD_none] at last
      rcases ih last with before | ⟨setter, member, sets⟩
      · exact Or.inl before
      · exact Or.inr ⟨setter, List.mem_append_left _ member, sets⟩
    | some left =>
      rw [said, Option.getD_some] at last
      exact Or.inr ⟨event, by simp, by rw [said, last]⟩

def Each (holds : List Event → Event → Prop) (log : List Event) : Prop :=
  ∀ before event after, log = before ++ event :: after → holds before event

variable {holds : List Event → Event → Prop}

theorem each_nil : Each holds [] := by
  intro before event after whole
  cases before <;> cases whole

theorem Each.snoc (each : Each holds log) (last : holds log event) : Each holds (log ++ [event]) := by
  intro before event' after whole
  cases after using List.reverseRecOn with
  | nil =>
    obtain ⟨rfl, rfl⟩ := List.append_singleton_inj.mp whole
    exact last
  | append_singleton after event'' =>
    have longer : log ++ [event] = (before ++ event' :: after) ++ [event''] := by simpa using whole
    obtain ⟨rfl, _⟩ := List.append_singleton_inj.mp longer
    exact each _ _ _ rfl

end RexOs.Library.Log
