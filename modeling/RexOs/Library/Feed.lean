import Mathlib.Data.List.Basic

/-! A decoder that is fed one symbol after the other until it is done.

`feedUntil` gives the state it comes to, what it has put out and the symbols it has left over.
How the input is cut into pieces makes no difference (`feedUntil_append`).
-/

set_option autoImplicit false

namespace RexOs.Library

variable {State Symbol Out : Type} (feed : State → Symbol → State) (out : State → Symbol → List Out) (isOver : State → Bool)

structure Fed (State Symbol Out : Type) where
  state : State
  out : List Out
  rest : List Symbol

def feedUntil : State → List Symbol → Fed State Symbol Out
  | s, [] => ⟨s, [], []⟩
  | s, x :: xs =>
      if isOver s then ⟨s, [], x :: xs⟩
      else
        let later := feedUntil (feed s x) xs
        ⟨later.state, out s x ++ later.out, later.rest⟩

variable {feed out isOver}

theorem feedUntil_over {s : State} (done : isOver s = true) (xs : List Symbol) :
    feedUntil feed out isOver s xs = ⟨s, [], xs⟩ := by
  cases xs with
  | nil => rfl
  | cons x xs => rw [feedUntil, if_pos done]

theorem feedUntil_cons {s : State} (going : isOver s = false) (x : Symbol) (xs : List Symbol) :
    feedUntil feed out isOver s (x :: xs) =
      ⟨(feedUntil feed out isOver (feed s x) xs).state, out s x ++ (feedUntil feed out isOver (feed s x) xs).out,
        (feedUntil feed out isOver (feed s x) xs).rest⟩ := by
  rw [feedUntil, going, if_neg Bool.false_ne_true]

theorem feedUntil_append (s : State) (xs ys : List Symbol) :
    feedUntil feed out isOver s (xs ++ ys) =
      let first := feedUntil feed out isOver s xs
      let second := feedUntil feed out isOver first.state (first.rest ++ ys)
      ⟨second.state, first.out ++ second.out, second.rest⟩ := by
  induction xs generalizing s with
  | nil => rfl
  | cons x xs ih =>
    cases going : isOver s with
    | true =>
      rw [feedUntil_over going, feedUntil_over going]
      dsimp only
      rw [feedUntil_over going]
      rfl
    | false =>
      rw [List.cons_append, feedUntil_cons going, feedUntil_cons going, ih]
      simp only [List.append_assoc]

theorem feedUntil_taken (s : State) (xs : List Symbol) : ∃ taken, xs = taken ++ (feedUntil feed out isOver s xs).rest ∧
    feedUntil feed out isOver s taken = ⟨(feedUntil feed out isOver s xs).state, (feedUntil feed out isOver s xs).out, []⟩ := by
  induction xs generalizing s with
  | nil => exact ⟨[], rfl, rfl⟩
  | cons x xs ih =>
    cases going : isOver s with
    | true =>
      rw [feedUntil_over going]
      exact ⟨[], rfl, rfl⟩
    | false =>
      obtain ⟨taken, whole, same⟩ := ih (feed s x)
      refine ⟨x :: taken, ?_, ?_⟩
      · rw [feedUntil_cons going, List.cons_append, ← whole]
      · rw [feedUntil_cons going, feedUntil_cons going, same]

theorem feedUntil_invariant (Inv : State → Prop) (kept : ∀ s x, isOver s = false → Inv s → Inv (feed s x)) {s : State} (initial : Inv s)
    (xs : List Symbol) : Inv (feedUntil feed out isOver s xs).state := by
  induction xs generalizing s with
  | nil => exact initial
  | cons x xs ih =>
    cases going : isOver s with
    | true =>
      rw [feedUntil_over going]
      exact initial
    | false =>
      rw [feedUntil_cons going]
      exact ih (kept s x going initial)

end RexOs.Library
