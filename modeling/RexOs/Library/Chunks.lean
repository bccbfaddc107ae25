import Mathlib.Order.MinMax

/-! A request that is carried out in chunks of at most `limit` items.

A round is told how many items are done and how large the next chunk is. It tells how many of
them it has carried out; when it is none, the loop ends. Invariants speak of the number of items
that are done.
-/

set_option autoImplicit false

namespace RexOs.Library

variable {State : Type}

/-- `while (done < count)`, with as much fuel as there can be rounds. -/
def chunkLoop (limit count : Nat) (round : Nat → Nat → State → Nat × State) : Nat → Nat → State → Nat × State
  | 0, done, s => (done, s)
  | fuel + 1, done, s =>
      if done < count then
        let r := round done (min (count - done) limit) s
        if r.1 = 0 then (done, r.2) else chunkLoop limit count round fuel (done + r.1) r.2
      else (done, s)

def chunked (limit count : Nat) (round : Nat → Nat → State → Nat × State) (s : State) : Nat × State :=
  chunkLoop limit count round count 0 s

section
variable {limit count done fuel : Nat} {round : Nat → Nat → State → Nat × State} {s : State} {Inv : Nat → State → Prop}

theorem chunk_some (some_ : 0 < limit) (more : done < count) : 1 ≤ min (count - done) limit := by omega

theorem chunk_within (more : done < count) : done + min (count - done) limit ≤ count := by omega

theorem chunkLoop_invariant
    (step : ∀ done s, done < count → Inv done s → (round done (min (count - done) limit) s).1 ≤ min (count - done) limit ∧
      Inv (done + (round done (min (count - done) limit) s).1) (round done (min (count - done) limit) s).2)
    (start : Inv done s) (le : done ≤ count) :
    Inv (chunkLoop limit count round fuel done s).1 (chunkLoop limit count round fuel done s).2 ∧
      (chunkLoop limit count round fuel done s).1 ≤ count := by
  induction fuel generalizing done s with
  | zero => exact ⟨start, le⟩
  | succ fuel ih =>
    rw [chunkLoop]
    split
    · rename_i more
      obtain ⟨size, kept⟩ := step done s more start
      dsimp only
      split
      · rename_i none_
        rw [none_, Nat.add_zero] at kept
        exact ⟨kept, le⟩
      · exact ih kept (by omega)
    · exact ⟨start, le⟩

theorem chunked_invariant
    (step : ∀ done s, done < count → Inv done s → (round done (min (count - done) limit) s).1 ≤ min (count - done) limit ∧
      Inv (done + (round done (min (count - done) limit) s).1) (round done (min (count - done) limit) s).2)
    (start : Inv 0 s) : Inv (chunked limit count round s).1 (chunked limit count round s).2 ∧ (chunked limit count round s).1 ≤ count :=
  chunkLoop_invariant step start (Nat.zero_le _)

theorem chunkLoop_stopped
    (step : ∀ done s, done < count → Inv done s → (round done (min (count - done) limit) s).1 ≤ min (count - done) limit ∧
      Inv (done + (round done (min (count - done) limit) s).1) (round done (min (count - done) limit) s).2)
    (start : Inv done s) (enough : count ≤ done + fuel) (le : done ≤ count) :
    (chunkLoop limit count round fuel done s).1 = count ∨ ∃ s', Inv (chunkLoop limit count round fuel done s).1 s' ∧
      (chunkLoop limit count round fuel done s).1 < count ∧
      (round (chunkLoop limit count round fuel done s).1 (min (count - (chunkLoop limit count round fuel done s).1) limit) s').1 = 0 := by
  induction fuel generalizing done s with
  | zero => exact Or.inl (Nat.le_antisymm le enough)
  | succ fuel ih =>
    rw [chunkLoop]
    split
    · rename_i more
      obtain ⟨size, kept⟩ := step done s more start
      dsimp only
      split
      · rename_i none_
        exact Or.inr ⟨s, start, more, none_⟩
      · exact ih kept (by omega) (by omega)
    · exact Or.inl (Nat.le_antisymm le (by omega))

/-- The loop ends when all items are done, or at a round that carries out none of them. -/
theorem chunked_stopped
    (step : ∀ done s, done < count → Inv done s → (round done (min (count - done) limit) s).1 ≤ min (count - done) limit ∧
      Inv (done + (round done (min (count - done) limit) s).1) (round done (min (count - done) limit) s).2)
    (start : Inv 0 s) : (chunked limit count round s).1 = count ∨ ∃ s', Inv (chunked limit count round s).1 s' ∧
      (chunked limit count round s).1 < count ∧
      (round (chunked limit count round s).1 (min (count - (chunked limit count round s).1) limit) s').1 = 0 :=
  chunkLoop_stopped step start (by omega) (Nat.zero_le _)

theorem chunkLoop_complete (some_ : 0 < limit)
    (full : ∀ done s, done < count → (round done (min (count - done) limit) s).1 = min (count - done) limit)
    (enough : count ≤ done + fuel) (le : done ≤ count) : (chunkLoop limit count round fuel done s).1 = count := by
  induction fuel generalizing done s with
  | zero => exact Nat.le_antisymm le enough
  | succ fuel ih =>
    rw [chunkLoop]
    split
    · rename_i more
      dsimp only
      rw [if_neg (by rw [full done s more]; omega), full done s more]
      exact ih (by omega) (by omega)
    · exact Nat.le_antisymm le (by omega)

theorem chunked_complete (some_ : 0 < limit)
    (full : ∀ done s, done < count → (round done (min (count - done) limit) s).1 = min (count - done) limit) :
    (chunked limit count round s).1 = count :=
  chunkLoop_complete some_ full (by omega) (Nat.zero_le _)

theorem chunked_first (more : 0 < count) : chunked limit count round s =
    if (round 0 (min count limit) s).1 = 0 then (0, (round 0 (min count limit) s).2)
    else chunkLoop limit count round (count - 1) (round 0 (min count limit) s).1 (round 0 (min count limit) s).2 := by
  obtain ⟨n, rfl⟩ := Nat.exists_eq_add_one_of_ne_zero (by omega : count ≠ 0)
  rw [chunked, chunkLoop, if_pos more]
  dsimp only
  rw [Nat.sub_zero, Nat.zero_add]
  rfl

end

end RexOs.Library
