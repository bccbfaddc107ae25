import Mathlib.Data.List.Nodup

/-! Resources that are handed from slot to slot and freed.

Resources are numbered in the order in which they are made. `Accounted` says that every one of
them is in exactly one slot or was freed exactly once. The operations name the slots they
change; all others stay.
-/

set_option autoImplicit false

namespace RexOs.Library

variable {Slot : Type}

structure Accounted (slot : Slot → Option Nat) (freed : List Nat) (next : Nat) : Prop where
  once : freed.Nodup
  alone : ∀ i j x, slot i = some x → slot j = some x → i = j
  live : ∀ i x, slot i = some x → x ∉ freed
  below : ∀ i x, slot i = some x → x < next
  past : ∀ x ∈ freed, x < next
  covered : ∀ x < next, (∃ i, slot i = some x) ∨ x ∈ freed

def Traced (slot : Slot → Option Nat) (freed : List Nat) (x : Nat) : Prop :=
  (∃! i, slot i = some x) ∧ freed.count x = 0 ∨ (∀ i, slot i ≠ some x) ∧ freed.count x = 1

namespace Accounted

variable [DecidableEq Slot] {slot slot' : Slot → Option Nat} {freed : List Nat} {next : Nat}

omit [DecidableEq Slot] in
theorem empty : Accounted (fun _ : Slot => none) [] 0 := by
  constructor
  · exact List.nodup_nil
  · intro i j x held
    cases held
  · intro i x held
    cases held
  · intro i x held
    cases held
  · intro x member
    cases member
  · intro x small
    exact absurd small (Nat.not_lt_zero x)

theorem give (accounted : Accounted slot freed next) {i : Slot} (none_ : slot i = none) (here : slot' i = some next)
    (there : ∀ j, j ≠ i → slot' j = slot j) : Accounted slot' freed (next + 1) := by
  have cases_ : ∀ j x, slot' j = some x → j = i ∧ x = next ∨ j ≠ i ∧ slot j = some x := by
    intro j x held
    by_cases same : j = i
    · subst same
      rw [here] at held
      exact Or.inl ⟨rfl, (Option.some.inj held).symm⟩
    · rw [there j same] at held
      exact Or.inr ⟨same, held⟩
  constructor
  · exact accounted.once
  · intro j k x left right
    rcases cases_ j x left with ⟨rfl, rfl⟩ | ⟨_, left⟩ <;> rcases cases_ k _ right with ⟨rfl, new⟩ | ⟨_, right⟩
    · rfl
    · exact absurd (accounted.below k _ right) (Nat.lt_irrefl _)
    · subst new
      exact absurd (accounted.below j _ left) (Nat.lt_irrefl _)
    · exact accounted.alone j k x left right
  · intro j x held member
    rcases cases_ j x held with ⟨rfl, rfl⟩ | ⟨_, held⟩
    · exact absurd (accounted.past _ member) (Nat.lt_irrefl _)
    · exact accounted.live j x held member
  · intro j x held
    rcases cases_ j x held with ⟨rfl, rfl⟩ | ⟨_, held⟩
    · exact Nat.lt_succ_self _
    · exact Nat.lt_succ_of_lt (accounted.below j x held)
  · intro x member
    exact Nat.lt_succ_of_lt (accounted.past x member)
  · intro x small
    rcases Nat.lt_or_eq_of_le (Nat.le_of_lt_succ small) with old | rfl
    · rcases accounted.covered x old with ⟨j, held⟩ | gone
      · refine Or.inl ⟨j, ?_⟩
        rw [there j, held]
        rintro rfl
        rw [none_] at held
        cases held
      · exact Or.inr gone
    · exact Or.inl ⟨i, here⟩

theorem move (accounted : Accounted slot freed next) {i j : Slot} (apart : i ≠ j) (none_ : slot j = none) (left : slot' i = none)
    (moved : slot' j = slot i) (there : ∀ k, k ≠ i → k ≠ j → slot' k = slot k) : Accounted slot' freed next := by
  have back : ∀ k x, slot' k = some x → k = j ∧ slot i = some x ∨ (k ≠ i ∧ k ≠ j) ∧ slot k = some x := by
    intro k x held
    by_cases first : k = i
    · rw [first, left] at held
      cases held
    · by_cases second : k = j
      · rw [second, moved] at held
        exact Or.inl ⟨second, held⟩
      · rw [there k first second] at held
        exact Or.inr ⟨⟨first, second⟩, held⟩
  constructor
  · exact accounted.once
  · intro k l x one two
    rcases back k x one with ⟨rfl, one⟩ | ⟨away, one⟩ <;> rcases back l x two with ⟨rfl, two⟩ | ⟨away', two⟩
    · rfl
    · exact absurd (accounted.alone i l x one two).symm away'.1
    · exact absurd (accounted.alone i k x two one).symm away.1
    · exact accounted.alone k l x one two
  · intro k x held
    rcases back k x held with ⟨rfl, held⟩ | ⟨_, held⟩ <;> exact accounted.live _ x held
  · intro k x held
    rcases back k x held with ⟨rfl, held⟩ | ⟨_, held⟩ <;> exact accounted.below _ x held
  · exact accounted.past
  · intro x small
    rcases accounted.covered x small with ⟨k, held⟩ | gone
    · by_cases first : k = i
      · subst first
        exact Or.inl ⟨j, moved.trans held⟩
      · by_cases second : k = j
        · rw [second, none_] at held
          cases held
        · exact Or.inl ⟨k, (there k first second).trans held⟩
    · exact Or.inr gone

theorem free (accounted : Accounted slot freed next) {i : Slot} (left : slot' i = none) (there : ∀ k, k ≠ i → slot' k = slot k) :
    Accounted slot' (freed ++ (slot i).toList) next := by
  have back : ∀ k x, slot' k = some x → k ≠ i ∧ slot k = some x := by
    intro k x held
    by_cases same : k = i
    · rw [same, left] at held
      cases held
    · rw [there k same] at held
      exact ⟨same, held⟩
  have gone : ∀ x, x ∈ freed ++ (slot i).toList ↔ x ∈ freed ∨ slot i = some x := by
    intro x
    rw [List.mem_append, Option.mem_toList]
  constructor
  · apply List.Nodup.append accounted.once
    · exact Option.toList_nodup _
    · intro x old new
      rw [Option.mem_toList] at new
      exact accounted.live i x new old
  · intro k l x one two
    exact accounted.alone k l x (back k x one).2 (back l x two).2
  · intro k x held member
    obtain ⟨away, held⟩ := back k x held
    rcases (gone x).mp member with old | new
    · exact accounted.live k x held old
    · exact away (accounted.alone k i x held new)
  · intro k x held
    exact accounted.below k x (back k x held).2
  · intro x member
    rcases (gone x).mp member with old | new
    · exact accounted.past x old
    · exact accounted.below i x new
  · intro x small
    rcases accounted.covered x small with ⟨k, held⟩ | old
    · by_cases same : k = i
      · subst same
        exact Or.inr ((gone x).mpr (Or.inr held))
      · exact Or.inl ⟨k, (there k same).trans held⟩
    · exact Or.inr ((gone x).mpr (Or.inl old))

theorem restore (accounted : Accounted slot freed next) {i j : Slot} (apart : i ≠ j) (here : slot' i = slot j)
    (left : slot' j = none) (there : ∀ k, k ≠ i → k ≠ j → slot' k = slot k) :
    Accounted slot' (freed ++ (slot i).toList) next := by
  have freed_ : Accounted (Function.update slot i none) (freed ++ (slot i).toList) next :=
    accounted.free (Function.update_self _ _ _) fun k other => Function.update_of_ne other _ _
  apply freed_.move apart.symm (Function.update_self _ _ _) left
  · rw [here, Function.update_of_ne apart.symm]
  · intro k first second
    rw [there k second first, Function.update_of_ne second]

omit [DecidableEq Slot] in
theorem count_le (accounted : Accounted slot freed next) (x : Nat) : freed.count x ≤ 1 :=
  List.nodup_iff_count_le_one.mp accounted.once x

omit [DecidableEq Slot] in
theorem traced (accounted : Accounted slot freed next) {x : Nat} (small : x < next) : Traced slot freed x := by
  rcases accounted.covered x small with ⟨i, held⟩ | gone
  · left
    constructor
    · exact ⟨i, held, fun j other => accounted.alone j i x other held⟩
    · exact List.count_eq_zero.mpr (accounted.live i x held)
  · right
    constructor
    · intro i held
      exact accounted.live i x held gone
    · exact List.count_eq_one_of_mem accounted.once gone

end Accounted

end RexOs.Library
