import Mathlib.Data.List.Induction
import Mathlib.Data.List.Nodup
import Mathlib.Data.UInt

/-! An array with a count, as the list of what it holds.

`listing z n` is what the first `n` elements hold. Three loops over such an array are here: the
search for an element, the shift that takes one element out, and the one that takes elements
back from the end. `nthPassing` counts the members of a list that pass a test, in a 32-bit word, up
to an index; `passing` is all they give.
-/

set_option autoImplicit false

namespace RexOs.Library

section
variable {α : Type} {z : Nat → α} {a : α} {i n : Nat}

def listing (z : Nat → α) (n : Nat) : List α := (List.range n).map z

@[simp] theorem listing_length (z : Nat → α) (n : Nat) : (listing z n).length = n := by
  rw [listing, List.length_map, List.length_range]

theorem listing_succ (z : Nat → α) (n : Nat) : listing z (n + 1) = listing z n ++ [z n] := by
  rw [listing, List.range_succ, List.map_append]
  rfl

theorem listing_get (small : i < n) : (listing z n)[i]? = some (z i) := by
  rw [listing, List.getElem?_map, List.getElem?_range small]
  rfl

theorem listing_ext {l : List α} (length : l.length = n) (same : ∀ i < n, l[i]? = some (z i)) : l = listing z n := by
  apply List.ext_getElem?
  intro i
  rcases Nat.lt_or_ge i n with small | large
  · rw [same i small, listing_get small]
  · rw [List.getElem?_eq_none (by omega), List.getElem?_eq_none (by simpa using large)]

theorem listing_congr {z' : Nat → α} (same : ∀ i < n, z' i = z i) : listing z' n = listing z n :=
  (listing_ext (listing_length z n) fun i small => by rw [listing_get small, same i small]).symm

theorem listing_push (z : Nat → α) (n : Nat) (a : α) : listing (Function.update z n a) (n + 1) = listing z n ++ [a] := by
  rw [listing_succ, Function.update_self, listing_congr]
  intro i small
  exact Function.update_of_ne (Nat.ne_of_lt small) a z

theorem listing_last (z : Nat → α) (n : Nat) : (listing z (n + 1)).getLast? = some (z n) := by
  rw [listing_succ, List.getLast?_concat]

def indexFrom [DecidableEq α] (z : Nat → α) (a : α) : Nat → Nat → Option Nat
  | _, 0 => none
  | i, n + 1 => if z i = a then some i else indexFrom z a (i + 1) n

theorem indexFrom_some [DecidableEq α] {found : Nat} (search : indexFrom z a i n = some found) :
    i ≤ found ∧ found < i + n ∧ z found = a ∧ ∀ j, i ≤ j → j < found → z j ≠ a := by
  induction n generalizing i with
  | zero => cases search
  | succ n ih =>
    rw [indexFrom] at search
    split at search
    next here =>
      cases search
      exact ⟨Nat.le_refl _, by omega, here, fun j low high => absurd low (Nat.not_le.mpr high)⟩
    next other =>
      obtain ⟨low, high, same, first⟩ := ih search
      refine ⟨by omega, by omega, same, fun j from_ below => ?_⟩
      rcases Nat.eq_or_lt_of_le from_ with rfl | later
      · exact other
      · exact first j later below

theorem indexFrom_none [DecidableEq α] (search : indexFrom z a i n = none) : ∀ j, i ≤ j → j < i + n → z j ≠ a := by
  induction n generalizing i with
  | zero => exact fun j low high => absurd low (by omega)
  | succ n ih =>
    rw [indexFrom] at search
    split at search
    next => cases search
    next other =>
      intro j low high
      rcases Nat.eq_or_lt_of_le low with rfl | later
      · exact other
      · exact ih search j later (by omega)

theorem indexFrom_member [DecidableEq α] (member : a ∈ listing z n) : ∃ found, indexFrom z a 0 n = some found := by
  cases search : indexFrom z a 0 n with
  | some found => exact ⟨found, rfl⟩
  | none =>
    obtain ⟨j, small, same⟩ := List.mem_map.mp member
    exact absurd same (indexFrom_none search j (Nat.zero_le j) (by simpa using small))

/-- Each of the `n` elements from `i` on takes the value of the next one. -/
def shiftDown (z : Nat → α) : Nat → Nat → Nat → α
  | _, 0 => z
  | i, n + 1 => shiftDown (Function.update z i (z (i + 1))) (i + 1) n

theorem shiftDown_apply (z : Nat → α) (i n j : Nat) :
    shiftDown z i n j = if i ≤ j ∧ j < i + n then z (j + 1) else z j := by
  induction n generalizing z i with
  | zero => rw [shiftDown, if_neg (by omega)]
  | succ n ih =>
    rw [shiftDown, ih]
    by_cases here : j = i
    · subst here
      rw [if_neg (by omega), if_pos (by omega), Function.update_self]
    · -- the element that is read has not been written yet
      rw [Function.update_of_ne here]
      by_cases inside : i + 1 ≤ j ∧ j < i + 1 + n
      · rw [if_pos inside, if_pos (by omega), Function.update_of_ne (by omega)]
      · rw [if_neg inside, if_neg (by omega)]

theorem listing_shiftDown (small : i < n) : listing (shiftDown z i (n - 1 - i)) (n - 1) = (listing z n).eraseIdx i := by
  symm
  apply listing_ext
  · rw [List.length_eraseIdx_of_lt (by simpa using small), listing_length]
  · intro j below
    rw [List.getElem?_eraseIdx, shiftDown_apply]
    by_cases before : j < i
    · rw [if_pos before, if_neg (by omega), listing_get (by omega)]
    · rw [if_neg before, if_pos (by omega), listing_get (by omega)]

theorem listing_removed [DecidableEq α] {found : Nat} (search : indexFrom z a 0 n = some found) :
    listing (shiftDown z found (n - 1 - found)) (n - 1) = (listing z n).erase a := by
  obtain ⟨_, small, same, first⟩ := indexFrom_some search
  have length : found < (listing z n).length := by rw [listing_length]; omega
  have here : (listing z n)[found] = a := by
    apply Option.some.inj
    rw [← List.getElem?_eq_getElem length, listing_get (by omega), same]
  have before : a ∉ (listing z n).take found := by
    intro member
    obtain ⟨j, below, at_⟩ := List.mem_take_iff_getElem.mp member
    rw [← Option.some_inj, ← List.getElem?_eq_getElem, listing_get (by omega)] at at_
    exact first j (Nat.zero_le j) (by omega) (Option.some.inj at_)
  have split : listing z n = (listing z n).take found ++ a :: (listing z n).drop (found + 1) := by
    rw [← here, ← List.drop_eq_getElem_cons length, List.take_append_drop]
  rw [listing_shiftDown (by omega), List.eraseIdx_eq_take_drop_succ]
  conv_rhs => rw [split, List.erase_append_right _ before, List.erase_cons_head]

/-- The count goes down over the last elements that pass, but not below one. -/
def backWhile (p : α → Bool) (z : Nat → α) : Nat → Nat
  | n + 2 => if p (z (n + 1)) then backWhile p z (n + 1) else n + 2
  | n => n

theorem backWhile_one (p : α → Bool) (z : Nat → α) : backWhile p z 1 = 1 := rfl

theorem backWhile_stop {p : α → Bool} {l : List α} {x : α} (view : listing z n = a :: (l ++ [x])) (stop : p x = false) :
    backWhile p z n = n := by
  have length := congrArg List.length view
  simp only [listing_length, List.length_cons, List.length_append, List.length_nil] at length
  subst length
  have last : z (l.length + 1) = x := by
    have end_ := listing_last z (l.length + 1)
    rw [view, ← List.cons_append, List.getLast?_concat] at end_
    exact (Option.some.inj end_).symm
  rw [backWhile, last, stop]
  rfl

theorem listing_backWhile {p : α → Bool} {xs ys : List α} (view : listing z n = a :: (xs ++ ys)) (pass : ∀ y ∈ ys, p y = true)
    (stop : ∀ x ∈ xs.getLast?, p x = false) : listing z (backWhile p z n) = a :: xs := by
  induction ys using List.reverseRecOn generalizing n with
  | nil =>
    rw [List.append_nil] at view
    rcases List.eq_nil_or_concat xs with rfl | ⟨l, x, whole⟩
    · have length := congrArg List.length view
      simp only [listing_length, List.length_cons, List.length_nil] at length
      rw [length, backWhile_one, ← view, length]
    · rw [List.concat_eq_append] at whole
      subst whole
      rw [backWhile_stop view (stop x (List.getLast?_concat ..)), view]
  | append_singleton ys y ih =>
    have length := congrArg List.length view
    simp only [listing_length, List.length_cons, List.length_append, List.length_nil] at length
    subst length
    rw [← List.append_assoc, ← List.cons_append, show xs.length + (ys.length + (0 + 1)) + 1 = xs.length + ys.length + 1 + 1 by omega,
      listing_succ] at view
    obtain ⟨before, last⟩ := List.append_singleton_inj.mp view
    have passes := pass y (List.mem_append_right _ (List.mem_singleton_self y))
    rw [show xs.length + (ys.length + (0 + 1)) + 1 = xs.length + ys.length + 2 by omega, backWhile, last, if_pos passes]
    exact ih before fun x member => pass x (List.mem_append_left _ member)

end

section
variable {α β : Type} {f : Nat → α → Option β} {i : Nat} {l : List α}

/-- What the members give, where the first one is at `i`. -/
def passing (f : Nat → α → Option β) : Nat → List α → List β
  | _, [] => []
  | i, a :: l =>
      match f i a with
      | none => passing f (i + 1) l
      | some b => b :: passing f (i + 1) l

def nthPassing (f : Nat → α → Option β) (index : UInt32) : Nat → List α → UInt32 → Option β
  | _, [], _ => none
  | i, a :: l, seen =>
      match f i a with
      | none => nthPassing f index (i + 1) l seen
      | some b => if seen = index then some b else nthPassing f index (i + 1) l (seen + 1)

theorem nthPassing_eq (index : UInt32) (l : List α) : ∀ (i : Nat) (seen : UInt32), seen ≤ index →
    seen.toNat + l.length < 2 ^ 32 → nthPassing f index i l seen = (passing f i l)[index.toNat - seen.toNat]? := by
  induction l with
  | nil =>
    intro i seen _ _
    rfl
  | cons a l ih =>
    intro i seen low room
    rw [List.length_cons] at room
    rw [nthPassing, passing]
    cases f i a with
    | none => exact ih (i + 1) seen low (by omega)
    | some b =>
      simp only
      rw [UInt32.le_iff_toNat_le] at low
      by_cases here : seen = index
      · rw [if_pos here, here, Nat.sub_self]
        rfl
      · have next : (seen + 1).toNat = seen.toNat + 1 := by
          rw [UInt32.toNat_add]
          exact Nat.mod_eq_of_lt (by simp only [UInt32.reduceToNat]; omega)
        have other : seen.toNat ≠ index.toNat := fun same => here (UInt32.toNat_inj.mp same)
        rw [if_neg here, ih (i + 1) (seen + 1) (UInt32.le_iff_toNat_le.mpr (by omega)) (by omega), next,
          show index.toNat - seen.toNat = index.toNat - (seen.toNat + 1) + 1 by omega, List.getElem?_cons_succ]

theorem mem_passing {b : β} : b ∈ passing f i l ↔ ∃ j a, l[j]? = some a ∧ f (i + j) a = some b := by
  induction l generalizing i with
  | nil =>
    constructor
    · intro member
      cases member
    · rintro ⟨j, a, found, _⟩
      cases found
  | cons a l ih =>
    have later : b ∈ passing f (i + 1) l ↔ ∃ j a', (a :: l)[j + 1]? = some a' ∧ f (i + (j + 1)) a' = some b := by
      simp only [ih, List.getElem?_cons_succ, Nat.add_assoc, Nat.add_comm 1]
    have split : b ∈ passing f i (a :: l) ↔ f i a = some b ∨ b ∈ passing f (i + 1) l := by
      rw [passing]
      cases f i a with
      | none => simp only [false_or, reduceCtorEq]
      | some b' => simp only [List.mem_cons, Option.some.injEq, eq_comm]
    rw [split, later]
    constructor
    · rintro (here | ⟨j, there⟩)
      · exact ⟨0, a, rfl, here⟩
      · exact ⟨j + 1, there⟩
    · rintro ⟨j, a', found, gives⟩
      cases j with
      | zero =>
        cases found
        exact Or.inl gives
      | succ j => exact Or.inr ⟨j, a', found, gives⟩

theorem passing_nodup (place : β → Nat) (placed : ∀ i a b, f i a = some b → place b = i) (l : List α) :
    ∀ i, (passing f i l).Nodup := by
  induction l with
  | nil =>
    intro i
    exact List.nodup_nil
  | cons a l ih =>
    intro i
    rw [passing]
    cases gives : f i a with
    | none => exact ih (i + 1)
    | some b =>
      refine List.nodup_cons.mpr ⟨fun again => ?_, ih (i + 1)⟩
      obtain ⟨j, a', _, gives'⟩ := mem_passing.mp again
      have first := placed i a b gives
      have second := placed (i + 1 + j) a' b gives'
      omega

end

end RexOs.Library
