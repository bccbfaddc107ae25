import Mathlib.Data.List.Rotate
import Mathlib.Data.List.Count

/-! Taking turns.

A queue lists those who take turns, beginning with the one that has the turn. The turn
goes to the second, and the first goes to the end or leaves. Others may join anywhere
behind the first. Between two turns of a member every other member that stays has one.
-/

set_option autoImplicit false

namespace RexOs.Library

variable {α : Type}

/-- A step of the queue; the label is the member that gets the turn. -/
inductive Turn : List α → Option α → List α → Prop where
  | idle {q : List α} : Turn q none q
  | join {c t : α} {xs ys : List α} (fresh : t ∉ c :: (xs ++ ys)) : Turn (c :: (xs ++ ys)) none (c :: (xs ++ t :: ys))
  | next {c n : α} {rest : List α} : Turn (c :: n :: rest) (some n) (n :: (rest ++ [c]))
  | leave {c n : α} {rest : List α} : Turn (c :: n :: rest) (some n) (n :: rest)

section
variable {a x : α} {q q' : List α} {label : Option α}

theorem isRotated_filter {l l' : List α} (rotated : l ~r l') (keep : α → Bool) : l.filter keep ~r l'.filter keep := by
  obtain ⟨n, rfl⟩ := rotated
  rw [List.rotate_eq_drop_append_take_mod, List.filter_append]
  conv_lhs => rw [← List.take_append_drop (n % l.length) l, List.filter_append]
  exact List.isRotated_append

theorem Turn.rotated (turn : Turn q label q') (nodup : q.Nodup) (keep : α → Bool)
    (stays : ∀ x, keep x = true → x ∈ q ∧ x ∈ q') : q'.filter keep ~r q.filter keep := by
  have out : ∀ t, t ∉ q ∨ t ∉ q' → keep t = false := by
    intro t outside
    by_contra kept
    have inside := stays t (eq_true_of_ne_false kept)
    rcases outside with before | after
    · exact before inside.1
    · exact after inside.2
  cases turn with
  | idle => exact List.IsRotated.refl _
  | @join c t xs ys fresh =>
    have same : (c :: (xs ++ t :: ys)).filter keep = (c :: (xs ++ ys)).filter keep := by
      have gone := out t (Or.inl fresh)
      simp only [List.filter_cons, List.filter_append, gone, Bool.false_eq_true, if_false]
    rw [same]
  | @next c n rest =>
    rw [← List.cons_append, List.filter_append, show c :: n :: rest = [c] ++ n :: rest from rfl, List.filter_append]
    exact List.isRotated_append
  | @leave c n rest =>
    have gone := out c (Or.inr (List.nodup_cons.mp nodup).1)
    rw [List.filter_cons_of_neg (a := c)]
    simp [gone]

variable [DecidableEq α]

def pair (a x : α) (q : List α) : List α := q.filter fun y => y = a ∨ y = x

/-- How often `x` has had the turn since `a` got it. -/
inductive Round (a x : α) : List α → Nat → Prop where
  | start {rest : List α} (order : pair a x rest = [x]) : Round a x (a :: rest) 0
  | waits {c : α} {rest : List α} (notA : c ≠ a) (notX : c ≠ x) (order : pair a x rest = [x, a]) : Round a x (c :: rest) 0
  | here {rest : List α} (order : pair a x rest = [a]) : Round a x (x :: rest) 1
  | had {c : α} {rest : List α} (notA : c ≠ a) (notX : c ≠ x) (order : pair a x rest = [a, x]) : Round a x (c :: rest) 1

def counts (x : α) (label : Option α) : Nat := if label = some x then 1 else 0

theorem mem_pair {y : α} {q : List α} : y ∈ pair a x q ↔ y ∈ q ∧ (y = a ∨ y = x) := by
  simp [pair]

theorem pair_cons {y : α} {q : List α} : pair a x (y :: q) = if y = a ∨ y = x then y :: pair a x q else pair a x q := by
  simp [pair, List.filter_cons]

theorem pair_append {q r : List α} : pair a x (q ++ r) = pair a x q ++ pair a x r := List.filter_append ..

theorem pair_other {y : α} {q : List α} (notA : y ≠ a) (notX : y ≠ x) : pair a x (y :: q) = pair a x q := by
  rw [pair_cons, if_neg (not_or.mpr ⟨notA, notX⟩)]

theorem pair_left {q : List α} : pair a x (a :: q) = a :: pair a x q := by
  rw [pair_cons, if_pos (Or.inl rfl)]

theorem pair_right {q : List α} : pair a x (x :: q) = x :: pair a x q := by
  rw [pair_cons, if_pos (Or.inr rfl)]

theorem Round.begin {rest : List α} (nodup : (a :: rest).Nodup) (inside : x ∈ rest) : Round a x (a :: rest) 0 := by
  have apart := List.nodup_cons.mp nodup
  obtain ⟨before, after, rfl⟩ := List.append_of_mem inside
  have once := (List.nodup_middle.mp apart.2).notMem
  apply Round.start
  have none' : ∀ q : List α, a ∉ q → x ∉ q → pair a x q = [] := by
    intro q notA notX
    apply List.eq_nil_iff_forall_not_mem.mpr
    intro y member
    obtain ⟨listed, rfl | rfl⟩ := mem_pair.mp member
    · exact notA listed
    · exact notX listed
  rw [List.mem_append, not_or] at once
  rw [List.mem_append, List.mem_cons, not_or, not_or] at apart
  rw [pair_append, pair_right, none' before apart.1.1 once.1, none' after apart.1.2.2 once.2, List.nil_append]

theorem Round.step {n : Nat} (round : Round a x q n) (apart : x ≠ a) (turn : Turn q label q') (other : label ≠ some a)
    (staysA : a ∈ q') (staysX : x ∈ q') : Round a x q' (n + counts x label) := by
  cases turn with
  | idle => exact round
  | @join c t xs ys fresh =>
    have same : a ∈ c :: (xs ++ ys) → x ∈ c :: (xs ++ ys) → pair a x (xs ++ t :: ys) = pair a x (xs ++ ys) := by
      intro insideA insideX
      have notA : t ≠ a := fun same => fresh (same ▸ insideA)
      have notX : t ≠ x := fun same => fresh (same ▸ insideX)
      rw [pair_append, pair_other notA notX, ← pair_append]
    -- both were there before, so that only the new member is not one of them
    have listed : ∀ y, y ∈ pair a x (xs ++ ys) → y ∈ c :: (xs ++ ys) := fun y member =>
      List.mem_cons_of_mem c (mem_pair.mp member).1
    cases round with
    | start order => exact .start ((same List.mem_cons_self (listed x (by simp [order]))).trans order)
    | waits notA notX order =>
      exact .waits notA notX ((same (listed a (by simp [order])) (listed x (by simp [order]))).trans order)
    | here order => exact .here ((same (listed a (by simp [order])) List.mem_cons_self).trans order)
    | had notA notX order =>
      exact .had notA notX ((same (listed a (by simp [order])) (listed x (by simp [order]))).trans order)
  | @next c m rest =>
    have notA : m ≠ a := fun same => other (congrArg some same)
    by_cases turnX : m = x
    · subst turnX
      rw [counts, if_pos rfl]
      cases round with
      | start order =>
        rw [pair_right, List.cons.injEq] at order
        exact .here (by rw [pair_append, order.2, pair_left]; rfl)
      | waits notA' notX order =>
        rw [pair_right, List.cons.injEq] at order
        exact .here (by rw [pair_append, order.2, pair_other notA' notX]; rfl)
      | here order =>
        rw [pair_right, List.cons.injEq] at order
        exact absurd order.1 apart
      | had _ _ order =>
        rw [pair_right, List.cons.injEq] at order
        exact absurd order.1 apart
    · rw [counts, if_neg fun same => turnX (Option.some.inj same)]
      cases round with
      | start order =>
        rw [pair_other notA turnX] at order
        exact .waits notA turnX (by rw [pair_append, order, pair_left]; rfl)
      | waits notA' notX order =>
        rw [pair_other notA turnX] at order
        exact .waits notA turnX (by rw [pair_append, order, pair_other notA' notX]; rfl)
      | here order =>
        rw [pair_other notA turnX] at order
        exact .had notA turnX (by rw [pair_append, order, pair_right]; rfl)
      | had notA' notX order =>
        rw [pair_other notA turnX] at order
        exact .had notA turnX (by rw [pair_append, order, pair_other notA' notX]; rfl)
  | @leave c m rest =>
    have notA : m ≠ a := fun same => other (congrArg some same)
    have both : a ∈ pair a x (m :: rest) ∧ x ∈ pair a x (m :: rest) :=
      ⟨mem_pair.mpr ⟨staysA, Or.inl rfl⟩, mem_pair.mpr ⟨staysX, Or.inr rfl⟩⟩
    by_cases turnX : m = x
    · subst turnX
      rw [counts, if_pos rfl]
      cases round with
      | start order =>
        rw [order] at both
        exact absurd (List.mem_singleton.mp both.1).symm apart
      | waits _ _ order =>
        rw [pair_right, List.cons.injEq] at order
        exact .here order.2
      | here order =>
        rw [order] at both
        exact absurd (List.mem_singleton.mp both.2) apart
      | had _ _ order =>
        rw [pair_right, List.cons.injEq] at order
        exact absurd order.1 apart
    · rw [counts, if_neg fun same => turnX (Option.some.inj same)]
      cases round with
      | start order =>
        rw [order] at both
        exact absurd (List.mem_singleton.mp both.1).symm apart
      | waits _ _ order =>
        rw [pair_other notA turnX] at order
        exact .waits notA turnX order
      | here order =>
        rw [order] at both
        exact absurd (List.mem_singleton.mp both.2) apart
      | had _ _ order =>
        rw [pair_other notA turnX] at order
        exact .had notA turnX order

theorem Round.finish {n : Nat} (round : Round a x q n) (apart : x ≠ a) (turn : Turn q (some a) q') : n = 1 := by
  have first : ∃ c rest, q = c :: a :: rest := by
    cases turn with
    | @next c _ rest => exact ⟨c, rest, rfl⟩
    | @leave c _ rest => exact ⟨c, rest, rfl⟩
  obtain ⟨c, rest, rfl⟩ := first
  cases round with
  | start order =>
    rw [pair_left, List.cons.injEq] at order
    exact absurd order.1.symm apart
  | waits _ _ order =>
    rw [pair_left, List.cons.injEq] at order
    exact absurd order.1.symm apart
  | here _ => rfl
  | had _ _ _ => rfl

theorem existsUnique_of_count {β : Type} [BEq β] [LawfulBEq β] {y : β} {l : List β} (once : l.count y = 1) : ∃! i : Nat, l[i]? = some y := by
  induction l with
  | nil => cases once
  | cons z l ih =>
    rw [List.count_cons] at once
    by_cases first : z = y
    · rw [if_pos (beq_iff_eq.mpr first)] at once
      have absent : y ∉ l := List.count_eq_zero.mp (by omega)
      refine ⟨0, by rw [first]; rfl, ?_⟩
      intro i found
      cases i with
      | zero => rfl
      | succ i =>
        have later : l[i]? = some y := found
        exact absurd (List.mem_of_getElem? later) absent
    · rw [if_neg (by simpa using first)] at once
      obtain ⟨i, found, only⟩ := ih once
      refine ⟨i + 1, found, ?_⟩
      intro j found'
      cases j with
      | zero => exact absurd (Option.some.inj found') first
      | succ j => rw [only j found']

end

end RexOs.Library
