import Mathlib.Data.List.Induction

/-! Trees that are walked by a list of indices.

`next d a i` is the node below `a` at index `i` when `a` is at depth `d`. A change of the
tree at one place, the `hole`, leaves all walks that do not pass it alone; a new node
without children adds exactly one walk.
-/

set_option autoImplicit false

namespace RexOs.Library

variable {Node Index : Type}

def walkFrom (next : Nat → Node → Index → Option Node) : Nat → Node → List Index → Option Node
  | _, a, [] => some a
  | d, a, i :: path => (next d a i).bind fun b => walkFrom next (d + 1) b path

def walk (next : Nat → Node → Index → Option Node) (root : Node) (path : List Index) : Option Node :=
  walkFrom next 0 root path

/-- Paths of at most `depth` indices lead to different nodes. -/
def Distinct (next : Nat → Node → Index → Option Node) (root : Node) (depth : Nat) : Prop :=
  ∀ p q a, p.length ≤ depth → q.length ≤ depth → walk next root p = some a → walk next root q = some a → p = q

section
variable {next next' : Nat → Node → Index → Option Node} {root : Node} {p q : List Index} {i : Index}

theorem walkFrom_append (d : Nat) (a : Node) (p q : List Index) :
    walkFrom next d a (p ++ q) = (walkFrom next d a p).bind fun b => walkFrom next (d + p.length) b q := by
  induction p generalizing d a with
  | nil => rfl
  | cons i p ih =>
    simp only [List.cons_append, walkFrom, List.length_cons]
    cases next d a i with
    | none => rfl
    | some b =>
      simp only [Option.bind_some, ih]
      congr 1
      funext b
      rw [Nat.add_assoc, Nat.add_comm 1]

@[simp] theorem walk_nil : walk next root [] = some root := rfl

theorem walk_append (p q : List Index) :
    walk next root (p ++ q) = (walk next root p).bind fun a => walkFrom next p.length a q := by
  simp only [walk, walkFrom_append, Nat.zero_add]

theorem walk_snoc (p : List Index) (i : Index) :
    walk next root (p ++ [i]) = (walk next root p).bind fun a => next p.length a i := by
  rw [walk_append]
  congr 1
  funext a
  simp only [walkFrom]
  cases next p.length a i <;> rfl

theorem walk_beginning {a : Node} (found : walk next root q = some a) (begins : p <+: q) : ∃ b, walk next root p = some b := by
  obtain ⟨rest, rfl⟩ := begins
  rw [walk_append] at found
  obtain ⟨b, first, _⟩ := Option.bind_eq_some_iff.mp found
  exact ⟨b, first⟩

variable {depth : Nat} {hole : List Index}

theorem walk_congr
    (same : ∀ p i a, p.length < depth → walk next root p = some a → next' p.length a i = next p.length a i) :
    ∀ q, q.length ≤ depth → walk next' root q = walk next root q := by
  intro q
  induction q using List.reverseRecOn with
  | nil =>
    intro _
    rfl
  | append_singleton p i ih =>
    intro short
    rw [List.length_append, List.length_singleton] at short
    rw [walk_snoc, walk_snoc, ih (by omega)]
    cases found : walk next root p with
    | none => rfl
    | some a => exact same p i a (by omega) found

theorem walk_off
    (same : ∀ p i a, p.length < depth → walk next root p = some a → p ++ [i] ≠ hole →
      next' p.length a i = next p.length a i) :
    ∀ q, q.length ≤ depth → ¬ hole <+: q → walk next' root q = walk next root q := by
  intro q
  induction q using List.reverseRecOn with
  | nil =>
    intro _ _
    rfl
  | append_singleton p i ih =>
    intro short off
    have before : ¬ hole <+: p := fun begins => off (begins.trans (List.prefix_append p [i]))
    rw [List.length_append, List.length_singleton] at short
    rw [walk_snoc, walk_snoc, ih (by omega) before]
    cases found : walk next root p with
    | none => rfl
    | some a =>
      apply same p i a (by omega) found
      rintro rfl
      exact off (List.prefix_refl _)

variable {a fresh : Node}

theorem walk_cut
    (same : ∀ p i a, p.length < depth → walk next root p = some a → p ++ [i] ≠ hole →
      next' p.length a i = next p.length a i)
    (place : p ++ [i] = hole) (parent : walk next root p = some a) (gone : next' p.length a i = none)
    (inside : hole.length ≤ depth) : ∀ q, hole <+: q → walk next' root q = none := by
  intro q begins
  obtain ⟨rest, rfl⟩ := begins
  subst place
  rw [List.length_append, List.length_singleton] at inside
  have before : ¬ p ++ [i] <+: p := by
    intro begins
    have := begins.length_le
    rw [List.length_append, List.length_singleton] at this
    omega
  rw [walk_append, walk_snoc, walk_off same p (by omega) before, parent, Option.bind_some, gone, Option.bind_none]

theorem Distinct.mono (distinct : Distinct next root depth)
    (fewer : ∀ q a, q.length ≤ depth → walk next' root q = some a → walk next root q = some a) :
    Distinct next' root depth := by
  intro p q a shortP shortQ foundP foundQ
  exact distinct p q a shortP shortQ (fewer p a shortP foundP) (fewer q a shortQ foundQ)

theorem walk_grow
    (same : ∀ p i a, p.length < depth → walk next root p = some a → p ++ [i] ≠ hole →
      next' p.length a i = next p.length a i)
    (place : p ++ [i] = hole) (parent : walk next root p = some a) (added : next' p.length a i = some fresh)
    (empty : hole.length < depth → ∀ j, next' (p.length + 1) fresh j = none) (inside : hole.length ≤ depth) :
    walk next' root hole = some fresh ∧
      ∀ q, q.length ≤ depth → hole <+: q → q ≠ hole → walk next' root q = none := by
  subst place
  rw [List.length_append, List.length_singleton] at inside
  have parent' : walk next' root p = some a := by
    rw [walk_off same p (by omega), parent]
    intro begins
    have := begins.length_le
    rw [List.length_append, List.length_singleton] at this
    omega
  have here : walk next' root (p ++ [i]) = some fresh := by
    rw [walk_snoc, parent', Option.bind_some, added]
  refine ⟨here, fun q short begins other => ?_⟩
  obtain ⟨rest, rfl⟩ := begins
  cases rest with
  | nil => exact absurd (List.append_nil _) other
  | cons j rest =>
    have deeper : (p ++ [i]).length < depth := by
      rw [List.length_append, List.length_cons] at short
      omega
    rw [walk_append, here, Option.bind_some, List.length_append, List.length_singleton, walkFrom, empty deeper]
    rfl

theorem Distinct.grow (distinct : Distinct next root depth)
    (same : ∀ p i a, p.length < depth → walk next root p = some a → p ++ [i] ≠ hole →
      next' p.length a i = next p.length a i)
    (here : walk next' root hole = some fresh)
    (below : ∀ q, q.length ≤ depth → hole <+: q → q ≠ hole → walk next' root q = none)
    (unused : ∀ q, q.length ≤ depth → walk next root q ≠ some fresh) : Distinct next' root depth := by
  have off := walk_off same
  -- a walk of the new tree is an old one or ends at the new node
  have cases' : ∀ q a, q.length ≤ depth → walk next' root q = some a →
      q = hole ∧ a = fresh ∨ walk next root q = some a := by
    intro q a short found
    by_cases begins : hole <+: q
    · by_cases other : q = hole
      · rw [other, here] at found
        exact Or.inl ⟨other, (Option.some.inj found).symm⟩
      · rw [below q short begins other] at found
        cases found
    · exact Or.inr (by rw [← off q short begins]; exact found)
  intro p q a shortP shortQ foundP foundQ
  rcases cases' p a shortP foundP with ⟨atP, rfl⟩ | oldP
  · rcases cases' q a shortQ foundQ with ⟨atQ, _⟩ | oldQ
    · rw [atP, atQ]
    · exact absurd oldQ (unused q shortQ)
  · rcases cases' q a shortQ foundQ with ⟨_, rfl⟩ | oldQ
    · exact absurd oldP (unused p shortP)
    · exact distinct p q a shortP shortQ oldP oldQ

end

end RexOs.Library
