import Mathlib.Logic.Relation
import Mathlib.Logic.Function.Basic

/-! What can be reached along lists of children, and through links.

`Reach kids a b` follows the lists from `a` to `b`. Lists change in two ways: `Grafted` puts new
members without children of their own behind a list, and `Pruned` takes members away. `Linked inside
next a b` says that the links lead from `a` to `b` and that all nodes on the way, `a` and `b` among
them, are inside.
-/

set_option autoImplicit false

namespace RexOs.Library

section
variable {Node : Type} {kids kids' : Node → List Node} {a b d i j r : Node} {new : List Node}

def Reach (kids : Node → List Node) : Node → Node → Prop := Relation.ReflTransGen fun d i => i ∈ kids d

theorem Reach.refl (kids : Node → List Node) (a : Node) : Reach kids a a := Relation.ReflTransGen.refl

theorem Reach.child (reach : Reach kids a b) (member : i ∈ kids b) : Reach kids a i :=
  Relation.ReflTransGen.tail reach member

theorem Reach.mono (more : ∀ d, kids d ⊆ kids' d) (reach : Reach kids a b) : Reach kids' a b :=
  Relation.ReflTransGen.mono (fun d _ member => more d member) _ _ reach

theorem Reach.cases (reach : Reach kids a b) : a = b ∨ ∃ d, Reach kids a d ∧ b ∈ kids d := by
  rcases Relation.ReflTransGen.cases_tail reach with same | ⟨d, before, member⟩
  · exact Or.inl same.symm
  · exact Or.inr ⟨d, before, member⟩

theorem Reach.childless (none : kids a = []) (reach : Reach kids a b) : b = a := by
  induction reach with
  | refl => rfl
  | tail _ member ih =>
    rw [ih, none] at member
    cases member

/-- The list of `d` has the members `new` in addition, which have no children. -/
structure Grafted (kids : Node → List Node) (d : Node) (new : List Node) (kids' : Node → List Node) : Prop where
  here : kids' d = kids d ++ new
  there : ∀ i, i ≠ d → kids' i = kids i
  childless : ∀ i ∈ new, kids' i = []

theorem Grafted.more (grafted : Grafted kids d new kids') (i : Node) : kids i ⊆ kids' i := by
  by_cases same : i = d
  · subst same
    rw [grafted.here]
    exact List.subset_append_left _ _
  · rw [grafted.there i same]
    exact List.Subset.refl _

theorem Grafted.member (grafted : Grafted kids d new kids') (member : j ∈ kids' i) : j ∈ kids i ∨ i = d ∧ j ∈ new := by
  by_cases same : i = d
  · subst same
    rw [grafted.here] at member
    exact (List.mem_append.mp member).imp_right fun fresh => ⟨rfl, fresh⟩
  · rw [grafted.there i same] at member
    exact Or.inl member

theorem Grafted.reach (grafted : Grafted kids d new kids') (reach : Reach kids r j) : Reach kids' r j :=
  reach.mono grafted.more

theorem Grafted.reached (grafted : Grafted kids d new kids') (reach : Reach kids' r j) :
    Reach kids r j ∨ Reach kids r d ∧ j ∈ new := by
  induction reach with
  | refl => exact Or.inl (Reach.refl _ _)
  | tail _ member ih =>
    rcases ih with before | ⟨_, fresh⟩
    · rcases grafted.member member with old | ⟨rfl, fresh⟩
      · exact Or.inl (before.child old)
      · exact Or.inr ⟨before, fresh⟩
    · rw [grafted.childless _ fresh] at member
      cases member

structure Pruned (kids : Node → List Node) (d i : Node) (kids' : Node → List Node) : Prop where
  member : i ∈ kids d
  here : ∀ j, j ∈ kids' d ↔ j ∈ kids d ∧ j ≠ i
  there : ∀ j, j ≠ d → kids' j = kids j

theorem Pruned.less (pruned : Pruned kids d i kids') (j : Node) : kids' j ⊆ kids j := by
  by_cases same : j = d
  · subst same
    exact fun k member => ((pruned.here k).mp member).1
  · rw [pruned.there j same]
    exact List.Subset.refl _

theorem Pruned.reached (pruned : Pruned kids d i kids') (reach : Reach kids' r j) : Reach kids r j :=
  reach.mono pruned.less

theorem Pruned.gone (pruned : Pruned kids d i kids') (notRoot : r ≠ i)
    (parent : ∀ d', Reach kids r d' → i ∈ kids d' → d' = d) : ¬ Reach kids' r i := by
  intro reach
  rcases reach.cases with same | ⟨d', before, member⟩
  · exact notRoot same
  · obtain rfl := parent d' (pruned.reached before) (pruned.less d' member)
    exact ((pruned.here i).mp member).2 rfl

theorem Pruned.below (pruned : Pruned kids d i kids') (reach : Reach kids r j) : Reach kids' r j ∨ Reach kids i j := by
  induction reach with
  | refl => exact Or.inl (Reach.refl _ _)
  | @tail b c _ member ih =>
    rcases ih with still | below
    · by_cases same : b = d
      · subst same
        by_cases taken : c = i
        · subst taken
          exact Or.inr (Reach.refl _ _)
        · exact Or.inl (still.child ((pruned.here c).mpr ⟨member, taken⟩))
      · rw [← pruned.there b same] at member
        exact Or.inl (still.child member)
    · exact Or.inr (below.child member)

end

section
variable {Node : Type} {inside : Node → Prop} {next other : Node → Node} {a b c stop : Node}

inductive Linked (inside : Node → Prop) (next : Node → Node) : Node → Node → Prop where
  | here {a : Node} (member : inside a) : Linked inside next a a
  | link {a b : Node} (member : inside a) (rest : Linked inside next (next a) b) : Linked inside next a b

namespace Linked

theorem start (linked : Linked inside next a b) : inside a := by
  cases linked with
  | here member => exact member
  | link member _ => exact member

theorem congr (linked : Linked inside next a b) (same : ∀ x, Linked inside next a x → other x = next x) :
    Linked inside other a b := by
  induction linked with
  | here member => exact .here member
  | link member rest ih =>
    apply Linked.link member
    rw [same _ (.here member)]
    exact ih fun x linked => same x (.link member linked)

theorem congr_iff (same : ∀ x, Linked inside next a x → other x = next x) :
    Linked inside other a b ↔ Linked inside next a b := by
  constructor
  · intro linked
    induction linked with
    | here member => exact .here member
    | link member rest ih =>
      apply Linked.link member
      rw [same _ (.here member)] at ih
      exact ih fun x linked => same x (.link member linked)
  · exact fun linked => linked.congr same

section
variable [DecidableEq Node]

theorem of_update (outside : ¬ inside stop) (linked : Linked inside (Function.update next c stop) a b) :
    Linked inside next a b := by
  induction linked with
  | here member => exact .here member
  | @link a b member rest ih =>
    apply Linked.link member
    by_cases cut : a = c
    · rw [cut, Function.update_self] at rest
      exact absurd rest.start outside
    · rwa [Function.update_of_ne cut] at ih

theorem update_or (linked : Linked inside next a b) (c stop : Node) : Linked inside (Function.update next c stop) a b ∨ b = c ∨
    Linked inside (Function.update next c stop) (next c) b := by
  induction linked with
  | here member => exact Or.inl (.here member)
  | @link a b member rest ih =>
    rcases ih with direct | behind
    · by_cases cut : a = c
      · rw [cut] at direct
        exact Or.inr (Or.inr direct)
      · refine Or.inl (.link member ?_)
        rwa [Function.update_of_ne cut]
    · exact Or.inr behind

theorem cut_iff (member : inside c) (outside : ¬ inside stop) :
    Linked inside next c b ↔ b = c ∨ Linked inside (Function.update next c stop) (next c) b := by
  constructor
  · intro linked
    rcases linked.update_or c stop with direct | behind
    · cases direct with
      | here => exact Or.inl rfl
      | link _ rest =>
        rw [Function.update_self] at rest
        exact absurd rest.start outside
    · exact behind
  · rintro (rfl | behind)
    · exact .here member
    · exact .link member (behind.of_update outside)

end

end Linked

end

end RexOs.Library
