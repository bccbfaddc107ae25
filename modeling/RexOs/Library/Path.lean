import Mathlib.Data.List.Nodup

/-! Singly linked structures read through a successor function.

`Path next a nodes b` follows `next` from `a`, visits exactly `nodes` and ends
at `b`. A null-terminated list is a path to the null value and a ring is a
nonempty path from its head back to the head.
-/

set_option autoImplicit false

namespace RexOs.Library

variable {Node : Type}

def Path (next : Node → Node) (a : Node) : List Node → Node → Prop
  | [], b => a = b
  | x :: rest, b => a = x ∧ Path next (next x) rest b

variable {next other : Node → Node} {a b c x y : Node} {nodes first rest : List Node}

@[simp] theorem path_nil : Path next a [] b ↔ a = b := Iff.rfl

@[simp] theorem path_cons : Path next a (x :: rest) b ↔ a = x ∧ Path next (next x) rest b := Iff.rfl

theorem path_append :
    Path next a (first ++ rest) c ↔ ∃ b, Path next a first b ∧ Path next b rest c := by
  induction first generalizing a with
  | nil => simp
  | cons x first ih => simp [ih, and_assoc]

theorem Path.last (path : Path next a (first ++ [x]) b) : next x = b := by
  obtain ⟨_, _, _, link⟩ := path_append.mp path
  exact link

theorem Path.congr (path : Path next a nodes b) (same : ∀ x ∈ nodes, other x = next x) :
    Path other a nodes b := by
  induction nodes generalizing a with
  | nil => exact path
  | cons x rest ih =>
    obtain ⟨here, tail⟩ := path
    refine ⟨here, ih ?_ fun y member => same y (List.mem_cons_of_mem x member)⟩
    rwa [same x (List.mem_cons_self ..)]

theorem Path.update [DecidableEq Node] (path : Path next a nodes b) (apart : x ∉ nodes) :
    Path (Function.update next x y) a nodes b :=
  path.congr fun z member => Function.update_of_ne (by rintro rfl; exact apart member) _ _

theorem Path.redirect_last [DecidableEq Node] (path : Path next a (first ++ [x]) b)
    (nodup : (first ++ [x]).Nodup) : Path (Function.update next x c) a (first ++ [x]) c := by
  obtain ⟨mid, before, here, _⟩ := path_append.mp path
  have apart : x ∉ first := fun member => by
    simpa using (List.nodup_append.mp nodup).2.2 x member x (by simp)
  refine path_append.mpr ⟨mid, before.update apart, here, ?_⟩
  simp

/-- `nodes` are the members of one cycle, listed from `head`. -/
structure Ring (next : Node → Node) (head : Node) (nodes : List Node) : Prop where
  nodup : nodes.Nodup
  nonempty : nodes ≠ []
  path : Path next head nodes head

namespace Ring

variable {head : Node}

theorem head_eq (ring : Ring next head nodes) : ∃ rest, nodes = head :: rest := by
  cases nodes with
  | nil => exact absurd rfl ring.nonempty
  | cons x rest => exact ⟨rest, by rw [ring.path.1]⟩

theorem head_mem (ring : Ring next head nodes) : head ∈ nodes := by
  obtain ⟨rest, rfl⟩ := ring.head_eq
  simp

theorem next_eq (ring : Ring next head (first ++ x :: rest)) :
    next x = (rest ++ [head]).head (by simp) := by
  obtain ⟨_, _, _, tail⟩ := path_append.mp ring.path
  cases rest with
  | nil => exact tail
  | cons y rest => exact tail.1

theorem next_mem (ring : Ring next head nodes) (member : x ∈ nodes) : next x ∈ nodes := by
  obtain ⟨first, rest, rfl⟩ := List.append_of_mem member
  rw [ring.next_eq]
  cases rest with
  | nil => simpa using ring.head_mem
  | cons y rest => simp

theorem congr (ring : Ring next head nodes) (same : ∀ x ∈ nodes, other x = next x) :
    Ring other head nodes :=
  ⟨ring.nodup, ring.nonempty, ring.path.congr same⟩

theorem singleton (loop : next x = x) : Ring next x [x] :=
  ⟨by simp, by simp, by simp [loop]⟩

theorem rotate (ring : Ring next head (first ++ x :: rest)) : Ring next x (x :: rest ++ first) := by
  obtain ⟨mid, before, here, after⟩ := path_append.mp ring.path
  refine ⟨List.nodup_append_comm.mp ring.nodup, by simp, path_append.mpr ⟨head, ⟨rfl, after⟩, ?_⟩⟩
  rw [← here]
  exact before

theorem unique {nodes' : List Node} (ring : Ring next head nodes) (ring' : Ring next head nodes') : nodes = nodes' := by
  -- the shorter list would come back to the head before its end
  have same : ∀ (xs ys : List Node) (a : Node), Path next a xs head → Path next a ys head → head ∉ xs → head ∉ ys → xs = ys := by
    intro xs
    induction xs with
    | nil =>
      intro ys a left right _ notYs
      cases ys with
      | nil => rfl
      | cons y ys =>
        rw [path_nil] at left
        exact absurd (by rw [← left, right.1]; exact List.mem_cons_self) notYs
    | cons x xs ih =>
      intro ys a left right notXs notYs
      cases ys with
      | nil =>
        rw [path_nil] at right
        exact absurd (by rw [← right, left.1]; exact List.mem_cons_self) notXs
      | cons y ys =>
        obtain ⟨rfl, left⟩ := left
        obtain ⟨rfl, right⟩ := right
        congr 1
        exact ih ys _ left right (fun member => notXs (List.mem_cons_of_mem _ member)) fun member => notYs (List.mem_cons_of_mem _ member)
  obtain ⟨rest, rfl⟩ := ring.head_eq
  obtain ⟨rest', rfl⟩ := ring'.head_eq
  congr 1
  exact same rest rest' (next head) ring.path.2 ring'.path.2 (List.nodup_cons.mp ring.nodup).1 (List.nodup_cons.mp ring'.nodup).1

theorem last_of_next (ring : Ring next head (first ++ [y])) (member : x ∈ first ++ [y]) (link : next x = head) : x = y := by
  obtain ⟨before, after, split⟩ := List.append_of_mem member
  have here := ring
  rw [split] at here
  cases after with
  | nil =>
    have last := congrArg List.getLast? split
    simpa using last.symm
  | cons z after =>
    have behind : next x = z := here.next_eq
    -- the head would be listed twice
    exfalso
    obtain rfl : z = head := behind.symm.trans link
    cases before with
    | nil => exact (List.nodup_cons.mp here.nodup).1 (by rw [here.path.1]; simp)
    | cons w before =>
      have front : z = w := here.path.1
      subst front
      exact (List.nodup_cons.mp here.nodup).1 (by simp)

variable [DecidableEq Node]

theorem insert (ring : Ring next head (head :: rest)) (fresh : x ∉ head :: rest) :
    Ring (Function.update (Function.update next x (next head)) head x) head (head :: x :: rest) := by
  have apart : x ≠ head := fun same => fresh (by simp [same])
  have notHead : head ∉ rest := (List.nodup_cons.mp ring.nodup).1
  have notRest : x ∉ rest := fun member => fresh (List.mem_cons_of_mem _ member)
  refine ⟨?_, by simp, rfl, ?_⟩
  · rw [List.nodup_cons, List.nodup_cons]
    exact ⟨by simp [notHead, apart.symm], notRest, (List.nodup_cons.mp ring.nodup).2⟩
  · rw [Function.update_self]
    refine ⟨rfl, ?_⟩
    rw [Function.update_of_ne apart, Function.update_self]
    exact (ring.path.2.update notRest).update notHead

theorem remove (ring : Ring next head (first ++ y :: x :: rest)) (z : Node) :
    Ring (Function.update (Function.update next y (next x)) x z) head (first ++ y :: rest) := by
  obtain ⟨mid, before, here, link, after⟩ := path_append.mp ring.path
  have splitX : first ++ y :: x :: rest = (first ++ [y]) ++ x :: rest := by simp
  obtain ⟨xApart, kept⟩ := List.nodup_cons.mp (List.nodup_middle.mp (splitX ▸ ring.nodup))
  have yApart := (List.nodup_cons.mp (List.nodup_middle.mp ring.nodup)).1
  simp only [List.mem_append, List.mem_cons, List.not_mem_nil, or_false, not_or] at xApart yApart
  obtain ⟨⟨xFirst, apart⟩, xRest⟩ := xApart
  obtain ⟨yFirst, _, yRest⟩ := yApart
  rw [List.append_assoc, List.singleton_append] at kept
  refine ⟨kept, by simp, path_append.mpr ⟨mid, (before.update yFirst).update xFirst, here, ?_⟩⟩
  rw [Function.update_of_ne (Ne.symm apart), Function.update_self]
  exact (after.update yRest).update xRest

theorem remove_head (ring : Ring next head (head :: (first ++ [y]))) (z : Node) :
    Ring (Function.update (Function.update next y (next head)) head z) (next head) (first ++ [y]) := by
  have nodup := ring.nodup
  rw [List.nodup_cons] at nodup
  refine ⟨nodup.2, by simp, ?_⟩
  have tail : Path next (next head) (first ++ [y]) head := ring.path.2
  exact (tail.redirect_last nodup.2).update nodup.1

end Ring

end RexOs.Library
