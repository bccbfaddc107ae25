import RexOs.Library.Safe

/-! Blocks of bytes that are allocated and released.

A block is live from its allocation to its release. Reading or writing outside of a block, and
any use of one that is not live, ends in a `BlockFault`. Every operation on one block leaves the
others alone.
-/

set_option autoImplicit false

namespace RexOs.Library

abbrev LiveBlocks := Nat → Option (List UInt8)

inductive BlockFault where
  | read
  | write
  | release
  deriving DecidableEq, Repr

namespace LiveBlocks
variable (h : LiveBlocks) (p : Nat)

/-- `p[i] = c`. -/
def poke (i : Int) (c : UInt8) : Except BlockFault LiveBlocks :=
  match h p with
  | some block => if 0 ≤ i ∧ i < block.length then .ok (Function.update h p (some (block.set i.toNat c))) else .error .write
  | none => .error .write

def peek (n : Int) : Except BlockFault (List UInt8) :=
  match h p with
  | some block => if n ≤ block.length then .ok (block.take n.toNat) else .error .read
  | none => .error .read

def memcpy (src n : Nat) : Except BlockFault LiveBlocks :=
  match h p, h src with
  | some block, some bytes =>
      if n ≤ bytes.length then
        if n ≤ block.length then .ok (Function.update h p (some (bytes.take n ++ block.drop n))) else .error .write
      else .error .read
  | _, _ => .error .write

def release : Except BlockFault LiveBlocks :=
  match h p with
  | some _ => .ok (Function.update h p none)
  | none => .error .release

/-- A new block at `p`, with whatever bytes are there. -/
def allocate (size : Nat) (junk : Nat → UInt8) : LiveBlocks := Function.update h p (some ((List.range size).map junk))

end LiveBlocks

variable {h h' : LiveBlocks} {p q : Nat} {block : List UInt8}

theorem LiveBlocks.allocate_here (h : LiveBlocks) (p size : Nat) (junk : Nat → UInt8) :
    h.allocate p size junk p = some ((List.range size).map junk) := Function.update_self ..

/-- `h'` has the block at `p` and otherwise those of `h`. -/
structure Has (h : LiveBlocks) (p : Nat) (block : List UInt8) (h' : LiveBlocks) : Prop where
  here : h' p = some block
  others : ∀ q, q ≠ p → h' q = h q

theorem Has.update (has : Has h p block h') (bytes : List UInt8) : Has h p bytes (Function.update h' p (some bytes)) := by
  refine ⟨Function.update_self p (some bytes) h', ?_⟩
  intro q other
  rw [Function.update_of_ne other]
  exact has.others q other

theorem Has.poke (has : Has h p block h') {i : Nat} (inside : i < block.length) (c : UInt8) :
    Safe (h'.poke p i c) fun h'' => Has h p (block.set i c) h'' := by
  have place : (0 : Int) ≤ i ∧ (i : Int) < block.length := ⟨Int.natCast_nonneg i, Int.ofNat_lt.mpr inside⟩
  rw [LiveBlocks.poke, has.here]
  exact Safe.pos place (Safe.ok (has.update _))

theorem Has.peek (has : Has h p block h') {n : Nat} (inside : n ≤ block.length) : h'.peek p n = .ok (block.take n) := by
  have small : (n : Int) ≤ block.length := Int.ofNat_le.mpr inside
  rw [LiveBlocks.peek, has.here]
  exact if_pos small

theorem Has.move (has : Has h p block h') (fresh : h' q = none) (size : Nat) (larger : block.length ≤ size) (junk : Nat → UInt8) :
    Safe ((h'.allocate q size junk).memcpy q p block.length >>= fun h'' => h''.release p) fun h'' =>
      h'' p = none ∧ ∃ tail, (block ++ tail).length = size ∧ Has (Function.update h p none) q (block ++ tail) h'' := by
  have apart : p ≠ q := by
    rintro rfl
    rw [has.here] at fresh
    cases fresh
  have new := h'.allocate_here q size junk
  have old : (h'.allocate q size junk) p = some block := by
    rw [LiveBlocks.allocate, Function.update_of_ne apart]
    exact has.here
  have room : block.length ≤ ((List.range size).map junk).length := by
    rw [List.length_map, List.length_range]
    exact larger
  have copied : Safe ((h'.allocate q size junk).memcpy q p block.length) fun h'' =>
      h'' = Function.update (h'.allocate q size junk) q (some (block ++ ((List.range size).map junk).drop block.length)) := by
    rw [LiveBlocks.memcpy, new, old]
    dsimp only
    rw [if_pos (Nat.le_refl _), if_pos room, List.take_length]
    exact Safe.ok rfl
  apply Safe.bind copied
  · rintro h'' rfl
    have live : Function.update (h'.allocate q size junk) q (some (block ++ ((List.range size).map junk).drop block.length)) p =
        some block := by
      rw [Function.update_of_ne apart]
      exact old
    rw [LiveBlocks.release, live]
    refine Safe.ok ⟨Function.update_self .., ((List.range size).map junk).drop block.length, ?_, ?_, ?_⟩
    · rw [List.length_append, List.length_drop, List.length_map, List.length_range]
      omega
    · rw [Function.update_of_ne apart.symm]
      exact Function.update_self ..
    · intro r other
      by_cases same : r = p
      · subst same
        rw [Function.update_self, Function.update_self]
      · rw [Function.update_of_ne same, Function.update_of_ne other, LiveBlocks.allocate, Function.update_of_ne other,
          Function.update_of_ne same]
        exact has.others r same

end RexOs.Library
