import RexOs.Library.CInt
import RexOs.Library.Chunks
import RexOs.Library.Memory

/-! Block devices with sectors of 512 bytes (`kernel/drivers/block/block.h`).

A driver carries out a request by commands for parts of it. Which commands fail is a function of the
first sector of a command within the request; it also says how many blocks of data the device takes
or gives before it reports the failure.
-/

set_option autoImplicit false

namespace RexOs.Drivers

open RexOs.Library

inductive BlockAccess where
  | sectors (start length : Nat)
  | buffer (start length : Nat)
  deriving DecidableEq, Repr

structure BlockState where
  disk : Mem
  buf : Mem
  accesses : List BlockAccess

def BlockState.access (s : BlockState) (a : BlockAccess) : BlockState := { s with accesses := a :: s.accesses }

/-- `none` for a command that is carried out. -/
abbrev Failures := Nat → Option Nat

/-- What a device says about itself. Commands can address `limit` sectors. -/
structure Device (limit : Nat) where
  sectors : Nat
  addressed : sectors ≤ limit

structure Request {limit : Nat} (device : Device limit) where
  lba : Nat
  count : Nat
  small : count < 2 ^ 23
  inside : lba + count ≤ device.sectors

theorem Request.reach {limit : Nat} {device : Device limit} (r : Request device) : r.lba + r.count ≤ limit :=
  Nat.le_trans r.inside device.addressed

def BlockAccess.Inside (lba count : Nat) : BlockAccess → Prop
  | .sectors start length => lba ≤ start ∧ start + length ≤ lba + count
  | .buffer start length => start + length ≤ count * 512

/-- The first `n` sectors are in the buffer, and nothing else has changed. -/
structure ReadRight (lba count : Nat) (fails : Failures) (s s' : BlockState) (n : Int) : Prop where
  range : 0 ≤ n ∧ n ≤ count
  sector : ∀ i j : Nat, (i : Int) < n → j < 512 → s'.buf (512 * i + j) = s.disk (512 * (lba + i) + j)
  rest : (∀ x : Nat, 512 * n ≤ x → s'.buf x = s.buf x) ∧ s'.disk = s.disk
  all : (∀ done, done < count → fails done = none) → n = count
  inside : ∀ a ∈ s'.accesses, a ∈ s.accesses ∨ a.Inside lba count

/-- The first `n` sectors are on the disk, and nothing else has changed. -/
structure WriteRight (lba count : Nat) (fails : Failures) (s s' : BlockState) (n : Int) : Prop where
  range : 0 ≤ n ∧ n ≤ count
  sector : ∀ i j : Nat, (i : Int) < n → j < 512 → s'.disk (512 * (lba + i) + j) = s.buf (512 * i + j)
  rest : (∀ x : Nat, x < 512 * lba ∨ 512 * (lba + n) ≤ x → s'.disk x = s.disk x) ∧ s'.buf = s.buf
  all : (∀ done, done < count → fails done = none) → n = count
  inside : ∀ a ∈ s'.accesses, a ∈ s.accesses ∨ a.Inside lba count

section
variable {lba count done more : Nat} {fails : Failures} {s₀ s s' : BlockState}

structure HasRead (lba count : Nat) (s₀ : BlockState) (done : Nat) (s : BlockState) : Prop where
  buf : s.buf = paste s₀.buf 0 (512 * done) fun i => s₀.disk (512 * lba + i)
  disk : s.disk = s₀.disk
  inside : ∀ a ∈ s.accesses, a ∈ s₀.accesses ∨ a.Inside lba count

/-- After `done` sectors of a write. -/
structure HasWritten (lba count : Nat) (s₀ : BlockState) (done : Nat) (s : BlockState) : Prop where
  disk : s.disk = paste s₀.disk (512 * lba) (512 * done) s₀.buf
  buf : s.buf = s₀.buf
  inside : ∀ a ∈ s.accesses, a ∈ s₀.accesses ∨ a.Inside lba count

theorem HasRead.start (s : BlockState) : HasRead lba count s 0 s :=
  ⟨(paste_zero _ _ _).symm, rfl, fun _ member => Or.inl member⟩

theorem HasWritten.start (s : BlockState) : HasWritten lba count s 0 s :=
  ⟨(paste_zero _ _ _).symm, rfl, fun _ member => Or.inl member⟩

theorem HasRead.access (inv : HasRead lba count s₀ done s) {a : BlockAccess} (inside : a.Inside lba count) :
    HasRead lba count s₀ done (s.access a) :=
  ⟨inv.buf, inv.disk, List.forall_mem_cons.mpr ⟨Or.inr inside, inv.inside⟩⟩

theorem HasWritten.access (inv : HasWritten lba count s₀ done s) {a : BlockAccess} (inside : a.Inside lba count) :
    HasWritten lba count s₀ done (s.access a) :=
  ⟨inv.disk, inv.buf, List.forall_mem_cons.mpr ⟨Or.inr inside, inv.inside⟩⟩

theorem HasRead.next (inv : HasRead lba count s₀ done s) {block : Mem}
    (data : ∀ i, i < 512 * more → block i = s.disk (512 * (lba + done) + i)) :
    HasRead lba count s₀ (done + more) { s with buf := paste s.buf (512 * done) (512 * more) block } := by
  refine ⟨?_, inv.disk, inv.inside⟩
  have both := paste_append s₀.buf 0 (512 * done) (512 * more) fun i => s₀.disk (512 * lba + i)
  rw [Nat.mul_add, ← both, inv.buf, Nat.zero_add]
  refine paste_congr fun i small => ?_
  rw [data i small, inv.disk, Nat.mul_add, Nat.add_assoc]

theorem HasWritten.next (inv : HasWritten lba count s₀ done s) {block : Mem}
    (data : ∀ i, i < 512 * more → block i = s.buf (512 * done + i)) :
    HasWritten lba count s₀ (done + more) { s with disk := paste s.disk (512 * (lba + done)) (512 * more) block } := by
  refine ⟨?_, inv.buf, inv.inside⟩
  have both := paste_append s₀.disk (512 * lba) (512 * done) (512 * more) s₀.buf
  rw [Nat.mul_add, Nat.mul_add, ← both, inv.disk]
  refine paste_congr fun i small => ?_
  rw [data i small, inv.buf]

theorem wrapInt_small {n : Nat} (small : n < 2 ^ 23) : wrapInt n = n := wrapInt_of_fits (by omega) (by omega)

theorem bytes_small {n : Nat} (small : n < 2 ^ 23) : n * 512 % 2 ^ 32 = 512 * n := by
  rw [Nat.mod_eq_of_lt (by omega), Nat.mul_comm]

theorem HasRead.right (inv : HasRead lba count s₀ done s) (small : count < 2 ^ 23) (le : done ≤ count)
    (all : (∀ done, done < count → fails done = none) → done = count) : ReadRight lba count fails s₀ s (wrapInt done) := by
  rw [wrapInt_small (Nat.lt_of_le_of_lt le small)]
  refine ⟨⟨by omega, by omega⟩, fun i j inside byte => ?_, ⟨fun x behind => ?_, inv.disk⟩, fun none_ => by rw [all none_], inv.inside⟩
  · have place : 512 * lba + (512 * i + j - 0) = 512 * (lba + i) + j := by omega
    rw [inv.buf, paste_inside _ (Nat.zero_le _) (by omega), place]
  · rw [inv.buf, paste_outside _ (by omega)]

theorem HasWritten.right (inv : HasWritten lba count s₀ done s) (small : count < 2 ^ 23) (le : done ≤ count)
    (all : (∀ done, done < count → fails done = none) → done = count) : WriteRight lba count fails s₀ s (wrapInt done) := by
  rw [wrapInt_small (Nat.lt_of_le_of_lt le small)]
  refine ⟨⟨by omega, by omega⟩, fun i j inside byte => ?_, ⟨fun x outside => ?_, inv.buf⟩, fun none_ => by rw [all none_], inv.inside⟩
  · have place : 512 * (lba + i) + j - 512 * lba = 512 * i + j := by omega
    rw [inv.disk, paste_inside _ (by omega) (by omega), place]
  · rw [inv.disk, paste_outside _ (by omega)]

end

end RexOs.Drivers
