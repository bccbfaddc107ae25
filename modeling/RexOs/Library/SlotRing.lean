import Mathlib.Logic.Function.Basic
import Mathlib.Data.List.Basic
import Mathlib.Data.Nat.ModEq

/-! Queues in a ring of slots.

One slot stays free, so that a full ring is told from an empty one. What comes while the ring
is full is dropped. `enqueue` is the same queue without a ring. `Cyclic` is a table whose places
are taken in turn, whether they are free or not; its history has the newest entry first.
-/

set_option autoImplicit false

namespace RexOs.Library

variable {α : Type}

/-- A queue of less than `size` entries, oldest first. -/
def enqueue (size : Nat) (queue : List α) (a : α) : List α := if queue.length + 1 < size then queue ++ [a] else queue

theorem enqueueAll_sublist {size : Nat} (more queue : List α) : (more.foldl (enqueue size) queue).Sublist (queue ++ more) := by
  induction more generalizing queue with
  | nil => simp
  | cons a more ih =>
    have one : (enqueue size queue a).Sublist (queue ++ [a]) := by
      unfold enqueue
      split
      · exact List.Sublist.refl _
      · exact List.sublist_append_left _ _
    have rest := (ih (enqueue size queue a)).trans (one.append_right more)
    rwa [List.append_assoc] at rest

theorem enqueueAll_room {size : Nat} {more queue : List α} (room : queue.length + more.length < size) :
    more.foldl (enqueue size) queue = queue ++ more := by
  induction more generalizing queue with
  | nil => simp
  | cons a more ih =>
    rw [List.length_cons] at room
    rw [List.foldl_cons, enqueue, if_pos (by omega), ih (by simp; omega), List.append_assoc, List.singleton_append]

structure SlotRing (α : Type) where
  slots : Nat → α
  write : Nat
  read : Nat

namespace SlotRing

def empty (blank : α) : SlotRing α := ⟨fun _ => blank, 0, 0⟩

def put (size : Nat) (r : SlotRing α) (a : α) : SlotRing α :=
  { r with slots := Function.update r.slots r.write a, write := (r.write + 1) % size }

def push (size : Nat) (r : SlotRing α) (a : α) : SlotRing α := if (r.write + 1) % size = r.read then r else r.put size a

def skip (size : Nat) (r : SlotRing α) : SlotRing α := { r with read := (r.read + 1) % size }

structure Holds (size : Nat) (r : SlotRing α) (queue : List α) : Prop where
  inside : r.read < size
  room : queue.length < size
  next : r.write = (r.read + queue.length) % size
  kept : ∀ i a, queue[i]? = some a → r.slots ((r.read + i) % size) = a

section
variable {size i j n : Nat} {r : SlotRing α} {queue : List α} {a : α}

theorem mod_inj (near : i < size) (near' : j < size) (same : (n + i) % size = (n + j) % size) : i = j := by
  have := Nat.ModEq.add_left_cancel' n same
  rwa [Nat.ModEq, Nat.mod_eq_of_lt near, Nat.mod_eq_of_lt near'] at this

theorem Holds.empty (positive : 0 < size) (blank : α) : Holds size (SlotRing.empty blank) [] where
  inside := positive
  room := positive
  next := (Nat.zero_mod size).symm
  kept := by simp

theorem Holds.write_eq_iff (holds : Holds size r queue) : r.write = r.read ↔ queue = [] := by
  have start : (r.read + 0) % size = r.read := Nat.mod_eq_of_lt holds.inside
  constructor
  · intro same
    have none : queue.length = 0 := by
      apply mod_inj holds.room (Nat.lt_of_le_of_lt (Nat.zero_le _) holds.room)
      rw [start, ← holds.next, same]
    exact List.length_eq_zero_iff.mp none
  · rintro rfl
    rw [holds.next, List.length_nil, start]

theorem Holds.full_iff (holds : Holds size r queue) : (r.write + 1) % size = r.read ↔ queue.length + 1 = size := by
  have room := holds.room
  have start : (r.read + 0) % size = r.read := Nat.mod_eq_of_lt holds.inside
  rw [holds.next, Nat.mod_add_mod, Nat.add_assoc]
  constructor
  · intro same
    by_contra more
    have := mod_inj (i := queue.length + 1) (j := 0) (n := r.read) (by omega) (by omega) (same.trans start.symm)
    omega
  · intro full
    rw [full, Nat.add_mod_right, Nat.mod_eq_of_lt holds.inside]

theorem Holds.put (holds : Holds size r queue) (more : queue.length + 1 < size) (a : α) :
    Holds size (r.put size a) (queue ++ [a]) where
  inside := holds.inside
  room := by rwa [List.length_append, List.length_singleton]
  next := by
    show (r.write + 1) % size = (r.read + (queue ++ [a]).length) % size
    rw [holds.next, List.length_append, List.length_singleton, Nat.mod_add_mod, Nat.add_assoc]
  kept := by
    intro i b found
    show Function.update r.slots r.write a ((r.read + i) % size) = b
    have few : i < queue.length + 1 := by simpa using (List.getElem?_eq_some_iff.mp found).1
    by_cases last : i = queue.length
    · subst last
      rw [← holds.next, Function.update_self]
      simpa using found
    · -- another slot than the one that is written, as there are fewer entries than slots
      have apart : (r.read + i) % size ≠ r.write := by
        rw [holds.next]
        exact fun same => last (mod_inj (by omega) holds.room same)
      rw [Function.update_of_ne apart]
      rw [List.getElem?_append_left (by omega)] at found
      exact holds.kept i b found

theorem Holds.first (holds : Holds size r (a :: queue)) : r.slots r.read = a := by
  have := holds.kept 0 a rfl
  rwa [Nat.add_zero, Nat.mod_eq_of_lt holds.inside] at this

theorem Holds.skip (holds : Holds size r (a :: queue)) : Holds size (r.skip size) queue where
  inside := Nat.mod_lt _ (Nat.lt_of_le_of_lt (Nat.zero_le _) holds.inside)
  room := Nat.lt_of_succ_lt holds.room
  next := by
    show r.write = ((r.read + 1) % size + queue.length) % size
    rw [holds.next, List.length_cons, Nat.mod_add_mod, Nat.add_assoc, Nat.add_comm 1]
  kept := by
    intro i b found
    show r.slots (((r.read + 1) % size + i) % size) = b
    rw [Nat.mod_add_mod, Nat.add_assoc, Nat.add_comm 1]
    exact holds.kept (i + 1) b found

theorem Holds.release (holds : Holds size r (a :: queue)) (b : α) :
    Holds size ⟨Function.update r.slots r.read b, r.write, (r.read + 1) % size⟩ queue where
  inside := holds.skip.inside
  room := holds.skip.room
  next := holds.skip.next
  kept := by
    intro i c found
    have few : i < queue.length := (List.getElem?_eq_some_iff.mp found).1
    have room := holds.room
    rw [List.length_cons] at room
    have apart : ((r.read + 1) % size + i) % size ≠ r.read := by
      intro same
      rw [Nat.mod_add_mod, Nat.add_assoc] at same
      have := mod_inj (i := 1 + i) (j := 0) (by omega) (by omega) (same.trans (Nat.mod_eq_of_lt holds.inside).symm)
      omega
    show Function.update r.slots r.read b (((r.read + 1) % size + i) % size) = c
    rw [Function.update_of_ne apart]
    exact holds.skip.kept i c found

theorem Holds.congr (holds : Holds size r queue) {slots : Nat → α} (same : ∀ i < size, slots i = r.slots i) :
    Holds size ⟨slots, r.write, r.read⟩ queue :=
  ⟨holds.inside, holds.room, holds.next, fun i a found =>
    (same _ (Nat.mod_lt _ (Nat.lt_of_le_of_lt (Nat.zero_le _) holds.inside))).trans (holds.kept i a found)⟩

theorem Holds.push (holds : Holds size r queue) (a : α) : Holds size (r.push size a) (enqueue size queue a) := by
  have room := holds.room
  unfold SlotRing.push enqueue
  by_cases full : (r.write + 1) % size = r.read
  · have := holds.full_iff.mp full
    rw [if_pos full, if_neg (by omega)]
    exact holds
  · have := mt holds.full_iff.mpr full
    rw [if_neg full, if_pos (by omega)]
    exact holds.put (by omega) a

theorem Holds.pushAll (holds : Holds size r queue) (more : List α) :
    Holds size (more.foldl (SlotRing.push size) r) (more.foldl (enqueue size) queue) := by
  induction more generalizing r queue with
  | nil => exact holds
  | cons a more ih => exact ih (holds.push a)

end

end SlotRing

def lastIn (size place : Nat) : List α → Option α
  | [] => none
  | newest :: older => if older.length % size = place then some newest else lastIn size place older

structure Cyclic (size : Nat) (blank : α) (table : Nat → α) (next : Nat) (history : List α) : Prop where
  turn : next = history.length % size
  holds : ∀ place, place < size → table place = (lastIn size place history).getD blank

section
variable {size : Nat} {blank entry : α} {table : Nat → α} {next : Nat} {history newer older : List α}

theorem Cyclic.empty (size : Nat) (blank : α) : Cyclic size blank (fun _ => blank) 0 [] :=
  ⟨(Nat.zero_mod size).symm, fun _ _ => rfl⟩

theorem Cyclic.put (cyclic : Cyclic size blank table next history) (entry : α) :
    Cyclic size blank (Function.update table next entry) ((next + 1) % size) (entry :: history) := by
  obtain ⟨rfl, holds⟩ := cyclic
  refine ⟨by rw [List.length_cons, Nat.mod_add_mod], fun place small => ?_⟩
  rw [lastIn]
  by_cases here : history.length % size = place
  · rw [here, Function.update_self, if_pos rfl, Option.getD_some]
  · rw [Function.update_of_ne (Ne.symm here), if_neg here, holds place small]

/-- An entry keeps its place until as many others have come as there are places. -/
theorem lastIn_kept (few : newer.length < size) : lastIn size (older.length % size) (newer ++ entry :: older) = some entry := by
  induction newer with
  | nil => exact if_pos rfl
  | cons first newer ih =>
    rw [List.length_cons] at few
    have elsewhere : (newer ++ entry :: older).length % size ≠ older.length % size := by
      rw [List.length_append, List.length_cons]
      intro same
      have small := Nat.le_of_dvd (by omega) (Nat.dvd_of_mod_eq_zero (Nat.sub_mod_eq_zero_of_mod_eq same))
      omega
    rw [List.cons_append, lastIn, if_neg elsewhere]
    exact ih (by omega)

theorem lastIn_taken (size : Nat) (entry : α) (newer older : List α) : ∃ last, lastIn size (older.length % size) (newer ++ entry :: older) = some last := by
  induction newer with
  | nil => exact ⟨entry, if_pos rfl⟩
  | cons first newer ih =>
    rw [List.cons_append, lastIn]
    split
    · exact ⟨first, rfl⟩
    · exact ih

end

end RexOs.Library
