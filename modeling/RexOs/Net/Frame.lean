import RexOs.Library.Safe
import RexOs.Net.Eth

/-! Reading a received frame.

The receive path works on pointers into the frame that the device delivered. `Ptr`
is such a pointer, and a read through it ends in a `NetFault` when it is outside the
frame; so does a loop that does not end. Lengths and positions are 32-bit words.
-/

set_option autoImplicit false

namespace RexOs.Net

open RexOs.Library

inductive NetFault where
  | outside (index : Nat)
  | hang
  deriving DecidableEq, Repr

structure Ptr where
  frame : List UInt8
  off : Nat
  deriving DecidableEq, Repr

namespace Ptr

def add (p : Ptr) (n : Nat) : Ptr := { p with off := p.off + n }

def read (p : Ptr) (i : Nat) : Except NetFault UInt8 :=
  match p.frame[p.off + i]? with
  | some b => .ok b
  | none => .error (.outside (p.off + i))

/-- A 16-bit field in network byte order. -/
def read16 (p : Ptr) (i : Nat) : Except NetFault UInt16 := do
  let hi ← p.read i
  let lo ← p.read (i + 1)
  return (hi.toUInt16 <<< 8) ||| lo.toUInt16

/-- A 32-bit field in network byte order. -/
def read32 (p : Ptr) (i : Nat) : Except NetFault UInt32 := do
  let hi ← p.read16 i
  let lo ← p.read16 (i + 2)
  return (hi.toUInt32 <<< 16) ||| lo.toUInt32

def readIp (p : Ptr) (i : Nat) : Except NetFault Ip4Addr := do
  let b0 ← p.read i
  let b1 ← p.read (i + 1)
  let b2 ← p.read (i + 2)
  let b3 ← p.read (i + 3)
  return ⟨b0, b1, b2, b3⟩

def readMac (p : Ptr) (i : Nat) : Except NetFault MacAddr := do
  let b0 ← p.read i
  let b1 ← p.read (i + 1)
  let b2 ← p.read (i + 2)
  let b3 ← p.read (i + 3)
  let b4 ← p.read (i + 4)
  let b5 ← p.read (i + 5)
  return ⟨b0, b1, b2, b3, b4, b5⟩

def readBytes (p : Ptr) : Nat → Except NetFault (List UInt8)
  | 0 => .ok []
  | n + 1 => do
      let b ← p.read 0
      let rest ← (p.add 1).readBytes n
      return b :: rest

/-- At least `n` bytes of the frame follow the pointer. -/
def Holds (p : Ptr) (n : Nat) : Prop := p.off + n ≤ p.frame.length

/-- The `n` bytes that follow the pointer. -/
def slice (p : Ptr) (n : Nat) : List UInt8 := (p.frame.drop p.off).take n

def at? (p : Ptr) (i : Nat) : Option UInt8 := p.frame[p.off + i]?

variable {p : Ptr} {i n : Nat}

theorem read_safe (holds : p.Holds n) (inside : i < n) : Safe (p.read i) fun b => p.at? i = some b := by
  have bound : p.off + i < p.frame.length := by
    unfold Holds at holds
    omega
  have found : p.frame[p.off + i]? = some p.frame[p.off + i] := List.getElem?_eq_getElem bound
  refine ⟨_, ?_, found⟩
  rw [read, found]

theorem read16_safe (holds : p.Holds n) (inside : i + 1 < n) : Safe (p.read16 i) fun v => p.read16 i = .ok v := by
  have safe : Safe (p.read16 i) fun _ => True := by
    apply Safe.bind (read_safe holds (by omega))
    intro hi _
    apply Safe.bind (read_safe holds inside)
    intro lo _
    exact Safe.ok trivial
  exact safe.result

theorem read32_safe (holds : p.Holds n) (inside : i + 3 < n) : Safe (p.read32 i) fun v => p.read32 i = .ok v := by
  have safe : Safe (p.read32 i) fun _ => True := by
    apply Safe.bind (read16_safe holds (by omega))
    intro hi _
    apply Safe.bind (read16_safe holds (by omega))
    intro lo _
    exact Safe.ok trivial
  exact safe.result

theorem readIp_safe (holds : p.Holds n) (inside : i + 3 < n) : Safe (p.readIp i) fun ip => p.readIp i = .ok ip := by
  have safe : Safe (p.readIp i) fun _ => True := by
    apply Safe.bind (read_safe holds (by omega))
    intro b0 _
    apply Safe.bind (read_safe holds (by omega))
    intro b1 _
    apply Safe.bind (read_safe holds (by omega))
    intro b2 _
    apply Safe.bind (read_safe holds (by omega))
    intro b3 _
    exact Safe.ok trivial
  exact safe.result

theorem readMac_safe (holds : p.Holds n) (inside : i + 5 < n) : Safe (p.readMac i) fun mac => p.readMac i = .ok mac := by
  have safe : Safe (p.readMac i) fun _ => True := by
    apply Safe.bind (read_safe holds (by omega))
    intro b0 _
    apply Safe.bind (read_safe holds (by omega))
    intro b1 _
    apply Safe.bind (read_safe holds (by omega))
    intro b2 _
    apply Safe.bind (read_safe holds (by omega))
    intro b3 _
    apply Safe.bind (read_safe holds (by omega))
    intro b4 _
    apply Safe.bind (read_safe holds (by omega))
    intro b5 _
    exact Safe.ok trivial
  exact safe.result

theorem Holds.add {k : Nat} (holds : p.Holds n) (le : k ≤ n) : (p.add k).Holds (n - k) := by
  unfold Holds Ptr.add at *
  simp only
  omega

theorem Holds.mono {k : Nat} (holds : p.Holds n) (le : k ≤ n) : p.Holds k := by
  unfold Holds at *
  omega

theorem slice_succ {b : UInt8} (found : p.at? 0 = some b) : p.slice (n + 1) = b :: (p.add 1).slice n := by
  have here : p.frame[p.off]? = some b := found
  obtain ⟨bound, head⟩ := List.getElem?_eq_some_iff.mp here
  unfold slice
  rw [List.drop_eq_getElem_cons bound, List.take_succ_cons, head]
  rfl

theorem add_add (i j : Nat) : (p.add i).add j = p.add (i + j) := by
  simp only [add, Nat.add_assoc]

theorem slice_getD (inside : i < n) {b : UInt8} (found : p.at? i = some b) : (p.slice n).getD i 0 = b := by
  have here : p.frame[p.off + i]? = some b := found
  rw [List.getD_eq_getElem?_getD, slice, List.getElem?_take_of_lt inside, List.getElem?_drop, here]
  rfl

theorem slice_length (holds : p.Holds n) : (p.slice n).length = n := by
  unfold Holds at holds
  rw [slice, List.length_take, List.length_drop]
  omega

theorem slice_drop (k : Nat) : (p.slice n).drop k = (p.add k).slice (n - k) := by
  rw [slice, List.drop_take, List.drop_drop]
  rfl

theorem slice_take {k : Nat} (le : k ≤ n) : (p.slice n).take k = p.slice k := by
  rw [slice, List.take_take, Nat.min_eq_left le]
  rfl

theorem readBytes_safe (holds : p.Holds n) : Safe (p.readBytes n) fun bytes => bytes = p.slice n := by
  induction n generalizing p with
  | zero => exact Safe.ok rfl
  | succ n ih =>
    unfold readBytes
    apply Safe.bind (read_safe holds (Nat.succ_pos n))
    intro b found
    apply Safe.bind (ih (holds.add (Nat.succ_pos n)))
    rintro rest rfl
    exact Safe.ok (slice_succ found).symm

end Ptr

theorem htons_join (v : UInt16) : ((v >>> 8).toUInt8.toUInt16 <<< 8) ||| v.toUInt8.toUInt16 = v := by
  have small := v.toNat_lt
  apply UInt16.toNat_inj.mp
  have high : ((v >>> 8).toUInt8.toUInt16 <<< 8).toNat = (v.toNat / 256) <<< 8 := by
    simp [UInt16.toNat_shiftLeft, Nat.shiftRight_eq_div_pow, Nat.shiftLeft_eq]
    omega
  have low : v.toUInt8.toUInt16.toNat = v.toNat % 256 := by simp
  rw [UInt16.toNat_or, high, low, ← Nat.shiftLeft_add_eq_or_of_lt (Nat.mod_lt _ (by decide)), Nat.shiftLeft_eq]
  omega

theorem read16_htons (v : UInt16) (rest : List UInt8) : (Ptr.mk (htons v ++ rest) 0).read16 0 = .ok v := by
  have whole : (Ptr.mk (htons v ++ rest) 0).read16 0 =
      .ok (((v >>> 8).toUInt8.toUInt16 <<< 8) ||| v.toUInt8.toUInt16) := rfl
  rw [whole, htons_join]

theorem ok_bind {α β : Type} (a : α) (f : α → Except NetFault β) : (Except.ok a >>= f) = f a := rfl

theorem ite_bind {α β : Type} {c : Prop} [Decidable c] (x y : Except NetFault α) (f : α → Except NetFault β) :
    (if c then x else y) >>= f = if c then x >>= f else y >>= f := by
  split <;> rfl

structure Ptr.Points (p : Ptr) (data : List UInt8) : Prop where
  holds : p.Holds data.length
  bytes : p.slice data.length = data

def word16 (data : List UInt8) (i : Nat) : UInt16 := ((data.getD i 0).toUInt16 <<< 8) ||| (data.getD (i + 1) 0).toUInt16

def ipAt (data : List UInt8) (i : Nat) : Ip4Addr :=
  ⟨data.getD i 0, data.getD (i + 1) 0, data.getD (i + 2) 0, data.getD (i + 3) 0⟩

section
variable {p : Ptr} {data : List UInt8} {i : Nat}

theorem Ptr.Points.read (points : p.Points data) (inside : i < data.length) : p.read i = .ok (data.getD i 0) := by
  obtain ⟨b, result, found⟩ := Ptr.read_safe points.holds inside
  have byte := Ptr.slice_getD inside found
  rw [points.bytes] at byte
  rw [result, byte]

theorem Ptr.Points.read16 (points : p.Points data) (inside : i + 1 < data.length) : p.read16 i = .ok (word16 data i) := by
  rw [Ptr.read16, points.read (by omega), points.read inside]
  rfl

theorem Ptr.Points.readIp (points : p.Points data) (inside : i + 3 < data.length) : p.readIp i = .ok (ipAt data i) := by
  rw [Ptr.readIp, points.read (by omega), points.read (by omega), points.read (by omega), points.read inside]
  rfl

theorem Ptr.Points.take (points : p.Points data) (n : Nat) : p.Points (data.take n) := by
  have size : (data.take n).length ≤ data.length := by
    rw [List.length_take]
    exact Nat.min_le_right _ _
  refine ⟨points.holds.mono size, ?_⟩
  rw [← Ptr.slice_take size, points.bytes, List.length_take, ← List.take_eq_take_min]

theorem Ptr.Points.slice (points : p.Points data) {k n : Nat} (inside : k + n ≤ data.length) :
    (p.add k).slice n = (data.drop k).take n := by
  rw [← points.bytes, Ptr.slice_drop, Ptr.slice_take (by omega)]

variable {front rest : List UInt8}

theorem Ptr.Points.append_left (points : p.Points (front ++ rest)) : p.Points front := by
  have part := points.take front.length
  rw [List.take_left] at part
  exact part

theorem Ptr.Points.append_right {n : Nat} (points : p.Points (front ++ rest)) (size : front.length = n) :
    (p.add n).Points rest := by
  have whole : (front ++ rest).length = n + rest.length := by rw [List.length_append, size]
  refine ⟨?_, ?_⟩
  · have later := points.holds.add (show n ≤ (front ++ rest).length by omega)
    rw [whole, Nat.add_sub_cancel_left] at later
    exact later
  · rw [points.slice (by omega), ← size, List.drop_left, List.take_length]

end

theorem word16_htons (v : UInt16) (front rest : List UInt8) {i : Nat} (size : front.length = i) :
    word16 (front ++ (htons v ++ rest)) i = v := by
  have high : (front ++ (htons v ++ rest)).getD i 0 = (v >>> 8).toUInt8 := by
    rw [List.getD_eq_getElem?_getD, List.getElem?_append_right (by omega), size, Nat.sub_self]
    rfl
  have low : (front ++ (htons v ++ rest)).getD (i + 1) 0 = v.toUInt8 := by
    rw [List.getD_eq_getElem?_getD, List.getElem?_append_right (by omega), size, Nat.add_sub_cancel_left]
    rfl
  rw [word16, high, low]
  exact htons_join v

def At (data : List UInt8) (n : Nat) (bytes : List UInt8) : Prop :=
  ∃ front rest, data = front ++ (bytes ++ rest) ∧ front.length = n

namespace At
variable {data first second bytes : List UInt8} {n : Nat}

theorem left (here : At data n (first ++ second)) : At data n first := by
  obtain ⟨front, rest, shape, size⟩ := here
  rw [List.append_assoc] at shape
  exact ⟨front, second ++ rest, shape, size⟩

theorem right (here : At data n (first ++ second)) : At data (n + first.length) second := by
  obtain ⟨front, rest, shape, size⟩ := here
  refine ⟨front ++ first, rest, ?_, by rw [List.length_append, size]⟩
  rw [shape, List.append_assoc, List.append_assoc]

theorem inside (here : At data n bytes) : n + bytes.length ≤ data.length := by
  obtain ⟨front, rest, shape, size⟩ := here
  rw [shape, List.length_append, List.length_append]
  omega

theorem byte {b : UInt8} (here : At data n (b :: bytes)) : data.getD n 0 = b := by
  obtain ⟨front, rest, shape, size⟩ := here
  rw [shape, List.getD_eq_getElem?_getD, List.getElem?_append_right (by omega), size, Nat.sub_self]
  rfl

theorem word {v : UInt16} (here : At data n (htons v)) : word16 data n = v := by
  obtain ⟨front, rest, shape, size⟩ := here
  rw [shape]
  exact word16_htons v front rest size

end At

end RexOs.Net
