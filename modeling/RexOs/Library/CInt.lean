import Mathlib.Data.Int.DivMod
import Mathlib.Algebra.Order.Ring.Int
import Mathlib.Data.Nat.Count

/-! Signed integers of 32 bits, numbers that are read into them digit by digit, and single bits.

What does not fit wraps around. Reading a number with wrapping steps gives the wrapped number.
-/

set_option autoImplicit false

namespace RexOs.Library

section
def wrapInt (x : Int) : Int := Int.bmod x (2 ^ 32)

variable {x : Int}

theorem wrapInt_low (x : Int) : -2 ^ 31 ≤ wrapInt x := Int.le_bmod (by decide)

theorem wrapInt_high (x : Int) : wrapInt x < 2 ^ 31 := Int.bmod_lt (by decide)

theorem wrapInt_of_fits (low : -2 ^ 31 ≤ x) (high : x < 2 ^ 31) : wrapInt x = x := by
  unfold wrapInt
  rw [Int.bmod_def]
  split <;> omega

theorem wrapInt_congr {y : Int} (same : x % 2 ^ 32 = y % 2 ^ 32) : wrapInt x = wrapInt y := by
  have same : x % ((2 ^ 32 : Nat) : Int) = y % ((2 ^ 32 : Nat) : Int) := same
  rw [wrapInt, wrapInt, Int.bmod_def, Int.bmod_def, same]

theorem wrapInt_emod (x : Int) : wrapInt x % 2 ^ 32 = x % 2 ^ 32 := Int.bmod_emod

theorem wrapInt_mul_add (x b d : Int) : wrapInt (wrapInt x * b + d) = wrapInt (x * b + d) := by
  apply wrapInt_congr
  rw [Int.add_emod, Int.mul_emod, wrapInt_emod, ← Int.mul_emod, ← Int.add_emod]

variable {α : Type} (value : α → Int) (base acc : Int)

def readNumber (digits : List α) : Int := digits.foldl (fun n c => n * base + value c) acc

def readInt (digits : List α) : Int := digits.foldl (fun n c => wrapInt (n * base + value c)) acc

theorem readInt_eq (digits : List α) : readInt value base (wrapInt acc) digits = wrapInt (readNumber value base acc digits) := by
  induction digits generalizing acc with
  | nil => rfl
  | cons c digits ih =>
    have step := ih (acc * base + value c)
    rw [← wrapInt_mul_add] at step
    exact step

end

section
/-- Bit `k` of a byte, as `(b >> k) & 1`. -/
def byteTest (b : UInt8) (k : Nat) : Bool := ((b.toNat >>> k) &&& 1) != 0

/-- `b | (1 << k)` in eight bits. -/
def byteSet (b : UInt8) (k : Nat) : UInt8 := b ||| UInt8.ofBitVec (1#8 <<< k)

/-- `b & ~(1 << k)` in eight bits. -/
def byteClear (b : UInt8) (k : Nat) : UInt8 := b &&& ~~~(UInt8.ofBitVec (1#8 <<< k))

theorem byteTest_eq (b : UInt8) (k : Nat) : byteTest b k = b.toBitVec.getLsbD k := by
  simp only [byteTest, BitVec.getLsbD, UInt8.toNat_toBitVec, Nat.testBit, Nat.and_comm]

theorem byteTest_byteSet (b : UInt8) {j k : Nat} (hj : j < 8) :
    byteTest (byteSet b k) j = (decide (j = k) || byteTest b j) := by
  rw [byteTest_eq, byteTest_eq, byteSet]
  simp [hj]
  by_cases same : j = k
  · simp [same]
  · by_cases below : j < k
    · simp [same, below]
    · simp [same, below, show j - k ≠ 0 by omega]

theorem byteTest_byteClear (b : UInt8) {j k : Nat} (hj : j < 8) :
    byteTest (byteClear b k) j = (!decide (j = k) && byteTest b j) := by
  rw [byteTest_eq, byteTest_eq, byteClear]
  simp [hj]
  by_cases same : j = k
  · simp [same]
  · by_cases below : j < k
    · simp [same, below]
    · simp [same, below, show j - k ≠ 0 by omega]

theorem byteTest_full {k : Nat} (hk : k < 8) : byteTest 255 k = true := by
  have : k = 0 ∨ k = 1 ∨ k = 2 ∨ k = 3 ∨ k = 4 ∨ k = 5 ∨ k = 6 ∨ k = 7 := by omega
  rcases this with rfl | rfl | rfl | rfl | rfl | rfl | rfl | rfl <;> decide

theorem count_set {p q : Nat → Prop} [DecidablePred p] [DecidablePred q] {i n : Nat}
    (inside : i < n) (clear : ¬ p i) (same : ∀ j, q j ↔ j = i ∨ p j) :
    Nat.count q n = Nat.count p n + 1 := by
  induction n with
  | zero => omega
  | succ n ih =>
    rw [Nat.count_succ, Nat.count_succ]
    by_cases last : i = n
    · subst last
      have before : Nat.count q i = Nat.count p i :=
        le_antisymm
          (Nat.count_mono_left fun j below h => ((same j).mp h).resolve_left (by omega))
          (Nat.count_mono_left fun j _ h => (same j).mpr (Or.inr h))
      simp [before, clear, (same i).mpr (Or.inl rfl)]
    · have agree : q n ↔ p n := by
        rw [same]
        exact ⟨fun h => h.resolve_left (by omega), Or.inr⟩
      simp only [ih (by omega), agree]
      omega

theorem count_clear {p q : Nat → Prop} [DecidablePred p] [DecidablePred q] {i n : Nat}
    (inside : i < n) (set : p i) (same : ∀ j, q j ↔ j ≠ i ∧ p j) :
    Nat.count q n + 1 = Nat.count p n := by
  refine (count_set inside (p := q) (q := p) ?_ ?_).symm
  · rw [same]
    exact fun h => h.1 rfl
  · intro j
    rw [same]
    by_cases eq : j = i
    · simp [eq, set]
    · simp [eq]

theorem and_field (x k w : Nat) : x &&& (2 ^ w - 1) * 2 ^ k = x / 2 ^ k % 2 ^ w * 2 ^ k := by
  apply Nat.eq_of_testBit_eq
  intro i
  rw [Nat.testBit_and, Nat.testBit_mul_two_pow, Nat.testBit_mul_two_pow, Nat.testBit_two_pow_sub_one,
    Nat.testBit_mod_two_pow, Nat.testBit_div_two_pow]
  by_cases low : k ≤ i
  · have sum : i - k + k = i := Nat.sub_add_cancel low
    simp [low, sum, Bool.and_comm]
  · simp [low]

end

end RexOs.Library
