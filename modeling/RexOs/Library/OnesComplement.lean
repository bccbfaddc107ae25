import Mathlib.Logic.Function.Basic
import Mathlib.Algebra.Group.Nat.Defs

/-! Ones' complement sums.

`endAround w s` adds what is above the `w` low bits of `s` to them. That keeps the sum modulo
`2 ^ w - 1`, and two rounds are enough for a sum of `2 * w` bits. Zero has two representations:
a positive sum never becomes 0. `words` adds up bytes as little-endian words of 16 bits.
-/

set_option autoImplicit false

namespace RexOs.Library

def endAround (w s : Nat) : Nat := s % 2 ^ w + s / 2 ^ w

def folded (w s : Nat) : Nat := endAround w (endAround w s)

variable {w s : Nat}

theorem endAround_add (w s : Nat) : endAround w s + (2 ^ w - 1) * (s / 2 ^ w) = s := by
  have parts := Nat.div_add_mod s (2 ^ w)
  have positive : 1 ≤ 2 ^ w := Nat.one_le_two_pow
  have product : 2 ^ w * (s / 2 ^ w) = (2 ^ w - 1) * (s / 2 ^ w) + s / 2 ^ w := by
    rw [← Nat.succ_mul, Nat.succ_eq_add_one, Nat.sub_add_cancel positive]
  unfold endAround
  omega

theorem endAround_dvd (w s : Nat) : 2 ^ w - 1 ∣ endAround w s ↔ 2 ^ w - 1 ∣ s := by
  have whole := endAround_add w s
  have multiple : 2 ^ w - 1 ∣ (2 ^ w - 1) * (s / 2 ^ w) := Nat.dvd_mul_right _ _
  constructor
  · intro divides
    rw [← whole]
    exact Nat.dvd_add divides multiple
  · intro divides
    rw [← whole] at divides
    exact (Nat.dvd_add_iff_left multiple).mpr divides

theorem endAround_positive (some : 0 < s) : 0 < endAround w s := by
  unfold endAround
  by_cases low : s < 2 ^ w
  · rw [Nat.mod_eq_of_lt low]
    exact Nat.add_pos_left some _
  · exact Nat.add_pos_right _ (Nat.div_pos (Nat.not_lt.mp low) (Nat.two_pow_pos w))

theorem folded_dvd (w s : Nat) : 2 ^ w - 1 ∣ folded w s ↔ 2 ^ w - 1 ∣ s := (endAround_dvd w _).trans (endAround_dvd w s)

theorem folded_positive (some : 0 < s) : 0 < folded w s := endAround_positive (endAround_positive some)

theorem folded_lt (bound : s < 2 ^ w * 2 ^ w) : folded w s < 2 ^ w := by
  have low : s % 2 ^ w < 2 ^ w := Nat.mod_lt _ (Nat.two_pow_pos w)
  have high : s / 2 ^ w < 2 ^ w := Nat.div_lt_of_lt_mul bound
  obtain ⟨once, sum⟩ : ∃ once, once = endAround w s := ⟨_, rfl⟩
  have small : once + 2 ≤ 2 ^ w + 2 ^ w := by
    rw [sum, endAround]
    generalize s % 2 ^ w = r at low ⊢
    generalize s / 2 ^ w = q at high ⊢
    omega
  rw [folded, ← sum, endAround]
  by_cases done : once < 2 ^ w
  · rw [Nat.mod_eq_of_lt done, Nat.div_eq_of_lt done]
    exact done
  · -- a carry of 1 is left, and the rest is not all ones
    have carry : once / 2 ^ w = 1 := Nat.div_eq_of_lt_le (by omega) (by omega)
    have rest : once % 2 ^ w = once - 2 ^ w := by
      have parts := Nat.div_add_mod once (2 ^ w)
      rw [carry, Nat.mul_one] at parts
      omega
    rw [rest, carry]
    omega

theorem folded_ones (bound : s < 2 ^ w * 2 ^ w) (wide : 0 < w) :
    folded w s = 2 ^ w - 1 ↔ 0 < s ∧ 2 ^ w - 1 ∣ s := by
  have two : 2 ^ 1 ≤ 2 ^ w := Nat.pow_le_pow_right (by decide) wide
  constructor
  · intro ones
    refine ⟨?_, (folded_dvd w s).mp (ones ▸ Nat.dvd_refl _)⟩
    by_contra none
    have zero : s = 0 := by omega
    rw [zero, folded, endAround, endAround, Nat.zero_mod, Nat.zero_div, Nat.zero_mod, Nat.zero_div] at ones
    omega
  · rintro ⟨some, divides⟩
    have least := Nat.le_of_dvd (folded_positive some) ((folded_dvd w s).mpr divides)
    have most := folded_lt bound
    omega

def words : List UInt8 → Nat
  | [] => 0
  | [b] => b.toNat
  | lo :: hi :: rest => lo.toNat + 256 * hi.toNat + words rest

theorem words_le (data : List UInt8) : words data ≤ 65535 * ((data.length + 1) / 2) := by
  induction data using words.induct with
  | case1 => exact Nat.le_refl 0
  | case2 b =>
    have small := b.toNat_lt
    simp only [words, List.length_singleton]
    omega
  | case3 lo hi rest ih =>
    have low := lo.toNat_lt
    have high := hi.toNat_lt
    simp only [words, List.length_cons]
    omega

theorem words_append {front : List UInt8} (rest : List UInt8) (even : front.length % 2 = 0) :
    words (front ++ rest) = words front + words rest := by
  induction front using words.induct with
  | case1 => exact (Nat.zero_add _).symm
  | case2 b =>
    rw [List.length_singleton] at even
    omega
  | case3 lo hi front ih =>
    rw [List.length_cons, List.length_cons] at even
    rw [List.cons_append, List.cons_append, words, words, ih (by omega)]
    omega

/-- What a byte at position `j` counts. -/
def weight (j : Nat) : Nat := if j % 2 = 0 then 1 else 256

theorem words_set (data : List UInt8) : ∀ (j : Nat) (inside : j < data.length) (b : UInt8),
    words (data.set j b) + weight j * data[j].toNat = words data + weight j * b.toNat := by
  induction data using words.induct with
  | case1 =>
    intro j inside
    exact absurd inside (Nat.not_lt_zero j)
  | case2 a =>
    intro j inside b
    obtain rfl : j = 0 := by
      rw [List.length_singleton] at inside
      omega
    simp only [List.set_cons_zero, words, weight, List.getElem_cons_zero, if_true]
    omega
  | case3 lo hi rest ih =>
    intro j inside b
    rcases j with _ | _ | j
    · simp only [List.set_cons_zero, words, weight, List.getElem_cons_zero, if_true]
      omega
    · have odd : weight (0 + 1) = 256 := rfl
      simp only [List.set_cons_succ, List.set_cons_zero, words, odd, List.getElem_cons_succ, List.getElem_cons_zero]
      omega
    · have later := ih j (by simpa using inside) b
      have same : weight (j + 2) = weight j := by
        unfold weight
        rw [Nat.add_mod_right]
      simp only [List.set_cons_succ, words, same, List.getElem_cons_succ]
      omega

/-- The data with bit `i` inverted, where bit 0 is the lowest one of the first byte. -/
def flipBit (data : List UInt8) (i : Nat) : List UInt8 :=
  data.set (i / 8) (data.getD (i / 8) 0 ^^^ UInt8.ofNat (2 ^ (i % 8)))

@[simp] theorem flipBit_length (data : List UInt8) (i : Nat) : (flipBit data i).length = data.length := List.length_set

theorem xor_bit : ∀ b < 256, ∀ k < 8, b ^^^ 2 ^ k = b + 2 ^ k ∨ (b ^^^ 2 ^ k) + 2 ^ k = b := by decide +kernel

theorem words_flipBit {data : List UInt8} {i : Nat} (inside : i < 8 * data.length) :
    ∃ e < 16, words (flipBit data i) = words data + 2 ^ e ∨ words (flipBit data i) + 2 ^ e = words data := by
  have place : i / 8 < data.length := by omega
  have bit : i % 8 < 8 := Nat.mod_lt _ (by decide)
  obtain ⟨b, byte⟩ : ∃ b, b = data[i / 8] := ⟨_, rfl⟩
  have changed := words_set data (i / 8) place (b ^^^ UInt8.ofNat (2 ^ (i % 8)))
  have flipped : flipBit data i = data.set (i / 8) (b ^^^ UInt8.ofNat (2 ^ (i % 8))) := by
    rw [flipBit, List.getD_eq_getElem?_getD, List.getElem?_eq_getElem place, byte]
    rfl
  have power : (UInt8.ofNat (2 ^ (i % 8))).toNat = 2 ^ (i % 8) :=
    UInt8.toNat_ofNat_of_lt' (Nat.pow_lt_pow_right (by decide) bit)
  rw [← flipped, ← byte, UInt8.toNat_xor, power] at changed
  have differ := xor_bit b.toNat b.toNat_lt (i % 8) bit
  unfold weight at changed
  by_cases low : i / 8 % 2 = 0
  · refine ⟨i % 8, by omega, ?_⟩
    rw [if_pos low] at changed
    omega
  · refine ⟨8 + i % 8, by omega, ?_⟩
    have high : 2 ^ (8 + i % 8) = 256 * 2 ^ (i % 8) := Nat.pow_add 2 8 (i % 8)
    rw [if_neg low] at changed
    omega

theorem not_dvd_pow {w e : Nat} (wide : 2 ≤ w) (lt : e < w) : ¬ 2 ^ w - 1 ∣ 2 ^ e := by
  intro divides
  have le := Nat.le_of_dvd (Nat.two_pow_pos e) divides
  have half : 2 ^ e ≤ 2 ^ (w - 1) := Nat.pow_le_pow_right (by decide) (by omega)
  have double : 2 ^ w = 2 * 2 ^ (w - 1) := by
    rw [← Nat.pow_succ', Nat.succ_eq_add_one, Nat.sub_add_cancel (by omega)]
  have least : 2 ^ 1 ≤ 2 ^ (w - 1) := Nat.pow_le_pow_right (by decide) (by omega)
  omega

end RexOs.Library
