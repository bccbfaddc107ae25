import RexOs.Library.Memory

/-! `memcpy` and `memmove` of `user/libc.c`, and `kmemmove` of `kernel/lib/string.c`.

The ranges do not reach over the end of the address space. `rep movsq` reads a word of eight
bytes as a whole before it writes it.
-/

set_option autoImplicit false

namespace RexOs.User

open RexOs.Library

def memcpy (m : Mem) (dst src n : Nat) : Mem :=
  let qwords := n >>> 3
  let rest := n &&& 7
  let r := repMovs 8 false qwords m dst src
  (repMovs 1 false rest r.1 r.2.1 r.2.2).1

def memmove (m : Mem) (dst src n : Nat) : Mem :=
  if dst = src ∨ n = 0 then m
  else if dst < src then memcpy m dst src n
  else
    let qwords := n >>> 3
    let rest := n &&& 7
    -- the trailing bytes first
    let m := (repMovs 1 true rest m (dst + n - 1) (src + n - 1)).1
    if qwords = 0 then m else (repMovs 8 true qwords m (dst + (qwords - 1) * 8) (src + (qwords - 1) * 8)).1

/-- `while (n--) *d++ = *s++`. -/
def copyUp (m : Mem) (d s : Nat) : Nat → Mem
  | 0 => m
  | n + 1 => copyUp (Function.update m d (m s)) (d + 1) (s + 1) n

/-- `while (n--) *--d = *--s`. -/
def copyDown (m : Mem) (d s : Nat) : Nat → Mem
  | 0 => m
  | n + 1 => copyDown (Function.update m (d - 1) (m (s - 1))) (d - 1) (s - 1) n

def kmemmove (m : Mem) (dest src n : Nat) : Mem :=
  if dest < src then copyUp m dest src n else copyDown m (dest + n) (src + n) n

section
variable {m : Mem} {dst src n : Nat}

theorem qwords_rest (n : Nat) : (n >>> 3) * 8 + (n &&& 7) = n := by
  rw [Nat.shiftRight_eq_div_pow, Nat.and_two_pow_sub_one_eq_mod n 3]
  exact Nat.div_add_mod' n 8

theorem memcpy_eq (m : Mem) (lower : dst ≤ src) (n : Nat) : memcpy m dst src n = copy m dst src n := by
  have words := repMovs_up m 8 lower (n >>> 3) 0
  have bytes := repMovs_up m 1 lower (n &&& 7) (0 + (n >>> 3) * 8)
  have all : 0 + (n >>> 3) * 8 + (n &&& 7) * 1 = n := by
    rw [Nat.zero_add, Nat.mul_one]
    exact qwords_rest n
  rw [moved_none, Nat.add_zero, Nat.add_zero] at words
  rw [all] at bytes
  unfold memcpy
  dsimp only
  rw [words, bytes, moved_all]

theorem memmove_eq (m : Mem) (dst src n : Nat) : memmove m dst src n = copy m dst src n := by
  have none_ : copy m dst src 0 = m := moved_none m dst src 0
  unfold memmove
  split
  · rename_i nothing
    rcases nothing with rfl | rfl
    · funext x
      unfold copy
      split
      · rw [Nat.add_sub_cancel' (by omega)]
      · rfl
    · exact none_.symm
  split
  · rename_i lower
    exact memcpy_eq m (Nat.le_of_lt lower) n
  · rename_i some_ lower
    have higher : src ≤ dst := Nat.not_lt.mp lower
    have all := qwords_rest n
    have bytes := repMovs_down m 1 higher (n &&& 7) n n (by omega) (Nat.le_refl n)
    have left : n - (n &&& 7) * 1 = (n >>> 3) * 8 := by omega
    rw [moved_none, left] at bytes
    dsimp only
    rw [bytes]
    split
    · rename_i few
      rw [few, Nat.zero_mul, moved_all]
    · rename_i more
      have words := repMovs_down m 8 higher (n >>> 3) ((n >>> 3) * 8) n (Nat.le_refl _) (by omega)
      have dstPlace : dst + (n >>> 3) * 8 - 8 = dst + (n >>> 3 - 1) * 8 := by omega
      have srcPlace : src + (n >>> 3) * 8 - 8 = src + (n >>> 3 - 1) * 8 := by omega
      rw [dstPlace, srcPlace, Nat.sub_self, moved_all] at words
      exact words

theorem store_byte (m : Mem) (d s : Nat) : Function.update m d (m s) = store m d 1 (load m s 1) := by
  funext x
  rw [store_load]
  by_cases here : x = d
  · rw [here, Function.update_self, if_pos (by omega), Nat.sub_self, Nat.add_zero]
  · rw [Function.update_of_ne here, if_neg (by omega)]

theorem copyUp_eq (m : Mem) (d s n : Nat) : copyUp m d s n = (repMovs 1 false n m d s).1 := by
  induction n generalizing m d s with
  | zero => rfl
  | succ n ih =>
    rw [copyUp, repMovs, ih, store_byte]
    rfl

theorem copyDown_eq (m : Mem) (d s n : Nat) : copyDown m d s n = (repMovs 1 true n m (d - 1) (s - 1)).1 := by
  induction n generalizing m d s with
  | zero => rfl
  | succ n ih =>
    rw [copyDown, repMovs, ih, store_byte]
    rfl

theorem kmemmove_eq (m : Mem) (dest src n : Nat) : kmemmove m dest src n = copy m dest src n := by
  unfold kmemmove
  split
  · rename_i lower
    have bytes := repMovs_up m 1 (Nat.le_of_lt lower) n 0
    rw [moved_none, Nat.add_zero, Nat.add_zero, Nat.zero_add, Nat.mul_one, moved_all] at bytes
    rw [copyUp_eq, bytes]
  · rename_i lower
    have bytes := repMovs_down m 1 (Nat.not_lt.mp lower) n n n (by omega) (Nat.le_refl n)
    rw [moved_none, Nat.mul_one, Nat.sub_self, moved_all] at bytes
    rw [copyDown_eq, bytes]

end

/-- Wherever the ranges lie, the destination is what the source was, and nothing else has changed. -/
theorem moves_overlapping (m : Mem) (dst src n : Nat) :
    (∀ i, i < n → memmove m dst src n (dst + i) = m (src + i)) ∧ AgreeOff (memmove m dst src n) m dst n ∧
    (∀ i, i < n → kmemmove m dst src n (dst + i) = m (src + i)) ∧ AgreeOff (kmemmove m dst src n) m dst n := by
  rw [memmove_eq, kmemmove_eq]
  have inside : ∀ i, i < n → copy m dst src n (dst + i) = m (src + i) := by
    intro i small
    unfold copy
    rw [if_pos (by omega), Nat.add_sub_cancel_left]
  have outside : AgreeOff (copy m dst src n) m dst n := fun x outside => if_neg (by omega)
  exact ⟨inside, outside, inside, outside⟩

end RexOs.User
