import Mathlib.Logic.Function.Basic
import Mathlib.Algebra.Group.Nat.Defs

/-! Byte-addressed memory with little-endian words.

`load m a n` reads the `n`-byte word at `a` and `store m a n v` writes it. Bytes
outside the written range are never changed, so words in disjoint ranges can be
reasoned about one at a time.
-/

set_option autoImplicit false

namespace RexOs.Library

abbrev Mem := Nat → UInt8

def load (m : Mem) (a : Nat) : Nat → Nat
  | 0 => 0
  | n + 1 => (m a).toNat + 256 * load m (a + 1) n

def store (m : Mem) (a : Nat) : Nat → Nat → Mem
  | 0, _ => m
  | n + 1, v => store (Function.update m a (UInt8.ofNat (v % 256))) (a + 1) n (v / 256)

/-- `memset`: `n` bytes from `a` on. -/
def fill (m : Mem) (a n : Nat) (c : UInt8) : Mem := fun x => if a ≤ x ∧ x < a + n then c else m x

/-- `memcpy` between ranges that do not overlap. -/
def copy (m : Mem) (dst src n : Nat) : Mem :=
  fun x => if dst ≤ x ∧ x < dst + n then m (src + (x - dst)) else m x

def paste (m : Mem) (a n : Nat) (block : Mem) : Mem := fun x => if a ≤ x ∧ x < a + n then block (x - a) else m x

/-- Two memories agree on `n` bytes from `a` on. -/
def AgreeOn (m m' : Mem) (a n : Nat) : Prop := ∀ x, a ≤ x → x < a + n → m x = m' x

/-- Two memories agree on all but `n` bytes from `a` on. -/
def AgreeOff (m m' : Mem) (a n : Nat) : Prop := ∀ x, x < a ∨ a + n ≤ x → m x = m' x

section
variable {m m' m'' : Mem} {a b n k v : Nat}

theorem load_congr (agree : AgreeOn m m' a n) : load m a n = load m' a n := by
  induction n generalizing a with
  | zero => rfl
  | succ n ih =>
    simp only [load]
    rw [agree a (Nat.le_refl a) (by omega), ih fun x low high => agree x (by omega) (by omega)]

theorem load_lt (m : Mem) (a n : Nat) : load m a n < 256 ^ n := by
  induction n generalizing a with
  | zero => exact Nat.one_pos
  | succ n ih =>
    have := (m a).toNat_lt
    have := ih (a + 1)
    rw [load, Nat.pow_succ]
    omega

theorem store_outside (m : Mem) (a n v : Nat) {x : Nat} (outside : x < a ∨ a + n ≤ x) :
    store m a n v x = m x := by
  induction n generalizing m a v with
  | zero => rfl
  | succ n ih =>
    simp only [store]
    rw [ih _ _ _ (by omega), Function.update_of_ne (by omega)]

theorem store_congr (a n v : Nat) {x : Nat} (same : m x = m' x) : store m a n v x = store m' a n v x := by
  induction n generalizing m m' a v with
  | zero => exact same
  | succ n ih =>
    simp only [store]
    apply ih
    by_cases here : x = a
    · rw [here, Function.update_self, Function.update_self]
    · rw [Function.update_of_ne here, Function.update_of_ne here, same]

theorem load_ne (differ : load m a n ≠ load m' a n) : ∃ x, a ≤ x ∧ x < a + n ∧ m x ≠ m' x := by
  by_contra none
  apply differ
  apply load_congr
  intro x low high
  by_contra other
  exact none ⟨x, low, high, other⟩

theorem store_agree (apart : b + k ≤ a ∨ a + n ≤ b) : AgreeOn (store m a n v) m b k :=
  fun _ low high => store_outside m a n v (by omega)

theorem fill_agree (c : UInt8) (apart : b + k ≤ a ∨ a + n ≤ b) : AgreeOn (fill m a n c) m b k :=
  fun x low high => if_neg (by omega)

theorem copy_agree (src : Nat) (apart : b + k ≤ a ∨ a + n ≤ b) : AgreeOn (copy m a src n) m b k :=
  fun x low high => if_neg (by omega)

theorem load_copy {src : Nat} (low : a ≤ b) (high : b + k ≤ a + n) : load (copy m a src n) b k = load m (src + (b - a)) k := by
  induction k generalizing b with
  | zero => rfl
  | succ k ih =>
    have here : copy m a src n b = m (src + (b - a)) := if_pos (by omega)
    rw [load, load, here, ih (b := b + 1) (by omega) (by omega)]
    congr 3
    omega

theorem paste_inside {x : Nat} (block : Mem) (low : a ≤ x) (high : x < a + n) : paste m a n block x = block (x - a) :=
  if_pos ⟨low, high⟩

theorem paste_outside {x : Nat} (block : Mem) (outside : x < a ∨ a + n ≤ x) : paste m a n block x = m x :=
  if_neg (by omega)

theorem paste_zero (m : Mem) (a : Nat) (block : Mem) : paste m a 0 block = m :=
  funext fun _ => paste_outside block (by omega)

theorem paste_congr {block block' : Mem} (same : ∀ i, i < n → block i = block' i) : paste m a n block = paste m a n block' := by
  funext x
  rcases Decidable.em (a ≤ x ∧ x < a + n) with inside | outside
  · rw [paste_inside _ inside.1 inside.2, paste_inside _ inside.1 inside.2, same _ (by omega)]
  · rw [paste_outside _ (by omega), paste_outside _ (by omega)]

theorem paste_append (m : Mem) (a n k : Nat) (block : Mem) :
    paste (paste m a n block) (a + n) k (fun i => block (n + i)) = paste m a (n + k) block := by
  funext x
  rcases Nat.lt_or_ge x (a + n) with first | beyond
  · rw [paste_outside _ (Or.inl first)]
    rcases Nat.lt_or_ge x a with before | inside
    · rw [paste_outside _ (Or.inl before), paste_outside _ (Or.inl before)]
    · rw [paste_inside _ inside first, paste_inside _ inside (by omega)]
  · rcases Nat.lt_or_ge x (a + n + k) with second | behind
    · have place : n + (x - (a + n)) = x - a := by omega
      rw [paste_inside _ beyond second, paste_inside _ (by omega) (by omega), place]
    · rw [paste_outside _ (Or.inr behind), paste_outside _ (Or.inr beyond), paste_outside _ (by omega)]

theorem store_load (m m' : Mem) (a b n x : Nat) :
    store m a n (load m' b n) x = if a ≤ x ∧ x < a + n then m' (b + (x - a)) else m x := by
  induction n generalizing m a b with
  | zero => rw [if_neg (by omega), store]
  | succ n ih =>
    have size := (m' b).toNat_lt
    have first : load m' b (n + 1) % 256 = (m' b).toNat := by
      rw [load]
      omega
    have rest : load m' b (n + 1) / 256 = load m' (b + 1) n := by
      rw [load]
      omega
    rw [store, first, rest, ih, UInt8.ofNat_toNat]
    by_cases here : x = a
    · subst here
      rw [if_neg (by omega), Function.update_self, if_pos (by omega), Nat.sub_self]
      rfl
    · rw [Function.update_of_ne here]
      by_cases inside : a + 1 ≤ x ∧ x < a + 1 + n
      · rw [if_pos inside, if_pos (by omega)]
        congr 1
        omega
      · rw [if_neg inside, if_neg (by omega)]

theorem store_load_paste (m block : Mem) (a b n : Nat) : store m a n (load block b n) = paste m a n fun i => block (b + i) :=
  funext fun x => store_load m block a b n x

/-- `n` words of `w` bytes, one after the other. -/
def moveWords (m : Mem) (a : Nat) (block : Mem) (w : Nat) : Nat → Mem
  | 0 => m
  | i + 1 => store (moveWords m a block w i) (a + w * i) w (load block (w * i) w)

theorem moveWords_eq (m : Mem) (a : Nat) (block : Mem) (w n : Nat) : moveWords m a block w n = paste m a (w * n) block := by
  induction n with
  | zero => exact (paste_zero m a block).symm
  | succ n ih => rw [moveWords, ih, store_load_paste, paste_append, Nat.mul_succ]

theorem load_store_apart (apart : b + k ≤ a ∨ a + n ≤ b) : load (store m a n v) b k = load m b k :=
  load_congr (store_agree apart)

theorem load_store_mod : load (store m a n v) a n = v % 256 ^ n := by
  induction n generalizing m a v with
  | zero => simp only [load, Nat.pow_zero, Nat.mod_one]
  | succ n ih =>
    have low : v % 256 ^ (n + 1) = v % 256 + 256 * (v / 256 % 256 ^ n) := by rw [Nat.pow_succ', Nat.mod_mul]
    simp only [load, store]
    rw [ih, store_outside _ _ _ _ (Or.inl (by omega)), Function.update_self, UInt8.toNat_ofNat', low]
    omega

theorem load_store (fits : v < 256 ^ n) : load (store m a n v) a n = v := by
  rw [load_store_mod, Nat.mod_eq_of_lt fits]

theorem load_fill_zero (low : a ≤ b) (high : b + k ≤ a + n) : load (fill m a n 0) b k = 0 := by
  induction k generalizing b with
  | zero => rfl
  | succ k ih =>
    have here : fill m a n 0 b = 0 := if_pos (by omega)
    simp only [load, here, ih (b := b + 1) (by omega) (by omega)]
    decide

theorem load_shift (m : Mem) (base a n : Nat) : load (fun i => m (base + i)) a n = load m (base + a) n := by
  induction n generalizing a with
  | zero => rfl
  | succ n ih => rw [load, load, ih, Nat.add_assoc]

theorem store_shift (m : Mem) (base a n v i : Nat) :
    store (fun i => m (base + i)) a n v i = store m (base + a) n v (base + i) := by
  induction n generalizing m a v with
  | zero => rfl
  | succ n ih =>
    have moved : Function.update (fun i => m (base + i)) a (UInt8.ofNat (v % 256)) =
        fun i => Function.update m (base + a) (UInt8.ofNat (v % 256)) (base + i) := by
      funext j
      by_cases same : j = a
      · rw [same, Function.update_self, Function.update_self]
      · rw [Function.update_of_ne same, Function.update_of_ne (by omega)]
    rw [store, store, moved, ih, Nat.add_assoc]

theorem paste_store (m : Mem) {base n a k : Nat} (v : Nat) (inside : a + k ≤ n) :
    paste m base n (store (fun i => m (base + i)) a k v) = store m (base + a) k v := by
  funext x
  by_cases within : base ≤ x ∧ x < base + n
  · rw [paste_inside _ within.1 within.2, store_shift, Nat.add_sub_cancel' within.1]
  · rw [paste_outside _ (by omega), store_outside _ _ _ _ (by omega)]

theorem AgreeOff.trans (first : AgreeOff m' m a n) (second : AgreeOff m'' m' a n) : AgreeOff m'' m a n :=
  fun x outside => (second x outside).trans (first x outside)

theorem store_agreeOff (low : a ≤ b) (high : b + k ≤ a + n) : AgreeOff (store m b k v) m a n :=
  fun _ outside => store_outside m b k v (by omega)

theorem fill_agreeOff (m : Mem) (a n : Nat) (c : UInt8) : AgreeOff (fill m a n c) m a n :=
  fun _ outside => if_neg (by omega)

theorem paste_agreeOff {base : Nat} {block : Mem} (changed : AgreeOff block (fun i => m (base + i)) a k) :
    AgreeOff (paste m base n block) m (base + a) k := by
  intro x outside
  by_cases within : base ≤ x ∧ x < base + n
  · have place : base + (x - base) = x := Nat.add_sub_cancel' within.1
    rw [paste_inside _ within.1 within.2, changed _ (by omega)]
    simp only [place]
  · rw [paste_outside _ (by omega)]

end

/-! `moved m dst src lo hi` is the memory after the bytes from `lo` up to `hi` have been moved. A
piece that has not been overwritten joins them whatever its width is, so a loop over pieces
moves the whole range.
-/

def moved (m : Mem) (dst src lo hi : Nat) : Mem := fun x => if dst + lo ≤ x ∧ x < dst + hi then m (src + (x - dst)) else m x

/-- `movs` with `width` bytes, `count` times: the direction flag tells whether the addresses go down. The results are the
memory, `rdi` and `rsi`. -/
def repMovs (width : Nat) (down : Bool) : Nat → Mem → Nat → Nat → Mem × Nat × Nat
  | 0, m, rdi, rsi => (m, rdi, rsi)
  | count + 1, m, rdi, rsi =>
      let next := fun pointer => if down then pointer - width else pointer + width
      repMovs width down count (store m rdi width (load m rsi width)) (next rdi) (next rsi)

section
variable {m : Mem} {dst src lo hi lo' hi' t width count n : Nat}

theorem moved_none (m : Mem) (dst src lo : Nat) : moved m dst src lo lo = m := funext fun _ => if_neg (by omega)

theorem moved_all (m : Mem) (dst src n : Nat) : moved m dst src 0 n = copy m dst src n := rfl

theorem moved_piece (intact : src + t + width ≤ dst + lo ∨ dst + hi ≤ src + t)
    (join : ∀ i, lo' ≤ i ∧ i < hi' ↔ lo ≤ i ∧ i < hi ∨ t ≤ i ∧ i < t + width) :
    store (moved m dst src lo hi) (dst + t) width (load (moved m dst src lo hi) (src + t) width) = moved m dst src lo' hi' := by
  have source : AgreeOn (moved m dst src lo hi) m (src + t) width := fun x low high => if_neg (by omega)
  rw [load_congr source]
  funext x
  rw [store_load]
  unfold moved
  rcases Nat.lt_or_ge x dst with before | inside
  · rw [if_neg (by omega), if_neg (by omega), if_neg (by omega)]
  · obtain ⟨i, rfl⟩ := Nat.exists_eq_add_of_le inside
    have joined := join i
    by_cases piece : t ≤ i ∧ i < t + width
    · rw [if_pos (by omega), if_pos (by omega)]
      congr 1
      omega
    · rw [if_neg (by omega)]
      by_cases before : lo ≤ i ∧ i < hi
      · rw [if_pos (by omega), if_pos (by omega)]
      · rw [if_neg (by omega), if_neg (by omega)]

theorem repMovs_up (m : Mem) (width : Nat) (lower : dst ≤ src) (count k : Nat) :
    repMovs width false count (moved m dst src 0 k) (dst + k) (src + k) =
      (moved m dst src 0 (k + count * width), dst + (k + count * width), src + (k + count * width)) := by
  induction count generalizing k with
  | zero => rw [Nat.zero_mul, Nat.add_zero, repMovs]
  | succ count ih =>
    have piece : store (moved m dst src 0 k) (dst + k) width (load (moved m dst src 0 k) (src + k) width) =
        moved m dst src 0 (k + width) := moved_piece (Or.inr (by omega)) fun i => by omega
    have total : k + width + count * width = k + (count + 1) * width := by
      rw [Nat.succ_mul]
      omega
    rw [repMovs, piece]
    simp only [Bool.false_eq_true, if_false]
    rw [Nat.add_assoc, Nat.add_assoc, ih, total]

/-- Downwards, to a higher address: the piece that comes next ends where the bytes that have been moved begin. -/
theorem repMovs_down (m : Mem) (width : Nat) (higher : src ≤ dst) (count t n : Nat) (room : count * width ≤ t) (inside : t ≤ n) :
    (repMovs width true count (moved m dst src t n) (dst + t - width) (src + t - width)).1 =
      moved m dst src (t - count * width) n := by
  induction count generalizing t with
  | zero => rw [Nat.zero_mul, Nat.sub_zero, repMovs]
  | succ count ih =>
    rw [Nat.succ_mul] at room
    have piece : store (moved m dst src t n) (dst + (t - width)) width (load (moved m dst src t n) (src + (t - width)) width) =
        moved m dst src (t - width) n := moved_piece (Or.inl (by omega)) fun i => by omega
    have left : t - width - count * width = t - (count + 1) * width := by
      rw [Nat.succ_mul]
      omega
    have dstPlace : dst + t - width = dst + (t - width) := by omega
    have srcPlace : src + t - width = src + (t - width) := by omega
    rw [repMovs, dstPlace, srcPlace, piece]
    simp only [if_true]
    rw [ih (t - width) (by omega) (by omega), left]

end

end RexOs.Library
