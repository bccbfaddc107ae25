import RexOs.Desktop.EntityRight
import RexOs.Library.Buffer
import Mathlib.Data.List.GetD

/-! Text of the font module (`user/font.c`), which is UTF-8.

Characters are taken from a text with its NUL, and nothing behind the NUL can be read. A sequence
that is cut short is read as Latin-1.
-/

set_option autoImplicit false

namespace RexOs.Desktop.Font

open RexOs.Library
open RexOs.Desktop.Browser (Reader Fault utf8Encode lor_two lor_three lor_four lor_trail and_trail)

/-- `(s[k] & 0xC0) == 0x80` for the next `n` bytes, up to the first one that is different. -/
def trails (read : Reader) (p : Nat) : Nat → Except Fault Bool
  | 0 => .ok true
  | n + 1 => do
      let b ← read p
      if b &&& 0xC0 = 0x80 then trails read (p + 1) n else .ok false

/-- `(c & mask) == mark && …` -/
def startsSequence (read : Reader) (p : Nat) (c mask mark : UInt8) (n : Nat) : Except Fault Bool :=
  if c &&& mask = mark then trails read (p + 1) n else .ok false

def trailBits (read : Reader) (p : Nat) : Except Fault Nat := do
  let b ← read p
  .ok (b.toNat &&& 0x3F)

/-- The code point, and `*p`. -/
def utf8Next (read : Reader) (p : Nat) : Except Fault (Int × Nat) := do
  let c ← read p
  if c < 0x80 then .ok (c.toNat, p + 1)
  else do
    let two ← startsSequence read p c 0xE0 0xC0 1
    if two then do
      let s1 ← trailBits read (p + 1)
      .ok (((c.toNat &&& 0x1F) <<< 6 ||| s1 : Nat), p + 2)
    else do
      let three ← startsSequence read p c 0xF0 0xE0 2
      if three then do
        let s1 ← trailBits read (p + 1)
        let s2 ← trailBits read (p + 2)
        .ok (((c.toNat &&& 0x0F) <<< 12 ||| s1 <<< 6 ||| s2 : Nat), p + 3)
      else do
        let four ← startsSequence read p c 0xF8 0xF0 3
        if four then do
          let s1 ← trailBits read (p + 1)
          let s2 ← trailBits read (p + 2)
          let s3 ← trailBits read (p + 3)
          .ok (((c.toNat &&& 0x07) <<< 18 ||| s1 <<< 12 ||| s2 <<< 6 ||| s3 : Nat), p + 4)
        else .ok (c.toNat, p + 1)

/-- `while (*p)`: what is made of the characters, and where the loop ends. -/
def textLoop {α : Type} (visit : Int → α → α) (read : Reader) : Nat → Nat → α → Except Fault (α × Nat)
  | 0, _, _ => .error .hang
  | fuel + 1, p, a => do
      let c ← read p
      if c = 0 then .ok (a, p)
      else do
        let (cp, p) ← utf8Next read p
        textLoop visit read fuel p (visit cp a)

def textReader (s : List UInt8) : Reader := readByte .read (s ++ [0])

def visitText {α : Type} (visit : Int → α → α) (s : List UInt8) (a : α) : Except Fault (α × Nat) :=
  textLoop visit (textReader s) (s.length + 1) 0 a

def codePoints (s : List UInt8) : Except Fault (List Int × Nat) := visitText (fun cp cps => cps ++ [cp]) s []

/-- `drawChar` is given the column and returns the advance. -/
def fontDrawText {α : Type} (drawChar : Int → Int → α → Int × α) (x : Int) (s : List UInt8) (dst : α) : Except Fault (Int × α) := do
  let (r, _) ← visitText (fun cp r => (wrapInt (r.1 + (drawChar r.1 cp r.2).1), (drawChar r.1 cp r.2).2)) s (x, dst)
  .ok (wrapInt (r.1 - x), r.2)

def fontMeasureText {α : Type} (glyph : Int → α → Option Int × α) (s : List UInt8) (cache : α) : Except Fault (Int × α) := do
  let (r, _) ← visitText (fun cp r => ((glyph cp r.2).1.elim r.1 fun advance => wrapInt (r.1 + advance), (glyph cp r.2).2)) s (0, cache)
  .ok r

section
variable {s : List UInt8} {p : Nat} {c : UInt8}

theorem getD_nonzero (nonzero : ∀ c ∈ s, c ≠ 0) (inside : p < s.length) : s.getD p 0 ≠ 0 := by
  rw [← List.getElem_eq_getD (h := inside)]
  exact nonzero _ (List.getElem_mem inside)

theorem textReader_read (nonzero : ∀ c ∈ s, c ≠ 0) (le : p ≤ s.length) : textReader s p = .ok (s.getD p 0) :=
  Text.read ⟨nonzero, [], rfl⟩ Fault.read le

theorem trails_safe (nonzero : ∀ c ∈ s, c ≠ 0) (n : Nat) (le : p ≤ s.length) :
    Safe (trails (textReader s) p n) fun r => r = true → p + n ≤ s.length := by
  induction n generalizing p with
  | zero => exact Safe.ok fun _ => le
  | succ n ih =>
    unfold trails
    rw [textReader_read nonzero le]
    refine Safe.ite (fun trail => ?_) fun _ => Safe.ok fun no => absurd no (by decide)
    have inside : p < s.length := by
      refine Nat.lt_of_le_of_ne le fun last => absurd trail ?_
      rw [last, List.getD_eq_default _ _ (Nat.le_refl _)]
      decide
    exact (ih inside).mono fun r within yes => by have := within yes; omega

theorem startsSequence_safe (nonzero : ∀ c ∈ s, c ≠ 0) (inside : p < s.length) (c mask mark : UInt8) (n : Nat) :
    Safe (startsSequence (textReader s) p c mask mark n) fun r => r = true → p + 1 + n ≤ s.length :=
  Safe.ite (fun _ => trails_safe nonzero n inside) fun _ => Safe.ok fun no => absurd no (by decide)

theorem trailBits_safe (nonzero : ∀ c ∈ s, c ≠ 0) (inside : p < s.length) : Safe (trailBits (textReader s) p) fun _ => True := by
  unfold trailBits
  rw [textReader_read nonzero (Nat.le_of_lt inside)]
  exact Safe.ok trivial

theorem utf8Next_safe (nonzero : ∀ c ∈ s, c ≠ 0) (inside : p < s.length) :
    Safe (utf8Next (textReader s) p) fun r => p < r.2 ∧ r.2 ≤ p + 4 ∧ r.2 ≤ s.length := by
  unfold utf8Next
  rw [textReader_read nonzero (Nat.le_of_lt inside)]
  refine Safe.ite (fun _ => Safe.ok ?_) fun _ => ?_
  · dsimp only
    omega
  refine (startsSequence_safe nonzero inside _ 0xE0 0xC0 1).bind fun two fits => Safe.ite (fun yes => ?_) fun _ => ?_
  · have fits := fits yes
    refine (trailBits_safe nonzero (by omega)).bind fun s1 _ => Safe.ok ?_
    dsimp only
    omega
  refine (startsSequence_safe nonzero inside _ 0xF0 0xE0 2).bind fun three fits => Safe.ite (fun yes => ?_) fun _ => ?_
  · have fits := fits yes
    refine (trailBits_safe nonzero (by omega)).bind fun s1 _ => (trailBits_safe nonzero (by omega)).bind fun s2 _ => Safe.ok ?_
    dsimp only
    omega
  refine (startsSequence_safe nonzero inside _ 0xF8 0xF0 3).bind fun four fits => Safe.ite (fun yes => ?_) fun _ => Safe.ok ?_
  · have fits := fits yes
    refine (trailBits_safe nonzero (by omega)).bind fun s1 _ => (trailBits_safe nonzero (by omega)).bind fun s2 _ =>
      (trailBits_safe nonzero (by omega)).bind fun s3 _ => Safe.ok ?_
    dsimp only
    omega
  · dsimp only
    omega

theorem textLoop_safe {α : Type} (visit : Int → α → α) (nonzero : ∀ c ∈ s, c ≠ 0) (fuel : Nat) (a : α) (le : p ≤ s.length)
    (enough : s.length < fuel + p) : Safe (textLoop visit (textReader s) fuel p a) fun r => r.2 = s.length := by
  induction fuel generalizing p a with
  | zero => omega
  | succ fuel ih =>
    unfold textLoop
    rw [textReader_read nonzero le]
    refine Safe.ite (fun ends => Safe.ok ?_) fun more => ?_
    · by_contra other
      exact getD_nonzero nonzero (by omega) ends
    · have inside : p < s.length := by
        refine Nat.lt_of_le_of_ne le fun last => more ?_
        rw [last, List.getD_eq_default _ _ (Nat.le_refl _)]
      exact (utf8Next_safe nonzero inside).bind fun r advances => ih _ advances.2.2 (by have := advances.1; omega)

end

def trailByte (y : Nat) : UInt8 := UInt8.ofNat (0x80 ||| y)

/-- A code point in groups of six bits, and a byte for each group. -/
inductive Encoded : Nat → List UInt8 → Prop where
  | one {x : Nat} (some_ : 0 < x) (small : x < 0x80) : Encoded x [UInt8.ofNat x]
  | two {x y : Nat} (lead : x < 32) (second : y < 64) : Encoded (x * 64 + y) [UInt8.ofNat (0xC0 ||| x), trailByte y]
  | three {x y z : Nat} (lead : x < 16) (second : y < 64) (third : z < 64) :
      Encoded ((x * 64 + y) * 64 + z) [UInt8.ofNat (0xE0 ||| x), trailByte y, trailByte z]
  | four {x y z w : Nat} (lead : x < 8) (second : y < 64) (third : z < 64) (fourth : w < 64) :
      Encoded (((x * 64 + y) * 64 + z) * 64 + w) [UInt8.ofNat (0xF0 ||| x), trailByte y, trailByte z, trailByte w]

theorem utf8Encode_encoded {cp : Int} (low : 1 ≤ cp) (high : cp ≤ 0x10FFFF) : Encoded cp.toNat (utf8Encode cp) := by
  have inside : ¬ (cp < 0 ∨ cp > 0x10FFFF) := by omega
  have some_ : 0 < cp.toNat := by omega
  have top : cp.toNat ≤ 0x10FFFF := by omega
  have trail : ∀ v, v % 64 < 64 := fun v => Nat.mod_lt v (by decide)
  unfold utf8Encode
  rw [if_neg inside]
  generalize cp.toNat = v at some_ top
  simp only [Nat.shiftRight_eq_div_pow, and_trail]
  split
  · rename_i small
    exact Encoded.one some_ small
  split
  · rename_i small
    have groups : v / 2 ^ 6 * 64 + v % 64 = v := by omega
    have two := Encoded.two (x := v / 2 ^ 6) (y := v % 64) (by omega) (trail v)
    rwa [groups] at two
  split
  · rename_i small
    have groups : (v / 2 ^ 12 * 64 + v / 2 ^ 6 % 64) * 64 + v % 64 = v := by omega
    have three := Encoded.three (x := v / 2 ^ 12) (y := v / 2 ^ 6 % 64) (z := v % 64) (by omega) (trail _) (trail v)
    rwa [groups] at three
  · have groups : ((v / 2 ^ 18 * 64 + v / 2 ^ 12 % 64) * 64 + v / 2 ^ 6 % 64) * 64 + v % 64 = v := by omega
    have four := Encoded.four (x := v / 2 ^ 18) (y := v / 2 ^ 12 % 64) (z := v / 2 ^ 6 % 64) (w := v % 64) (by omega) (trail _) (trail _) (trail v)
    rwa [groups] at four

theorem trailByte_bits : ∀ y, y < 64 → trailByte y &&& 0xC0 = 0x80 ∧ (trailByte y).toNat &&& 0x3F = y := by decide

theorem lead_one : ∀ x, x < 0x80 → UInt8.ofNat x < 0x80 ∧ (UInt8.ofNat x).toNat = x := by decide

theorem lead_two : ∀ x, x < 32 → ¬ UInt8.ofNat (0xC0 ||| x) < 0x80 ∧ UInt8.ofNat (0xC0 ||| x) &&& 0xE0 = 0xC0 ∧
    (UInt8.ofNat (0xC0 ||| x)).toNat &&& 0x1F = x := by decide

theorem lead_three : ∀ x, x < 16 → ¬ UInt8.ofNat (0xE0 ||| x) < 0x80 ∧ UInt8.ofNat (0xE0 ||| x) &&& 0xE0 ≠ 0xC0 ∧
    UInt8.ofNat (0xE0 ||| x) &&& 0xF0 = 0xE0 ∧ (UInt8.ofNat (0xE0 ||| x)).toNat &&& 0x0F = x := by decide

theorem lead_four : ∀ x, x < 8 → ¬ UInt8.ofNat (0xF0 ||| x) < 0x80 ∧ UInt8.ofNat (0xF0 ||| x) &&& 0xE0 ≠ 0xC0 ∧
    UInt8.ofNat (0xF0 ||| x) &&& 0xF0 ≠ 0xE0 ∧ UInt8.ofNat (0xF0 ||| x) &&& 0xF8 = 0xF0 ∧ (UInt8.ofNat (0xF0 ||| x)).toNat &&& 0x07 = x := by decide

theorem or_group (a y : Nat) (fits : y < 64) : a <<< 6 ||| y = a * 64 + y := by
  rw [← Nat.shiftLeft_add_eq_or_of_lt (show y < 2 ^ 6 from fits), Nat.shiftLeft_eq]

theorem or_three (x y z : Nat) (second : y < 64) (third : z < 64) : x <<< 12 ||| y <<< 6 ||| z = (x * 64 + y) * 64 + z := by
  rw [← or_group _ z third, ← or_group x y second, Nat.shiftLeft_or_distrib, ← Nat.shiftLeft_add]

theorem or_four (x y z w : Nat) (second : y < 64) (third : z < 64) (fourth : w < 64) :
    x <<< 18 ||| y <<< 12 ||| z <<< 6 ||| w = ((x * 64 + y) * 64 + z) * 64 + w := by
  rw [← or_group _ w fourth, ← or_three x y z second third, Nat.shiftLeft_or_distrib, Nat.shiftLeft_or_distrib, ← Nat.shiftLeft_add, ← Nat.shiftLeft_add]

section
variable {read : Reader} {p y n : Nat} {c mask mark : UInt8} {bytes : List UInt8}

def Stands (read : Reader) (p : Nat) (bytes : List UInt8) : Prop := ∀ i b, bytes[i]? = some b → read (p + i) = .ok b

theorem trailBits_eq (fits : y < 64) (stands : read p = .ok (trailByte y)) : trailBits read p = .ok y := by
  simp [trailBits, stands, bind, Except.bind, (trailByte_bits y fits).2]

theorem trails_next (fits : y < 64) (stands : read p = .ok (trailByte y)) (n : Nat) : trails read p (n + 1) = trails read (p + 1) n := by
  simp [trails, stands, bind, Except.bind, (trailByte_bits y fits).1]

theorem startsSequence_other (other : c &&& mask ≠ mark) : startsSequence read p c mask mark n = .ok false := if_neg other

theorem startsSequence_same (same : c &&& mask = mark) : startsSequence read p c mask mark n = trails read (p + 1) n := if_pos same

theorem utf8Next_encoded (encoded : Encoded n bytes) (stands : Stands read p bytes) : utf8Next read p = .ok ((n : Int), p + bytes.length) := by
  cases encoded with
  | one _ small =>
    have first : read p = .ok (UInt8.ofNat n) := stands 0 _ rfl
    have lead := lead_one n small
    simp [utf8Next, first, bind, Except.bind, lead.1, lead.2]
  | @two x y small second =>
    have first : read p = .ok (UInt8.ofNat (0xC0 ||| x)) := stands 0 _ rfl
    obtain ⟨large, mark, bits⟩ := lead_two x small
    have s1 := stands 1 _ rfl
    have trail : startsSequence read p (UInt8.ofNat (0xC0 ||| x)) 0xE0 0xC0 1 = .ok true := by
      rw [startsSequence_same mark, trails_next second s1]
      rfl
    simp only [utf8Next, first, bind, Except.bind, if_neg large, trail, if_true, trailBits_eq second s1, bits, or_group x y second]
    rfl
  | @three x y z small second third =>
    have first : read p = .ok (UInt8.ofNat (0xE0 ||| x)) := stands 0 _ rfl
    obtain ⟨large, two, mark, bits⟩ := lead_three x small
    have s1 := stands 1 _ rfl
    have s2 := stands 2 _ rfl
    have trail : startsSequence read p (UInt8.ofNat (0xE0 ||| x)) 0xF0 0xE0 2 = .ok true := by
      rw [startsSequence_same mark, trails_next second s1, trails_next third s2]
      rfl
    simp only [utf8Next, first, bind, Except.bind, if_neg large, startsSequence_other two, Bool.false_eq_true, if_false, trail, if_true,
      trailBits_eq second s1, trailBits_eq third s2, bits, or_three x y z second third]
    rfl
  | @four x y z w small second third fourth =>
    have first : read p = .ok (UInt8.ofNat (0xF0 ||| x)) := stands 0 _ rfl
    obtain ⟨large, two, three, mark, bits⟩ := lead_four x small
    have s1 := stands 1 _ rfl
    have s2 := stands 2 _ rfl
    have s3 := stands 3 _ rfl
    have trail : startsSequence read p (UInt8.ofNat (0xF0 ||| x)) 0xF8 0xF0 3 = .ok true := by
      rw [startsSequence_same mark, trails_next second s1, trails_next third s2, trails_next fourth s3]
      rfl
    simp only [utf8Next, first, bind, Except.bind, if_neg large, startsSequence_other two, startsSequence_other three, Bool.false_eq_true, if_false,
      trail, if_true, trailBits_eq second s1, trailBits_eq third s2, trailBits_eq fourth s3, bits, or_four x y z w second third fourth]
    rfl

end

section
variable {cps : List Int} {α : Type}

theorem encoded_first {n : Nat} {bytes : List UInt8} (encoded : Encoded n bytes) : ∃ b rest, bytes = b :: rest ∧ b ≠ 0 := by
  have one : ∀ x, x < 0x80 → 0 < x → UInt8.ofNat x ≠ 0 := by decide
  have two : ∀ x, x < 32 → UInt8.ofNat (0xC0 ||| x) ≠ 0 := by decide
  have three : ∀ x, x < 16 → UInt8.ofNat (0xE0 ||| x) ≠ 0 := by decide
  have four : ∀ x, x < 8 → UInt8.ofNat (0xF0 ||| x) ≠ 0 := by decide
  cases encoded with
  | one some_ small => exact ⟨_, _, rfl, one _ small some_⟩
  | two lead => exact ⟨_, _, rfl, two _ lead⟩
  | three lead => exact ⟨_, _, rfl, three _ lead⟩
  | four lead => exact ⟨_, _, rfl, four _ lead⟩

theorem textLoop_encoded (visit : Int → α → α) (fuel : Nat) (pre : List UInt8) (cps : List Int) (a : α)
    (valid : ∀ cp ∈ cps, 1 ≤ cp ∧ cp ≤ 0x10FFFF) (enough : (cps.flatMap utf8Encode).length < fuel) :
    textLoop visit (textReader (pre ++ cps.flatMap utf8Encode)) fuel pre.length a =
      .ok (cps.foldl (fun a cp => visit cp a) a, (pre ++ cps.flatMap utf8Encode).length) := by
  induction cps generalizing fuel pre a with
  | nil =>
    cases fuel with
    | zero => cases enough
    | succ fuel =>
      have nul : textReader pre pre.length = .ok 0 := by
        unfold textReader readByte
        rw [List.getElem?_append_right (Nat.le_refl _), Nat.sub_self]
        rfl
      rw [List.flatMap_nil, List.append_nil, textLoop, nul]
      rfl
  | cons cp cps ih =>
    rw [List.forall_mem_cons] at valid
    rw [List.flatMap_cons, List.length_append] at enough
    have encoded := utf8Encode_encoded valid.1.1 valid.1.2
    obtain ⟨b, rest, bytes, nonzero⟩ := encoded_first encoded
    have stands : Stands (textReader (pre ++ (cp :: cps).flatMap utf8Encode)) pre.length (utf8Encode cp) := by
      intro i b at_
      have inside := (List.getElem?_eq_some_iff.mp at_).1
      unfold textReader readByte
      rw [List.append_assoc, List.getElem?_append_right (Nat.le_add_right _ _), Nat.add_sub_cancel_left, List.flatMap_cons, List.append_assoc,
        List.getElem?_append_left inside, at_]
      rfl
    have some_ : 0 < (utf8Encode cp).length := by
      rw [bytes]
      exact Nat.succ_pos _
    have value : ((cp.toNat : Nat) : Int) = cp := Int.toNat_of_nonneg (by omega)
    cases fuel with
    | zero => omega
    | succ fuel =>
      have first : textReader (pre ++ (cp :: cps).flatMap utf8Encode) pre.length = .ok b := stands 0 b (by rw [bytes]; rfl)
      have next := utf8Next_encoded encoded stands
      rw [value, ← List.length_append] at next
      have moved : pre ++ (cp :: cps).flatMap utf8Encode = pre ++ utf8Encode cp ++ cps.flatMap utf8Encode := by
        rw [List.flatMap_cons, List.append_assoc]
      have later := ih fuel (pre ++ utf8Encode cp) (visit cp a) valid.2 (by omega)
      rw [← moved] at later
      rw [textLoop, first]
      show (if b = 0 then _ else _) = _
      rw [if_neg nonzero, next]
      exact later

end

theorem textLoop_codePoints {α : Type} (visit : Int → α → α) (read : Reader) (fuel p : Nat) (cps : List Int) (a : α) :
    textLoop visit read fuel p (cps.foldl (fun a cp => visit cp a) a) =
      (textLoop (fun cp cps => cps ++ [cp]) read fuel p cps >>= fun r => .ok (r.1.foldl (fun a cp => visit cp a) a, r.2)) := by
  induction fuel generalizing p cps with
  | zero => rfl
  | succ fuel ih =>
    unfold textLoop
    cases read p with
    | error e => rfl
    | ok c =>
      by_cases ends : c = 0
      · simp [bind, Except.bind, ends]
      · cases next : utf8Next read p with
        | error e => simp [bind, Except.bind, ends]
        | ok r =>
          have one := ih r.2 (cps ++ [r.1])
          rw [List.foldl_append] at one
          simpa [bind, Except.bind, ends] using one

theorem visitText_codePoints {α : Type} (visit : Int → α → α) (s : List UInt8) (a : α) :
    visitText visit s a = (codePoints s >>= fun r => .ok (r.1.foldl (fun a cp => visit cp a) a, r.2)) :=
  textLoop_codePoints visit (textReader s) (s.length + 1) 0 [] a

theorem codePoints_encoded {cps : List Int} (valid : ∀ cp ∈ cps, 1 ≤ cp ∧ cp ≤ 0x10FFFF) :
    codePoints (cps.flatMap utf8Encode) = .ok (cps, (cps.flatMap utf8Encode).length) := by
  have all := textLoop_encoded (fun cp cps => cps ++ [cp]) _ [] cps [] valid (Nat.lt_succ_self _)
  have same : cps.foldl (fun read cp => read ++ [cp]) [] = cps := by
    rw [List.foldl_append_eq_append, List.nil_append, ← List.flatMap_def, List.flatMap_singleton']
  rw [same] at all
  exact all

/-- A text of code points is read back, and every text is read up to its NUL with one to four bytes for a character. -/
theorem utf8Next_right :
    (∀ cps : List Int, (∀ cp ∈ cps, 1 ≤ cp ∧ cp ≤ 0x10FFFF) →
      codePoints (cps.flatMap utf8Encode) = .ok (cps, (cps.flatMap utf8Encode).length)) ∧
    ∀ s : List UInt8, (∀ c ∈ s, c ≠ 0) → Safe (codePoints s) (fun r => r.2 = s.length) ∧
      ∀ p, p < s.length → Safe (utf8Next (textReader s) p) fun r => p < r.2 ∧ r.2 ≤ p + 4 ∧ r.2 ≤ s.length := by
  refine ⟨fun cps valid => codePoints_encoded valid, fun s nonzero => ⟨?_, fun p inside => utf8Next_safe nonzero inside⟩⟩
  exact textLoop_safe _ nonzero _ _ (Nat.zero_le _) (Nat.lt_succ_self _)

/-- One character of each length, and a sequence that is cut short. -/
theorem utf8Next_right_euro : codePoints ([65, 0xE9, 0x20AC, 0x1F600].flatMap utf8Encode) = .ok ([65, 0xE9, 0x20AC, 0x1F600], 10) ∧
    Safe (utf8Next (textReader [0xE2, 0x82]) 0) fun r => 0 < r.2 ∧ r.2 ≤ 0 + 4 ∧ r.2 ≤ 2 :=
  ⟨utf8Next_right.1 [65, 0xE9, 0x20AC, 0x1F600] (by decide),
    (utf8Next_right.2 [0xE2, 0x82] (List.forall_mem_cons.mpr ⟨by decide, List.forall_mem_singleton.mpr (by decide)⟩)).2 0 (by decide)⟩

end RexOs.Desktop.Font
