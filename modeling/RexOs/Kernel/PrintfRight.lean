import RexOs.Kernel.Printf
import Mathlib.Data.List.TakeWhile

/-! What the conversions for numbers print.

For negative numbers the width is taken down by one before the prefix is counted in it, so a
field that is wider than the number is one character short.
-/

set_option autoImplicit false

namespace RexOs.Kernel

open RexOs.Library

def digitByte (uppercase : Bool) (c : Char) : UInt8 := UInt8.ofNat (if uppercase then c.toUpper else c).toNat

def canonical (base : Nat) (uppercase : Bool) (n : Nat) : List UInt8 := (Nat.toDigits base n).map (digitByte uppercase)

def padded (lead digits : List UInt8) (width : Nat) (zeroPad : Bool) : List UInt8 :=
  if zeroPad then lead ++ List.replicate (width - (lead.length + digits.length)) 48 ++ digits
  else List.replicate (width - (lead.length + digits.length)) 32 ++ lead ++ digits

inductive Conversion where
  | decimal
  | integer
  | unsigned
  | hex
  | hexUpper
  | pointer
  deriving DecidableEq, Repr

def Conversion.char : Conversion → UInt8
  | .decimal => 100
  | .integer => 105
  | .unsigned => 117
  | .hex => 120
  | .hexUpper => 88
  | .pointer => 112

inductive Size where
  | int
  | long
  | longlong
  | size
  deriving DecidableEq, Repr

def Size.text : Size → List UInt8
  | .int => []
  | .long => [108]
  | .longlong => [108, 108]
  | .size => [122]

structure Directive where
  zeroPad : Bool
  width : List UInt8
  size : Size
  conversion : Conversion
  decimal : ∀ c ∈ width, isDecimal c = true
  leading : zeroPad = false → width.head? ≠ some 48
  fits : readNumber digitInt 10 0 width < 2 ^ 31

namespace Directive
variable (d : Directive) (v : BitVec 64)

/-- Behind the `%`. -/
def options : List UInt8 := (if d.zeroPad then [48] else []) ++ (d.width ++ (d.size.text ++ [d.conversion.char]))

def text : List UInt8 := 37 :: d.options

def widthValue : Nat := (readNumber digitInt 10 0 d.width).toNat

def value : Int :=
  match d.conversion with
  | .decimal | .integer => if d.size = .int then (v.setWidth 32).toInt else v.toInt
  | .unsigned | .hex | .hexUpper => if d.size = .int then (v.setWidth 32).toNat else v.toNat
  | .pointer => v.toNat

def lead : List UInt8 := if d.value v < 0 then ascii "-" else if d.conversion = .pointer then ascii "0x" else []

def digits : List UInt8 :=
  match d.conversion with
  | .decimal | .integer | .unsigned => canonical 10 false (d.value v).natAbs
  | .hex | .pointer => canonical 16 false (d.value v).natAbs
  | .hexUpper => canonical 16 true (d.value v).natAbs

def fieldWidth : Nat := if d.conversion = .pointer ∧ d.widthValue = 0 then 16 else d.widthValue

def zeros : Bool := d.zeroPad || d.conversion = .pointer

def expected : List UInt8 := padded (d.lead v) (d.digits v) d.fieldWidth d.zeros

structure PrintsRight : Prop where
  emitted : ∀ rest args, kvprintf (d.text ++ rest) (.number v :: args) = do
    let text ← kvprintf rest args
    .ok (d.expected v ++ text)
  length : (d.expected v).length = max d.fieldWidth ((d.lead v).length + (d.digits v).length)

def Fits : Prop := d.value v < 0 → d.widthValue ≤ (d.lead v).length + (d.digits v).length

end Directive

section
variable {base val width : Nat} {lead ds : List UInt8} {uppercase zeroPad : Bool}

theorem padded_length (lead ds : List UInt8) (width : Nat) (zeroPad : Bool) :
    (padded lead ds width zeroPad).length = max width (lead.length + ds.length) := by
  unfold padded
  split <;> simp only [List.length_append, List.length_replicate] <;> omega

theorem table_digit (uppercase : Bool) : ∀ n, n < 16 → (if uppercase then hexHi else hexLo)[n]? =
    some (digitByte uppercase (Nat.digitChar n)) := by
  cases uppercase <;> decide

theorem canonical_eq (some_ : 1 < base) (uppercase : Bool) (n : Nat) : canonical base uppercase n =
    (if n < base then [] else canonical base uppercase (n / base)) ++ [digitByte uppercase (Nat.digitChar (n % base))] := by
  unfold canonical
  rw [Nat.toDigits_eq_if some_]
  by_cases small : n < base
  · rw [if_pos small, if_pos small, Nat.mod_eq_of_lt small]
    rfl
  · rw [if_neg small, if_neg small, List.map_append]
    rfl

theorem canonical_zero (base : Nat) (uppercase : Bool) : canonical base uppercase 0 = [48] := by
  unfold canonical
  rw [Nat.toDigits_zero]
  cases uppercase <;> rfl

theorem canonical_length (some_ : 10 ≤ base) (uppercase : Bool) (small : val < 2 ^ 64) : (canonical base uppercase val).length ≤ 20 := by
  unfold canonical
  rw [List.length_map, Nat.length_toDigits_le_iff (by omega) (by decide)]
  calc
    val < 2 ^ 64 := small
    _ ≤ 10 ^ 20 := by decide
    _ ≤ base ^ 20 := Nat.pow_le_pow_left some_ 20

theorem digitLoop_eq (some_ : 1 < base) (few : base ≤ 16) (uppercase : Bool) (fuel val : Nat) (buf : List UInt8) (enough : val < fuel) (more : 0 < val)
    (room : buf.length + (canonical base uppercase val).length ≤ bufMax) :
    digitLoop (if uppercase then hexHi else hexLo) base fuel val buf = .ok (buf ++ (canonical base uppercase val).reverse) := by
  induction fuel generalizing val buf with
  | zero => exact absurd enough (Nat.not_lt_zero val)
  | succ fuel ih =>
    have last := Nat.mod_lt val (Nat.zero_lt_of_lt some_)
    have read : readByte Fault.read (if uppercase then hexHi else hexLo) (val % base) =
        .ok (digitByte uppercase (Nat.digitChar (val % base))) := by
      rw [readByte, table_digit uppercase _ (by omega)]
      rfl
    rw [canonical_eq some_] at room ⊢
    rw [List.length_append, List.length_singleton] at room
    rw [digitLoop, if_pos more, read]
    show (if buf.length < bufMax then _ else _) = _
    rw [if_pos (by omega), List.reverse_append, List.reverse_singleton, List.singleton_append]
    by_cases single : val < base
    · rw [if_pos single, Nat.div_eq_of_lt single]
      cases fuel with
      | zero => omega
      | succ fuel => rfl
    · rw [if_neg single] at room ⊢
      have less : val / base < val := Nat.div_lt_self more some_
      have left : 0 < val / base := Nat.div_pos (Nat.le_of_not_lt single) (Nat.zero_lt_of_lt some_)
      rw [ih (val / base) _ (by omega) left (by rw [List.length_append, List.length_singleton]; omega), List.append_assoc, List.singleton_append]

theorem emitPadded_eq (ds : List UInt8) (lead : Option (List UInt8)) (few : ds.length ≤ 20) (short : (lead.getD []).length ≤ 2)
    (small : width < 2 ^ 31) (zeroPad : Bool) : emitPadded ds.reverse width zeroPad lead = padded (lead.getD []) ds width zeroPad := by
  have total : wrapInt ((ds.reverse.length : Int) + ((lead.getD []).length : Int)) = (lead.getD []).length + ds.length := by
    rw [List.length_reverse, wrapInt_of_fits (by omega) (by omega), Int.add_comm]
  have pad : (wrapInt ((width : Int) - ((lead.getD []).length + ds.length : Int))).toNat = width - ((lead.getD []).length + ds.length) := by
    rw [wrapInt_of_fits (by omega) (by omega)]
    omega
  unfold emitPadded padded
  dsimp only
  rw [total, pad, List.reverse_reverse]
  cases zeroPad with
  | false => rfl
  | true =>
    cases lead with
    | none => rw [Option.getD_none, List.append_nil, if_pos rfl, if_pos rfl, List.nil_append]
    | some lead => rfl

theorem printUint_eq (base_ : base = 10 ∨ base = 16) (uppercase : Bool) (lead : Option (List UInt8)) (short : (lead.getD []).length ≤ 2)
    (fits : val < 2 ^ 64) (small : width < 2 ^ 31) (zeroPad : Bool) :
    printUint val base uppercase width zeroPad lead = .ok (padded (lead.getD []) (canonical base uppercase val) width zeroPad) := by
  have large : 10 ≤ base := by omega
  have few := canonical_length large uppercase fits
  have filled : fillBuf (if uppercase then hexHi else hexLo) base val = .ok (canonical base uppercase val).reverse := by
    unfold fillBuf
    by_cases none_ : val = 0
    · rw [if_pos none_, none_, canonical_zero]
      rfl
    · have room : ([] : List UInt8).length + (canonical base uppercase val).length ≤ bufMax := by
        rw [List.length_nil, Nat.zero_add]
        exact few.trans (by decide)
      rw [if_neg none_, digitLoop_eq (by omega) (by omega) uppercase (val + 1) val [] (Nat.lt_succ_self val) (Nat.pos_of_ne_zero none_) room]
      rfl
  unfold printUint
  dsimp only
  rw [filled, ← emitPadded_eq _ lead few short small]
  rfl

theorem canonical_plain (some_ : 1 < base) (few : base ≤ 16) (uppercase : Bool) (n : Nat) : ∀ c ∈ canonical base uppercase n, c ≠ 10 := by
  have digit : ∀ uppercase n, n < 16 → digitByte uppercase (Nat.digitChar n) ≠ 10 := by decide
  induction n using Nat.strongRecOn with
  | ind n ih =>
    intro c mem
    rw [canonical_eq some_, List.mem_append, List.mem_singleton] at mem
    rcases mem with front | last
    · by_cases small : n < base
      · rw [if_pos small] at front
        cases front
      · rw [if_neg small] at front
        exact ih _ (Nat.div_lt_self (by omega) some_) c front
    · rw [last]
      exact digit uppercase _ ((Nat.mod_lt n (by omega)).trans_le few)

end

theorem outChar_text {text : List UInt8} (plain : ∀ c ∈ text, c ≠ 10) (o : Output) : text.foldl outChar o =
    { serial := o.serial ++ text, console := if o.ready then o.console ++ text else o.console, ready := o.ready } := by
  induction text generalizing o with
  | nil =>
    simp
  | cons c text ih =>
    rw [List.forall_mem_cons] at plain
    rw [List.foldl_cons, ih plain.2, outChar, if_neg plain.1]
    cases o.ready <;> simp

namespace Directive
variable (d : Directive) (v : BitVec 64)

def spec : Spec := ⟨d.zeroPad, d.widthValue, -1, d.size ≠ .int, d.size = .longlong⟩

def printedWidth : Nat := if d.value v < 0 then d.widthValue - 1 else d.fieldWidth

/-- What is printed instead of `expected`. -/
def printed : List UInt8 := padded (d.lead v) (d.digits v) (d.printedWidth v) d.zeros

theorem widthValue_lt : d.widthValue < 2 ^ 31 := by
  have := d.fits
  unfold widthValue
  omega

end Directive

section
variable (d : Directive) (v : BitVec 64) (args : List Arg)

theorem printInt_negative (negative : v.toInt < 0) {width : Nat} (small : width < 2 ^ 31) (zeroPad : Bool) :
    printInt v width zeroPad = .ok (padded (ascii "-") (canonical 10 false v.toInt.natAbs) (width - 1) zeroPad) := by
  have negated : (-v).toNat = v.toInt.natAbs := by
    rw [BitVec.toInt_eq_toNat_cond] at negative ⊢
    rw [BitVec.toNat_neg]
    have := v.isLt
    split at negative
    · omega
    · rename_i high
      rw [if_neg high]
      omega
  have less : (if (width : Int) ≠ 0 then wrapInt ((width : Int) - 1) else 0) = ((width - 1 : Nat) : Int) := by
    split
    · rw [wrapInt_of_fits (by omega) (by omega)]
      omega
    · omega
  unfold printInt
  rw [if_pos negative, negated, less]
  exact printUint_eq (Or.inl rfl) false (some (ascii "-")) (by decide) (by have := v.toInt_lt; have := v.le_toInt; omega) (by omega) zeroPad

theorem printInt_other (positive : ¬ v.toInt < 0) {width : Nat} (small : width < 2 ^ 31) (zeroPad : Bool) :
    printInt v width zeroPad = .ok (padded [] (canonical 10 false v.toInt.natAbs) width zeroPad) := by
  have same : v.toNat = v.toInt.natAbs := by
    rw [BitVec.toInt_eq_toNat_cond] at positive ⊢
    have := v.isLt
    split at positive
    · rename_i low
      rw [if_pos low]
      omega
    · omega
  unfold printInt
  rw [if_neg positive, same]
  exact printUint_eq (Or.inl rfl) false none (by decide) (by rw [← same]; exact v.isLt) small zeroPad

theorem printed_number (other : d.conversion ≠ .pointer) : d.printed v =
    if d.value v < 0 then padded (ascii "-") (d.digits v) (d.widthValue - 1) d.zeroPad
    else padded [] (d.digits v) d.widthValue d.zeroPad := by
  have zeros : d.zeros = d.zeroPad := by
    unfold Directive.zeros
    rw [decide_eq_false other, Bool.or_false]
  have field : d.fieldWidth = d.widthValue := if_neg fun both => other both.1
  unfold Directive.printed Directive.printedWidth Directive.lead
  rw [zeros, field]
  by_cases negative : d.value v < 0
  · rw [if_pos negative, if_pos negative, if_pos negative]
  · rw [if_neg negative, if_neg negative, if_neg negative, if_neg other]

theorem convert_signed (signed : d.conversion = .decimal ∨ d.conversion = .integer) :
    convert d.spec d.conversion.char (.number v :: args) = .ok (d.printed v, args) := by
  have char : d.conversion.char = 100 ∨ d.conversion.char = 105 := by
    rcases signed with conv | conv <;> rw [conv] <;> decide
  have value : (signedArg d.spec v).toInt = d.value v := by
    unfold signedArg Directive.value Directive.spec
    rcases signed with conv | conv <;> rw [conv] <;> cases d.size <;> simp [BitVec.toInt_signExtend_of_le]
  have digits : d.digits v = canonical 10 false (d.value v).natAbs := by
    unfold Directive.digits
    rcases signed with conv | conv <;> rw [conv]
  have pointer : d.conversion ≠ .pointer := by
    rcases signed with conv | conv <;> rw [conv] <;> decide
  have small := d.widthValue_lt
  unfold convert
  rw [if_pos char, printed_number d v pointer, digits]
  show (printInt (signedArg d.spec v) d.widthValue d.zeroPad >>= fun text => .ok (text, args)) = _
  by_cases negative : d.value v < 0
  · rw [if_pos negative, printInt_negative _ (by rw [value]; exact negative) small, value]
    rfl
  · rw [if_neg negative, printInt_other _ (by rw [value]; exact negative) small, value]
    rfl

theorem convert_unsigned (unsigned : d.conversion = .unsigned ∨ d.conversion = .hex ∨ d.conversion = .hexUpper) :
    convert d.spec d.conversion.char (.number v :: args) = .ok (d.printed v, args) := by
  have value : d.value v = unsignedArg d.spec v := by
    unfold unsignedArg Directive.value Directive.spec
    rcases unsigned with conv | conv | conv <;> rw [conv] <;> cases d.size <;> simp
  have positive : ¬ d.value v < 0 := by
    rw [value]
    omega
  have pointer : d.conversion ≠ .pointer := by
    rcases unsigned with conv | conv | conv <;> rw [conv] <;> decide
  have small := d.widthValue_lt
  have fits : unsignedArg d.spec v < 2 ^ 64 := by
    unfold unsignedArg
    have := v.isLt
    have := (v.setWidth 32).isLt
    split
    · exact v.isLt
    · split <;> omega
  have number : (d.value v).natAbs = unsignedArg d.spec v := by
    rw [value]
    rfl
  rw [printed_number d v pointer, if_neg positive]
  unfold Directive.digits
  rcases unsigned with conv | conv | conv
  · rw [conv, number]
    show (printUint (unsignedArg d.spec v) 10 false d.widthValue d.zeroPad none >>= fun text => .ok (text, args)) = _
    rw [printUint_eq (Or.inl rfl) false none (by decide) fits small]
    rfl
  · rw [conv, number]
    show (printUint (unsignedArg d.spec v) 16 false d.widthValue d.zeroPad none >>= fun text => .ok (text, args)) = _
    rw [printUint_eq (Or.inr rfl) false none (by decide) fits small]
    rfl
  · rw [conv, number]
    show (printUint (unsignedArg d.spec v) 16 true d.widthValue d.zeroPad none >>= fun text => .ok (text, args)) = _
    rw [printUint_eq (Or.inr rfl) true none (by decide) fits small]
    rfl

theorem convert_pointer (pointer : d.conversion = .pointer) :
    convert d.spec d.conversion.char (.number v :: args) = .ok (d.printed v, args) := by
  have value : d.value v = v.toNat := by
    unfold Directive.value
    rw [pointer]
  have positive : ¬ d.value v < 0 := by
    rw [value]
    omega
  have small := d.widthValue_lt
  have width : (if (d.widthValue : Int) ≠ 0 then (d.widthValue : Int) else 16) = (d.fieldWidth : Int) := by
    unfold Directive.fieldWidth
    by_cases none_ : d.widthValue = 0
    · rw [if_neg (by omega), if_pos ⟨pointer, none_⟩]
      rfl
    · rw [if_pos (by omega), if_neg fun both => none_ both.2]
  have fits : d.fieldWidth < 2 ^ 31 := by
    unfold Directive.fieldWidth
    split <;> omega
  have zeros : d.zeros = true := by
    unfold Directive.zeros
    rw [decide_eq_true pointer, Bool.or_true]
  unfold Directive.printed Directive.printedWidth Directive.lead Directive.digits
  rw [if_neg positive, if_neg positive, if_pos pointer, zeros, value, pointer]
  show (printUint v.toNat 16 false (if (d.widthValue : Int) ≠ 0 then (d.widthValue : Int) else 16) true (some (ascii "0x")) >>=
    fun text => .ok (text, args)) = _
  rw [width, printUint_eq (Or.inr rfl) false (some (ascii "0x")) (by decide) v.isLt fits]
  rfl

theorem convert_eq : convert d.spec d.conversion.char (.number v :: args) = .ok (d.printed v, args) := by
  cases conv : d.conversion with
  | decimal =>
    rw [← conv]
    exact convert_signed d v args (Or.inl conv)
  | integer =>
    rw [← conv]
    exact convert_signed d v args (Or.inr conv)
  | unsigned =>
    rw [← conv]
    exact convert_unsigned d v args (Or.inl conv)
  | hex =>
    rw [← conv]
    exact convert_unsigned d v args (Or.inr (Or.inl conv))
  | hexUpper =>
    rw [← conv]
    exact convert_unsigned d v args (Or.inr (Or.inr conv))
  | pointer =>
    rw [← conv]
    exact convert_pointer d v args conv

end

section
variable {fmt : List UInt8} {args : List Arg} {c : UInt8}

theorem skip_length (c : UInt8) (fmt : List UInt8) : (skip c fmt).2.length ≤ fmt.length := by
  unfold skip
  split
  · exact (List.length_tail ..).trans_le (Nat.sub_le _ _)
  · exact Nat.le_refl _

theorem readDecimal_length (fmt : List UInt8) : (readDecimal fmt).2.length ≤ fmt.length := List.length_dropWhile_le _ fmt

theorem readNumber_nonneg (digits : List UInt8) (decimal : ∀ c ∈ digits, isDecimal c = true) (n : Int) (nonneg : 0 ≤ n) :
    0 ≤ readNumber digitInt 10 n digits := by
  induction digits generalizing n with
  | nil => exact nonneg
  | cons c digits ih =>
    have digit : 0 ≤ digitInt c := by
      have range := decimal c List.mem_cons_self
      unfold isDecimal at range
      rw [decide_eq_true_eq, UInt8.le_iff_toNat_le, UInt8.le_iff_toNat_le] at range
      have low : 48 ≤ c.toNat := range.1
      unfold digitInt
      omega
    have next : 0 ≤ n * 10 + digitInt c := by omega
    exact ih (fun c mem => decimal c (List.mem_cons_of_mem _ mem)) _ next

theorem readPrecision_length {r : Int × List UInt8 × List Arg} (read : readPrecision fmt args = .ok r) : r.2.1.length ≤ fmt.length := by
  have dot := skip_length 46 fmt
  have star := skip_length 42 (skip 46 fmt).2
  have number := readDecimal_length (skip 42 (skip 46 fmt).2).2
  unfold readPrecision at read
  dsimp only at read
  split at read
  · split at read
    · cases taken : vaNumber args with
      | error e =>
        rw [taken] at read
        cases read
      | ok t =>
        rw [taken] at read
        cases read
        dsimp only
        omega
    · cases read
      dsimp only
      omega
  · cases read
    exact dot

theorem readSize_length (fmt : List UInt8) : (readSize fmt).2.2.length ≤ fmt.length := by
  have long := skip_length 108 fmt
  have longlong := skip_length 108 (skip 108 fmt).2
  unfold readSize
  dsimp only
  split
  · exact (skip_length 122 _).trans (longlong.trans long)
  · exact (skip_length 122 _).trans long

theorem readSpec_length {r : Spec × List UInt8 × List Arg} (read : readSpec fmt args = .ok r) : r.2.1.length ≤ fmt.length := by
  have zero := skip_length 48 fmt
  have width := readDecimal_length (skip 48 fmt).2
  unfold readSpec at read
  dsimp only at read
  cases precision : readPrecision (readDecimal (skip 48 fmt).2).2 args with
  | error e =>
    rw [precision] at read
    cases read
  | ok t =>
    have dot := readPrecision_length precision
    have size := readSize_length t.2.1
    rw [precision] at read
    cases read
    show (readSize t.2.1).2.2.length ≤ fmt.length
    omega

theorem formatLoop_fuel (fuel fuel' : Nat) (fmt : List UInt8) (args : List Arg) (enough : fmt.length < fuel) (enough' : fmt.length < fuel') :
    formatLoop fuel fmt args = formatLoop fuel' fmt args := by
  induction fuel generalizing fuel' fmt args with
  | zero => exact absurd enough (Nat.not_lt_zero _)
  | succ fuel ih =>
    cases fuel' with
    | zero => exact absurd enough' (Nat.not_lt_zero _)
    | succ fuel' =>
      cases fmt with
      | nil => rfl
      | cons c fmt =>
        rw [List.length_cons] at enough enough'
        unfold formatLoop
        by_cases plain : c ≠ 37
        · rw [if_pos plain, if_pos plain, ih fuel' fmt args (by omega) (by omega)]
        · rw [if_neg plain, if_neg plain]
          cases read : readSpec fmt args with
          | error e => rfl
          | ok r =>
            obtain ⟨spec, left, args⟩ := r
            have short := readSpec_length read
            cases left with
            | nil => rfl
            | cons conv left =>
              rw [List.length_cons] at short
              show (convert spec conv args >>= fun t => formatLoop fuel left t.2 >>= fun rest => .ok (t.1 ++ rest)) =
                (convert spec conv args >>= fun t => formatLoop fuel' left t.2 >>= fun rest => .ok (t.1 ++ rest))
              congr 1
              funext t
              rw [ih fuel' left t.2 (by omega) (by omega)]

end

namespace Directive
variable (d : Directive) (v : BitVec 64)

theorem kind_cons (rest : List UInt8) : ∃ c tail, d.size.text ++ d.conversion.char :: rest = c :: tail ∧ isDecimal c = false ∧ c ≠ 46 := by
  cases d.size <;> cases d.conversion <;> exact ⟨_, _, rfl, by decide, by decide⟩

theorem kind_readSize (rest : List UInt8) : readSize (d.size.text ++ d.conversion.char :: rest) =
    (decide (d.size ≠ .int), decide (d.size = .longlong), d.conversion.char :: rest) := by
  cases d.size <;> cases d.conversion <;> rfl

theorem width_readDecimal (rest : List UInt8) : readDecimal (d.width ++ (d.size.text ++ d.conversion.char :: rest)) =
    ((d.widthValue : Int), d.size.text ++ d.conversion.char :: rest) := by
  obtain ⟨c, tail, kind, other, -⟩ := d.kind_cons rest
  have value : readInt digitInt 10 0 d.width = d.widthValue := by
    have wraps := readInt_eq digitInt 10 0 d.width
    have small := d.fits
    have positive := readNumber_nonneg d.width d.decimal 0 (Int.le_refl 0)
    rw [wrapInt_of_fits (by omega) (by omega), wrapInt_of_fits (by omega) small] at wraps
    unfold widthValue
    omega
  unfold readDecimal
  rw [List.takeWhile_append_of_pos d.decimal, List.dropWhile_append_of_pos d.decimal, kind, List.takeWhile_cons_of_neg (by rw [other]; decide),
    List.dropWhile_cons_of_neg (by rw [other]; decide), List.append_nil, value]

theorem zero_skip (rest : List UInt8) : skip 48 (d.options ++ rest) = (d.zeroPad, d.width ++ (d.size.text ++ d.conversion.char :: rest)) := by
  obtain ⟨c, tail, kind, other, -⟩ := d.kind_cons rest
  have shape : d.options ++ rest = (if d.zeroPad then [48] else []) ++ (d.width ++ (d.size.text ++ d.conversion.char :: rest)) := by
    unfold options
    simp only [List.append_assoc, List.singleton_append]
  rw [shape]
  cases zero : d.zeroPad with
  | true => rfl
  | false =>
    have first := d.leading zero
    have different : (d.width ++ (d.size.text ++ d.conversion.char :: rest)).head? ≠ some 48 := by
      cases width : d.width with
      | nil =>
        rw [List.nil_append, kind, List.head?_cons]
        intro same
        rw [Option.some.inj same] at other
        exact absurd other (by decide)
      | cons c width =>
        rw [width] at first
        exact first
    exact if_neg different

theorem options_readSpec (rest : List UInt8) (args : List Arg) :
    readSpec (d.options ++ rest) args = .ok (d.spec, d.conversion.char :: rest, args) := by
  obtain ⟨c, tail, kind, -, other⟩ := d.kind_cons rest
  have precision : readPrecision (d.size.text ++ d.conversion.char :: rest) args = .ok (-1, d.size.text ++ d.conversion.char :: rest, args) := by
    have dot : skip 46 (d.size.text ++ d.conversion.char :: rest) = (false, d.size.text ++ d.conversion.char :: rest) := by
      unfold skip
      rw [if_neg (by rw [kind, List.head?_cons]; exact fun same => other (Option.some.inj same))]
    unfold readPrecision
    rw [dot]
    rfl
  unfold readSpec
  rw [d.zero_skip]
  dsimp only
  rw [d.width_readDecimal]
  dsimp only
  rw [precision]
  dsimp only [bind, Except.bind]
  rw [d.kind_readSize]
  rfl

theorem kvprintf_text (rest : List UInt8) (args : List Arg) : kvprintf (d.text ++ rest) (.number v :: args) =
    (kvprintf rest args >>= fun text => .ok (d.printed v ++ text)) := by
  have longer : rest.length < (d.options ++ rest).length + 1 := by
    rw [List.length_append]
    omega
  have percent : d.text ++ rest = 37 :: (d.options ++ rest) := rfl
  unfold kvprintf
  rw [formatLoop_fuel (rest.length + 1) ((d.options ++ rest).length + 1) rest args (Nat.lt_succ_self _) longer, percent,
    List.length_cons, formatLoop, if_neg (by decide), d.options_readSpec]
  show (convert d.spec d.conversion.char (.number v :: args) >>= fun t =>
    formatLoop ((d.options ++ rest).length + 1) rest t.2 >>= fun text => .ok (t.1 ++ text)) = _
  rw [convert_eq]
  rfl

theorem fieldWidth_negative (negative : d.value v < 0) : d.fieldWidth = d.widthValue := by
  refine if_neg fun both => ?_
  have pointer : d.value v = v.toNat := by
    unfold value
    rw [both.1]
  rw [pointer] at negative
  exact absurd negative (Int.not_lt.mpr (Int.natCast_nonneg _))

theorem printed_of_fits (fits : d.Fits v) : d.printed v = d.expected v := by
  unfold printed expected printedWidth
  by_cases negative : d.value v < 0
  · have tight := fits negative
    have none_ : d.widthValue - ((d.lead v).length + (d.digits v).length) = 0 := by omega
    have none_' : d.widthValue - 1 - ((d.lead v).length + (d.digits v).length) = 0 := by omega
    rw [if_pos negative, fieldWidth_negative d v negative]
    unfold padded
    rw [none_, none_']
  · rw [if_neg negative]

theorem fits_of_printed (same : d.printed v = d.expected v) : d.Fits v := by
  intro negative
  have lengths : (d.printed v).length = (d.expected v).length := by rw [same]
  unfold printed expected at lengths
  rw [padded_length, padded_length, fieldWidth_negative d v negative] at lengths
  unfold printedWidth at lengths
  rw [if_pos negative] at lengths
  omega

/-- A number is printed in its field except for negative numbers that are shorter than the field. -/
theorem printsRight_iff : d.PrintsRight v ↔ d.Fits v := by
  constructor
  · intro right
    have one := (kvprintf_text d v [] []).symm.trans (right.emitted [] [])
    have same := Except.ok.inj one
    rw [List.append_nil, List.append_nil] at same
    exact fits_of_printed d v same
  · intro fits
    constructor
    · intro rest args
      rw [kvprintf_text, printed_of_fits d v fits]
    · exact padded_length _ _ _ _

/-- `%5d` prints -3 with two spaces, not three. -/
theorem short_field : (∃ d : Directive, d.text = ascii "%5d" ∧ ¬ d.PrintsRight (-3)) ∧
    kvprintf (ascii "%5d") [.number (-3)] = .ok (ascii "  -3") := by
  refine ⟨⟨⟨false, [53], .int, .decimal, List.forall_mem_singleton.mpr (by decide), by decide, by decide⟩, by decide, fun right => ?_⟩, by decide⟩
  have text := right.emitted [] []
  exact absurd text (by decide)

theorem printed_plain : ∀ c ∈ d.printed v, c ≠ 10 := by
  have lead : ∀ c ∈ d.lead v, c ≠ 10 := by
    have minus : ascii "-" = [45] := by decide
    have hex : ascii "0x" = [48, 120] := by decide
    unfold lead
    rw [minus, hex]
    split
    · exact List.forall_mem_singleton.mpr (by decide)
    · split
      · exact List.forall_mem_cons.mpr ⟨by decide, List.forall_mem_singleton.mpr (by decide)⟩
      · exact List.forall_mem_nil _
  have digits : ∀ c ∈ d.digits v, c ≠ 10 := by
    unfold digits
    cases d.conversion <;> exact canonical_plain (by decide) (by decide) _ _
  unfold printed padded
  intro c mem
  split at mem
  · rw [List.mem_append, List.mem_append, List.mem_replicate] at mem
    rcases mem with (mem | ⟨-, rfl⟩) | mem
    · exact lead c mem
    · decide
    · exact digits c mem
  · rw [List.mem_append, List.mem_append, List.mem_replicate] at mem
    rcases mem with (⟨-, rfl⟩ | mem) | mem
    · decide
    · exact lead c mem
    · exact digits c mem

theorem kprintf_text (o : Output) : kprintf d.text [.number v] o = .ok
    { serial := o.serial ++ d.printed v, console := if o.ready then o.console ++ d.printed v else o.console, ready := o.ready } := by
  have text := kvprintf_text d v [] []
  rw [List.append_nil] at text
  unfold kprintf
  rw [text]
  show Except.ok (((d.printed v) ++ []).foldl outChar o) = _
  rw [List.append_nil, outChar_text (d.printed_plain v)]

end Directive

end RexOs.Kernel
