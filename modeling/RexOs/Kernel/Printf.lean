import RexOs.Library.Buffer
import RexOs.Library.CInt

/-! Formatted output of the kernel (`kernel/lib/printf.c`).

Functions return the characters that are handed to `out_char`. Arguments are taken from slots of
eight bytes, and a conversion looks at as much of a slot as its type has.
-/

set_option autoImplicit false

namespace RexOs.Kernel

open RexOs.Library

inductive Fault where
  | read
  | write
  | argument
  | hang
  deriving DecidableEq, Repr

def ascii (s : String) : List UInt8 := s.toList.map fun c => UInt8.ofNat c.toNat

structure Output where
  serial : List UInt8
  console : List UInt8
  ready : Bool
  deriving DecidableEq, Repr

def outChar (o : Output) (c : UInt8) : Output :=
  { o with
    serial := o.serial ++ if c = 10 then [13, c] else [c]
    console := if o.ready then o.console ++ [c] else o.console }

def emitPadded (digits : List UInt8) (width : Int) (zeroPad : Bool) (lead : Option (List UInt8)) : List UInt8 :=
  let plen : Int := (lead.getD []).length
  let total := wrapInt (digits.length + plen)
  let pad := (wrapInt (width - total)).toNat
  (match zeroPad, lead with
    | true, some lead => lead ++ List.replicate pad 48
    | _, _ => List.replicate pad (if zeroPad then 48 else 32) ++ lead.getD []) ++ digits.reverse

def hexLo : List UInt8 := ascii "0123456789abcdef"

def hexHi : List UInt8 := ascii "0123456789ABCDEF"

/-- `char buf[32]` -/
def bufMax : Nat := 32

/-- `while (val > 0)`: what is in `buf` so far. -/
def digitLoop (digits : List UInt8) (base : Nat) : Nat → Nat → List UInt8 → Except Fault (List UInt8)
  | 0, _, _ => .error .hang
  | fuel + 1, val, buf =>
      if 0 < val then do
        let c ← readByte .read digits (val % base)
        if buf.length < bufMax then digitLoop digits base fuel (val / base) (buf ++ [c]) else .error .write
      else .ok buf

def fillBuf (digits : List UInt8) (base val : Nat) : Except Fault (List UInt8) :=
  if val = 0 then .ok [48] else digitLoop digits base (val + 1) val []

def printUint (val base : Nat) (uppercase : Bool) (width : Int) (zeroPad : Bool) (lead : Option (List UInt8)) : Except Fault (List UInt8) := do
  let digits := if uppercase then hexHi else hexLo
  let buf ← fillBuf digits base val
  .ok (emitPadded buf width zeroPad lead)

def printInt (val : BitVec 64) (width : Int) (zeroPad : Bool) : Except Fault (List UInt8) :=
  if val.toInt < 0 then printUint (-val).toNat 10 false (if width ≠ 0 then wrapInt (width - 1) else 0) zeroPad (some (ascii "-"))
  else printUint val.toNat 10 false width zeroPad none

inductive Arg where
  | number (v : BitVec 64)
  | string (s : Option (List UInt8))
  deriving DecidableEq, Repr

def vaNumber : List Arg → Except Fault (BitVec 64 × List Arg)
  | .number v :: args => .ok (v, args)
  | _ => .error .argument

def vaString : List Arg → Except Fault (Option (List UInt8) × List Arg)
  | .string s :: args => .ok (s, args)
  | _ => .error .argument

/-- What stands between `%` and the conversion. -/
structure Spec where
  zeroPad : Bool
  width : Int
  precision : Int
  isLong : Bool
  isLonglong : Bool
  deriving DecidableEq, Repr

def isDecimal (c : UInt8) : Bool := 48 ≤ c ∧ c ≤ 57

def digitInt (c : UInt8) : Int := c.toNat - 48

/-- `while (*fmt >= '0' && *fmt <= '9')`: the number, and what follows. -/
def readDecimal (fmt : List UInt8) : Int × List UInt8 := (readInt digitInt 10 0 (fmt.takeWhile isDecimal), fmt.dropWhile isDecimal)

/-- `if (*fmt == c)` -/
def skip (c : UInt8) (fmt : List UInt8) : Bool × List UInt8 := if fmt.head? = some c then (true, fmt.tail) else (false, fmt)

/-- `if (*fmt == '.')` -/
def readPrecision (fmt : List UInt8) (args : List Arg) : Except Fault (Int × List UInt8 × List Arg) := do
  let (dot, fmt) := skip 46 fmt
  if dot then do
    let (star, fmt) := skip 42 fmt
    if star then do
      let (v, args) ← vaNumber args
      .ok ((v.setWidth 32).toInt, fmt, args)
    else .ok ((readDecimal fmt).1, (readDecimal fmt).2, args)
  else .ok (-1, fmt, args)

/-- `l`, `ll` and `z`: the two flags. -/
def readSize (fmt : List UInt8) : Bool × Bool × List UInt8 :=
  let (isLong, fmt) := skip 108 fmt
  let (isLonglong, fmt) := if isLong then skip 108 fmt else (false, fmt)
  let (size, fmt) := skip 122 fmt
  (isLong || size, isLonglong, fmt)

def readSpec (fmt : List UInt8) (args : List Arg) : Except Fault (Spec × List UInt8 × List Arg) := do
  let (zeroPad, fmt) := skip 48 fmt
  let (width, fmt) := readDecimal fmt
  let (precision, fmt, args) ← readPrecision fmt args
  let (isLong, isLonglong, fmt) := readSize fmt
  .ok (⟨zeroPad, width, precision, isLong, isLonglong⟩, fmt, args)

/-- An argument of type `int`, `long` or `long long`, as an `int64_t`. -/
def signedArg (spec : Spec) (v : BitVec 64) : BitVec 64 :=
  if spec.isLonglong then v else if spec.isLong then v else (v.setWidth 32).signExtend 64

def unsignedArg (spec : Spec) (v : BitVec 64) : Nat :=
  if spec.isLonglong then v.toNat else if spec.isLong then v.toNat else (v.setWidth 32).toNat

/-- `switch (*fmt)` -/
def convert (spec : Spec) (conv : UInt8) (args : List Arg) : Except Fault (List UInt8 × List Arg) :=
  if conv = 100 ∨ conv = 105 then do
    let (v, args) ← vaNumber args
    let text ← printInt (signedArg spec v) spec.width spec.zeroPad
    .ok (text, args)
  else if conv = 117 then do
    let (v, args) ← vaNumber args
    let text ← printUint (unsignedArg spec v) 10 false spec.width spec.zeroPad none
    .ok (text, args)
  else if conv = 120 ∨ conv = 88 then do
    let (v, args) ← vaNumber args
    let text ← printUint (unsignedArg spec v) 16 (conv = 88) spec.width spec.zeroPad none
    .ok (text, args)
  else if conv = 112 then do
    let (v, args) ← vaNumber args
    let text ← printUint v.toNat 16 false (if spec.width ≠ 0 then spec.width else 16) true (some (ascii "0x"))
    .ok (text, args)
  else if conv = 115 then do
    let (s, args) ← vaString args
    let s := s.getD (ascii "(null)")
    .ok (if spec.precision < 0 then s else s.take spec.precision.toNat, args)
  else if conv = 99 then do
    let (v, args) ← vaNumber args
    .ok ([UInt8.ofNat v.toNat], args)
  else if conv = 37 then .ok ([37], args)
  else .ok ([37, conv], args)

/-- `while (*fmt)`. A format that ends within a conversion is read behind its NUL. -/
def formatLoop : Nat → List UInt8 → List Arg → Except Fault (List UInt8)
  | 0, _, _ => .error .hang
  | _ + 1, [], _ => .ok []
  | fuel + 1, c :: fmt, args =>
      if c ≠ 37 then do
        let rest ← formatLoop fuel fmt args
        .ok (c :: rest)
      else do
        let (spec, fmt, args) ← readSpec fmt args
        match fmt with
        | [] => .error .read
        | conv :: fmt => do
            let (text, args) ← convert spec conv args
            let rest ← formatLoop fuel fmt args
            .ok (text ++ rest)

def kvprintf (fmt : List UInt8) (args : List Arg) : Except Fault (List UInt8) := formatLoop (fmt.length + 1) fmt args

def kprintf (fmt : List UInt8) (args : List Arg) (o : Output) : Except Fault Output := do
  let text ← kvprintf fmt args
  .ok (text.foldl outChar o)

end RexOs.Kernel
