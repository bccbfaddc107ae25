import RexOs.Library.CString
import RexOs.Library.Utf8

/-! `iconv` of `user/newlib-glue/iconv_mini.c`.

The input and the output are lists of bytes, the output with the room that is left. A round
decodes one character and encodes it.
-/

set_option autoImplicit false

namespace RexOs.User.Iconv

open RexOs.Library

inductive Enc where
  | utf8
  | latin1
  deriving DecidableEq, Repr

structure Cd where
  src : Enc
  dst : Enc
  deriving DecidableEq, Repr

inductive Errno where
  | ebadf
  | eilseq
  | einval
  | e2big
  | enomem
  deriving DecidableEq, Repr

/-- `strcasecmp(a, b) == 0`. -/
def sameNoCase (a b : List UInt8) : Bool := a.map toLowerByte = b.map toLowerByte

def ascii (s : String) : List UInt8 := s.toList.map fun c => c.toNat.toUInt8

def utf8Names : List (List UInt8) := [ascii "UTF-8", ascii "UTF8"]

def latin1Names : List (List UInt8) :=
  [ascii "ISO-8859-1", ascii "ISO8859-1", ascii "LATIN1", ascii "US-ASCII", ascii "ASCII", ascii "ANSI_X3.4-1968"]

/-- What stands behind a slash is cut off, and there is room for 31 characters. -/
def parseEnc (name : List UInt8) : Option Enc :=
  let buf := (name.takeWhile (· ≠ 47)).take 31
  if utf8Names.any (sameNoCase buf) then some .utf8 else if latin1Names.any (sameNoCase buf) then some .latin1 else none

def iconvOpen (memory : Bool) (tocode fromcode : List UInt8) : Except Errno Cd :=
  match parseEnc fromcode, parseEnc tocode with
  | some src, some dst => if memory then .ok ⟨src, dst⟩ else .error .enomem
  | _, _ => .error .einval

/-- The masks for the first byte: the length of the sequence, and the first bits of the character. -/
def lead (c : UInt8) : Option (Nat × Nat) :=
  if c < 0x80 then some (1, c.toNat)
  else if c &&& 0xE0 = 0xC0 then some (2, (c &&& 0x1F).toNat)
  else if c &&& 0xF0 = 0xE0 then some (3, (c &&& 0x0F).toNat)
  else if c &&& 0xF8 = 0xF0 then some (4, (c &&& 0x07).toNat)
  else none

/-- `for (size_t k = 1; k < consumed; k++)`. -/
def continuation (cp : Nat) : List UInt8 → Option Nat
  | [] => some cp
  | b :: rest => if b &&& 0xC0 ≠ 0x80 then none else continuation (cp <<< 6 ||| (b &&& 0x3F).toNat) rest

def decode (src : Enc) (c : UInt8) (rest : List UInt8) : Except Errno (Nat × Nat) :=
  match src with
  | .latin1 => .ok (c.toNat, 1)
  | .utf8 =>
      match lead c with
      | none => .error .eilseq
      | some (consumed, cp) =>
          if consumed > rest.length + 1 then .error .einval
          else
            match continuation cp (rest.take (consumed - 1)) with
            | none => .error .eilseq
            | some cp => .ok (cp, consumed)

def need (cp : Nat) : Nat := if cp < 0x80 then 1 else if cp < 0x800 then 2 else if cp < 0x10000 then 3 else 4

def encodeUtf8 (cp : Nat) : List UInt8 :=
  match need cp with
  | 1 => [UInt8.ofNat cp]
  | 2 => [UInt8.ofNat (0xC0 ||| cp >>> 6), UInt8.ofNat (0x80 ||| (cp &&& 0x3F))]
  | 3 => [UInt8.ofNat (0xE0 ||| cp >>> 12), UInt8.ofNat (0x80 ||| (cp >>> 6 &&& 0x3F)), UInt8.ofNat (0x80 ||| (cp &&& 0x3F))]
  | _ => [UInt8.ofNat (0xF0 ||| cp >>> 18), UInt8.ofNat (0x80 ||| (cp >>> 12 &&& 0x3F)), UInt8.ofNat (0x80 ||| (cp >>> 6 &&& 0x3F)),
      UInt8.ofNat (0x80 ||| (cp &&& 0x3F))]

def encode (dst : Enc) (cp outLeft : Nat) : Option (List UInt8) :=
  match dst with
  | .latin1 => if outLeft < 1 then none else some [if cp ≤ 0xFF then UInt8.ofNat cp else 63]
  | .utf8 => if outLeft < need cp then none else some (encodeUtf8 cp)

structure Buffers where
  input : List UInt8
  out : List UInt8
  outLeft : Nat
  deriving DecidableEq, Repr

/-- `while (il > 0)`. Each round takes at least one byte, so there are at most as many rounds as bytes. The result
is `errno`, or `none` when all is converted. -/
def convert (cd : Cd) : Nat → Buffers → Option Errno × Buffers
  | 0, b => (none, b)
  | rounds + 1, b =>
      match b.input with
      | [] => (none, b)
      | c :: rest =>
          match decode cd.src c rest with
          | .error e => (some e, b)
          | .ok (cp, consumed) =>
              match encode cd.dst cp b.outLeft with
              | none => (some .e2big, b)
              | some bytes => convert cd rounds ⟨b.input.drop consumed, b.out ++ bytes, b.outLeft - bytes.length⟩

/-- `cd` is missing for `(iconv_t)-1`, and the input for a call that resets the state. -/
def iconv (cd : Option Cd) (input : Option (List UInt8)) (outLeft : Nat) : Option Errno × Buffers :=
  match cd, input with
  | none, input => (some .ebadf, ⟨input.getD [], [], outLeft⟩)
  | some _, none => (none, ⟨[], [], outLeft⟩)
  | some cd, some input => convert cd input.length ⟨input, [], outLeft⟩

end RexOs.User.Iconv
