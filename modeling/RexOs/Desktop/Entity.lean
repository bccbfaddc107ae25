import RexOs.Library.CInt
import RexOs.Library.Memory
import RexOs.Library.Safe
import RexOs.User.Iconv

/-! Entities of HTML (`decode_entity` of `user/desktop/app_browser.c`).

The text is given by what a read at an offset returns. The maximum tells how much of it belongs to
the page.
-/

set_option autoImplicit false

namespace RexOs.Desktop.Browser

open RexOs.Library
open RexOs.User.Iconv (ascii)

inductive Fault where
  | read
  | write
  | hang
  deriving DecidableEq, Repr

abbrev Reader := Nat → Except Fault UInt8

def memory (s : Mem) : Reader := fun i => .ok (s i)

/-- With the bytes that are written to `out`. -/
def utf8Encode (cp : Int) : List UInt8 :=
  let cp := if cp < 0 ∨ cp > 0x10FFFF then 0xFFFD else cp.toNat
  if cp < 0x80 then [UInt8.ofNat cp]
  else if cp < 0x800 then [UInt8.ofNat (0xC0 ||| cp >>> 6), UInt8.ofNat (0x80 ||| (cp &&& 0x3F))]
  else if cp < 0x10000 then
    [UInt8.ofNat (0xE0 ||| cp >>> 12), UInt8.ofNat (0x80 ||| (cp >>> 6 &&& 0x3F)), UInt8.ofNat (0x80 ||| (cp &&& 0x3F))]
  else
    [UInt8.ofNat (0xF0 ||| cp >>> 18), UInt8.ofNat (0x80 ||| (cp >>> 12 &&& 0x3F)), UInt8.ofNat (0x80 ||| (cp >>> 6 &&& 0x3F)),
      UInt8.ofNat (0x80 ||| (cp &&& 0x3F))]

def ciEq (read : Reader) : Nat → List UInt8 → Except Fault Bool
  | _, [] => .ok true
  | i, cb :: name => do
      let ca ← read i
      if toLowerByte ca ≠ toLowerByte cb then .ok false else ciEq read (i + 1) name

/-- `max >= bound && ci_eq(s, name, length)`. -/
structure Named where
  bound : Int
  name : List UInt8
  cp : Nat
  consumed : Nat
  deriving DecidableEq

def namedEntities : List Named := [
  ⟨5, ascii "&amp;", 38, 5⟩,
  ⟨4, ascii "&lt;", 60, 4⟩,
  ⟨4, ascii "&gt;", 62, 4⟩,
  ⟨6, ascii "&quot;", 34, 6⟩,
  ⟨6, ascii "&nbsp;", 32, 6⟩,
  ⟨6, ascii "&apos;", 39, 6⟩,
  ⟨6, ascii "&copy;", 0xA9, 6⟩,
  ⟨5, ascii "&reg;", 0xAE, 5⟩,
  ⟨6, ascii "&deg;", 0xB0, 5⟩,
  ⟨7, ascii "&mdash;", 0x2014, 7⟩,
  ⟨7, ascii "&ndash;", 0x2013, 7⟩,
  ⟨7, ascii "&lsquo;", 0x2018, 7⟩,
  ⟨7, ascii "&rsquo;", 0x2019, 7⟩,
  ⟨7, ascii "&ldquo;", 0x201C, 7⟩,
  ⟨7, ascii "&rdquo;", 0x201D, 7⟩,
  ⟨8, ascii "&hellip;", 0x2026, 8⟩,
  ⟨7, ascii "&trade;", 0x2122, 7⟩,
  ⟨7, ascii "&euro;", 0x20AC, 6⟩]

def matchNamed (read : Reader) (max : Int) : List Named → Except Fault (Option Named)
  | [] => .ok none
  | e :: rest =>
      if e.bound ≤ max then do
        let same ← ciEq read 0 e.name
        if same then .ok (some e) else matchNamed read max rest
      else matchNamed read max rest

def digitOf (hex : Bool) (ch : UInt8) : Option Nat :=
  if 48 ≤ ch ∧ ch ≤ 57 then some (ch.toNat - 48)
  else if hex = false then none
  else if 97 ≤ ch ∧ ch ≤ 102 then some (ch.toNat - 97 + 10)
  else if 65 ≤ ch ∧ ch ≤ 70 then some (ch.toNat - 65 + 10)
  else none

def base (hex : Bool) : Nat := if hex then 16 else 10

/-- `while (i < max)`: `i`, `code` and `digits`. -/
def numberLoop (read : Reader) (hex : Bool) (max : Int) : Nat → Nat → Int → Nat → Except Fault (Nat × Int × Nat)
  | 0, _, _, _ => .error .hang
  | fuel + 1, i, code, digits =>
      if i < max then do
        let ch ← read i
        match digitOf hex ch with
        | none => .ok (i, code, digits)
        | some d => numberLoop read hex max fuel (i + 1) (wrapInt (code * base hex + d)) (digits + 1)
      else .ok (i, code, digits)

def isX (c : UInt8) : Bool := c = 120 ∨ c = 88

/-- `i < max && (s[i] == 'x' || s[i] == 'X')`, where `i` is 2. -/
def hexMark (read : Reader) (max : Int) : Except Fault Bool :=
  if 2 < max then do
    let c ← read 2
    .ok (isX c)
  else .ok false

def start (hex : Bool) : Nat := if hex then 3 else 2

/-- The numeric branch, without `utf8_encode`. -/
def decodeNumeric (read : Reader) (max : Int) : Except Fault (Option (Nat × Int)) := do
  let hex ← hexMark read max
  let (i, code, digits) ← numberLoop read hex max (max.toNat + 1) (start hex) 0 0
  if 0 < digits ∧ i < max then do
    let c ← read i
    if c = 59 then .ok (some (i + 1, code)) else .ok none
  else .ok none

def decodeEntity (read : Reader) (max : Int) : Except Fault (Nat × List UInt8) := do
  let c ← read 0
  if c ≠ 38 then .ok (0, [])
  else do
    let named ← matchNamed read max namedEntities
    match named with
    | some e => .ok (e.consumed, utf8Encode e.cp)
    | none => do
        let c ← read 1
        if c = 35 then do
          let numeric ← decodeNumeric read max
          match numeric with
          | some (consumed, cp) => .ok (consumed, utf8Encode cp)
          | none => .ok (0, [])
        else .ok (0, [])

end RexOs.Desktop.Browser
