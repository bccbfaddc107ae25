import RexOs.Library.CInt
import RexOs.Library.CString

/-! URLs: `h_parse_url` and `h_make_absolute_url` of `user/http.c`.

A C string is the list of its characters in front of the terminating zero.
-/

set_option autoImplicit false

namespace RexOs.User.Http

open RexOs.Library

def httpHostMax : Nat := 128
def httpPathMax : Nat := 256
def httpUrlMax : Nat := 256
def httpErrBadUrl : Int := -1

def text (s : String) : List UInt8 := s.toList.map fun c => c.toNat.toUInt8

def hStrncmp : List UInt8 → List UInt8 → Nat → Int
  | _, _, 0 => 0
  | a, b, n + 1 =>
      let x := a.headD 0
      let y := b.headD 0
      if x ≠ y then x.toInt8.toInt - y.toInt8.toInt else if x = 0 then 0 else hStrncmp a.tail b.tail n

def hStrcatLimit (dst src : List UInt8) (max : Nat) : List UInt8 × Bool :=
  if dst.length ≥ max then (dst, false)
  else (dst ++ src.take (max - 1 - dst.length), decide ((src.drop (max - 1 - dst.length)).isEmpty))

def isDecimal (c : UInt8) : Bool := 48 ≤ c ∧ c ≤ 57

def decimalValue (c : UInt8) : Int := c.toNat - 48

def hAtoi (s : List UInt8) : Int := readInt decimalValue 10 0 (s.takeWhile isDecimal)

/-- The digits of a number, the last one first; at most `room` of them. -/
def digitsBackward : Nat → Nat → List UInt8
  | 0, _ => []
  | room + 1, value => if value > 0 then UInt8.ofNat (48 + value % 10) :: digitsBackward room (value / 10) else []

def appendChars (max : Nat) : List UInt8 → List UInt8 → List UInt8 × Bool
  | [], dst => (dst, true)
  | c :: rest, dst =>
      let (dst, done) := hStrcatLimit dst [c] max
      if done then appendChars max rest dst else (dst, false)

def hAppendIntLimit (dst : List UInt8) (value max : Nat) : List UInt8 × Bool :=
  if value = 0 then hStrcatLimit dst (text "0") max else appendChars max (digitsBackward 16 value).reverse dst

/-- `max - 1` characters and the zero. -/
def hStrncpy0 (src : List UInt8) (max : Nat) : List UInt8 := src.take (max - 1)

structure HttpUrl where
  host : List UInt8
  path : List UInt8
  port : Nat
  isTls : Bool
  deriving DecidableEq, Repr

def defaultPort (isTls : Bool) : Nat := if isTls then 443 else 80

def schemeText (isTls : Bool) : List UInt8 := if isTls then text "https://" else text "http://"

def splitScheme (url : List UInt8) : Bool × List UInt8 :=
  if hStrncmp url (text "https://") 8 = 0 then (true, url.drop 8)
  else if hStrncmp url (text "http://") 7 = 0 then (false, url.drop 7)
  else (false, url)

/-- `while (*p && *p != '/' && *p != ':' && hi < HTTP_HOST_MAX - 1)`, with room for `room` characters. -/
def hostLoop : Nat → List UInt8 → List UInt8 × List UInt8
  | 0, p => ([], p)
  | _ + 1, [] => ([], [])
  | room + 1, c :: p =>
      if c = 47 ∨ c = 58 then ([], c :: p)
      else
        let (host, p) := hostLoop room p
        (c :: host, p)

def parsePort (isTls : Bool) (p : List UInt8) : Except Int (Nat × List UInt8) :=
  if p.head? = some 58 then
    let p := p.tail
    let port := hAtoi p
    if port ≤ 0 ∨ port > 65535 then .error httpErrBadUrl else .ok (port.toNat, p.dropWhile isDecimal)
  else .ok (defaultPort isTls, p)

def parsePath (p : List UInt8) : Except Int (List UInt8) :=
  if p.head? = some 47 then
    if p.drop (httpPathMax - 1) ≠ [] then .error httpErrBadUrl else .ok (p.take (httpPathMax - 1))
  else .ok [47]

def cat (dst src : List UInt8) : Except Int (List UInt8) :=
  let (dst, done) := hStrcatLimit dst src httpUrlMax
  if done then .ok dst else .error httpErrBadUrl

def printSite (u : HttpUrl) : Except Int (List UInt8) := do
  let out ← cat [] (schemeText u.isTls)
  let out ← cat out u.host
  if u.port ≠ defaultPort u.isTls then do
    let out ← cat out (text ":")
    let (out, done) := hAppendIntLimit out u.port httpUrlMax
    if done then .ok out else .error httpErrBadUrl
  else .ok out

def hParseUrl (url : List UInt8) (wanted : Bool) : Except Int (HttpUrl × List UInt8) := do
  let (isTls, p) := splitScheme url
  if p = [] then .error httpErrBadUrl
  else do
    let (host, p) := hostLoop (httpHostMax - 1) p
    if host = [] ∨ (p ≠ [] ∧ p.head? ≠ some 47 ∧ p.head? ≠ some 58) then .error httpErrBadUrl
    else do
      let (port, p) ← parsePort isTls p
      let path ← parsePath p
      let parsed : HttpUrl := ⟨host, path, port, isTls⟩
      if wanted then do
        let normalized ← printSite parsed
        let normalized ← cat normalized path
        .ok (parsed, normalized)
      else .ok (parsed, [])

def hMakeAbsoluteUrl (baseUrl location : List UInt8) : Except Int (List UInt8) :=
  if hStrncmp location (text "http://") 7 = 0 ∨ hStrncmp location (text "https://") 8 = 0 then
    .ok (hStrncpy0 location httpUrlMax)
  else do
    let (base, _) ← hParseUrl baseUrl false
    let out ← printSite base
    if location.head? = some 47 then cat out location
    else do
      let out ← cat out (text "/")
      cat out location

end RexOs.User.Http
