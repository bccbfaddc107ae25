import Mathlib.Logic.Function.Basic
import Mathlib.Algebra.Group.Nat.Defs

/-! DEFLATE, zlib and gzip decompression (`user/inflate.c`).

Every access that C leaves unchecked is checked here: reads of the source, writes of the
destination, back references and indices into the tables end in a `Fault` when they are out of
bounds, and so does a loop that does not end. The fixed tables, which the source builds on first use
and keeps, are built at each use.
-/

set_option autoImplicit false

namespace RexOs.User

inductive Fault where
  | source
  | dest
  | window
  | index
  | hang
  deriving DecidableEq, Repr

structure Inf where
  src : List UInt8
  incnt : Nat
  out : List UInt8
  outlen : Nat
  bitbuf : Nat
  bitcnt : Nat
  err : Bool
  deriving DecidableEq, Repr

def rd (a : List Nat) (i : Int) : Except Fault Nat :=
  if i < 0 then .error .index
  else
    match a[i.toNat]? with
    | some v => .ok v
    | none => .error .index

def wr (a : List Nat) (i v : Nat) : Except Fault (List Nat) :=
  if i < a.length then .ok (a.set i v) else .error .index

/-- `s->in[s->incnt++]`. -/
def nextByte (s : Inf) : Except Fault (UInt8 × Inf) :=
  match s.src[s.incnt]? with
  | some b => .ok (b, { s with incnt := s.incnt + 1 })
  | none => .error .source

/-- `s->incnt += n`. -/
def skip (s : Inf) (n : Nat) : Except Fault Inf :=
  if s.incnt + n ≤ s.src.length then .ok { s with incnt := s.incnt + n } else .error .source

/-- `s->out[s->outcnt++] = b`. -/
def emit (s : Inf) (b : UInt8) : Except Fault Inf :=
  if s.out.length < s.outlen then .ok { s with out := s.out ++ [b] } else .error .dest

def infBitsLoop (need : Nat) : Nat → Inf → Nat → Except Fault (Nat × Inf)
  | 0, _, _ => .error .hang
  | fuel + 1, s, val =>
      if s.bitcnt < need then
        if s.incnt = s.src.length then .ok (0, { s with err := true })
        else do
          let (byte, s) ← nextByte s
          infBitsLoop need fuel { s with bitcnt := s.bitcnt + 8 } (val ||| byte.toNat <<< s.bitcnt)
      else .ok (val % 2 ^ need, { s with bitbuf := val >>> need, bitcnt := s.bitcnt - need })

def infBits (s : Inf) (need : Nat) : Except Fault (Nat × Inf) := infBitsLoop need (need + 1) s s.bitbuf

def storedLoop : Nat → Inf → Except Fault (Int × Inf)
  | 0, s => .ok (0, s)
  | len + 1, s =>
      if s.out.length = s.outlen then .ok (1, s)
      else do
        let (b, s) ← nextByte s
        let s ← emit s b
        storedLoop len s

def infStored (s : Inf) : Except Fault (Int × Inf) :=
  let s := { s with bitbuf := 0, bitcnt := 0 }
  if s.incnt + 4 > s.src.length then .ok (2, s)
  else do
    let (lo, s) ← nextByte s
    let (hi, s) ← nextByte s
    let len := lo.toNat ||| hi.toNat <<< 8
    let s ← skip s 2
    if s.incnt + len > s.src.length then .ok (2, s) else storedLoop len s

def maxBits : Nat := 15
def maxLCodes : Nat := 286
def maxDCodes : Nat := 30
def maxCodes : Nat := maxLCodes + maxDCodes
def fixLCodes : Nat := 288

structure Huffman where
  count : List Nat
  symbol : List Nat
  deriving DecidableEq, Repr

/-- A table for `n` symbols before it is constructed. -/
def Huffman.blank (n : Nat) : Huffman := ⟨List.replicate (maxBits + 1) 0, List.replicate n 0⟩

def decodeLoop (h : Huffman) : Nat → Nat → Nat → Nat → Nat → Inf → Except Fault (Int × Inf)
  | 0, _, _, _, _, s => .ok (-9, s)
  | rounds + 1, len, code, first, index, s => do
      let (bit, s) ← infBits s 1
      let code := code ||| bit
      if s.err then .ok (-99, s)
      else do
        let count ← rd h.count len
        if (code : Int) - count < first then do
          let symbol ← rd h.symbol (index + ((code : Int) - first))
          .ok ((symbol : Int), s)
        else decodeLoop h rounds (len + 1) (code <<< 1) ((first + count) <<< 1) (index + count) s

def infDecode (s : Inf) (h : Huffman) : Except Fault (Int × Inf) := decodeLoop h maxBits 1 0 0 0 s

def clearLoop : Nat → Nat → List Nat → Except Fault (List Nat)
  | 0, _, count => .ok count
  | rounds + 1, len, count => do
      let count ← wr count len 0
      clearLoop rounds (len + 1) count

/-- Count the lengths of the symbols from `symbol` on; `lengths[off]` is that of symbol 0. -/
def countLoop (lengths : List Nat) (off : Nat) : Nat → Nat → List Nat → Except Fault (List Nat)
  | 0, _, count => .ok count
  | rounds + 1, symbol, count => do
      let len ← rd lengths ((off + symbol : Nat) : Int)
      let c ← rd count len
      let count ← wr count len (c + 1)
      countLoop lengths off rounds (symbol + 1) count

def leftLoop (count : List Nat) : Nat → Nat → Int → Except Fault Int
  | 0, _, left => .ok left
  | rounds + 1, len, left => do
      let c ← rd count len
      let left := 2 * left - c
      if left < 0 then .ok left else leftLoop count rounds (len + 1) left

def offsLoop (count : List Nat) : Nat → Nat → List Nat → Except Fault (List Nat)
  | 0, _, offs => .ok offs
  | rounds + 1, len, offs => do
      let o ← rd offs len
      let c ← rd count len
      let offs ← wr offs (len + 1) (o + c)
      offsLoop count rounds (len + 1) offs

def fillLoop (lengths : List Nat) (off : Nat) : Nat → Nat → List Nat → List Nat → Except Fault (List Nat)
  | 0, _, _, table => .ok table
  | rounds + 1, symbol, offs, table => do
      let len ← rd lengths ((off + symbol : Nat) : Int)
      if len ≠ 0 then do
        let o ← rd offs len
        let table ← wr table o symbol
        let offs ← wr offs len (o + 1)
        fillLoop lengths off rounds (symbol + 1) offs table
      else fillLoop lengths off rounds (symbol + 1) offs table

/-- `inf_construct` on the lengths `lengths[off..off+n)`. -/
def infConstruct (h : Huffman) (lengths : List Nat) (off n : Nat) : Except Fault (Int × Huffman) := do
  let count ← clearLoop (maxBits + 1) 0 h.count
  let count ← countLoop lengths off n 0 count
  let none ← rd count 0
  if none = n then .ok (0, { h with count := count })
  else do
    let left ← leftLoop count maxBits 1 1
    if left < 0 then .ok (left, { h with count := count })
    else do
      let offs ← wr (List.replicate (maxBits + 1) 0) 1 0
      let offs ← offsLoop count (maxBits - 1) 1 offs
      let table ← fillLoop lengths off n 0 offs h.symbol
      .ok (left, ⟨count, table⟩)

def infLens : List Nat :=
  [3, 4, 5, 6, 7, 8, 9, 10, 11, 13, 15, 17, 19, 23, 27, 31, 35, 43, 51, 59, 67, 83, 99, 115, 131, 163, 195, 227, 258]

def infLext : List Nat :=
  [0, 0, 0, 0, 0, 0, 0, 0, 1, 1, 1, 1, 2, 2, 2, 2, 3, 3, 3, 3, 4, 4, 4, 4, 5, 5, 5, 5, 0]

def infDists : List Nat :=
  [1, 2, 3, 4, 5, 7, 9, 13, 17, 25, 33, 49, 65, 97, 129, 193, 257, 385, 513, 769, 1025, 1537, 2049, 3073, 4097,
    6145, 8193, 12289, 16385, 24577]

def infDext : List Nat :=
  [0, 0, 0, 0, 1, 1, 2, 2, 3, 3, 4, 4, 5, 5, 6, 6, 7, 7, 8, 8, 9, 9, 10, 10, 11, 11, 12, 12, 13, 13]

/-- `n` times `s->out[s->outcnt] = s->out[s->outcnt - dist]; s->outcnt++`. -/
def copyLoop (dist : Nat) : Nat → Inf → Except Fault Inf
  | 0, s => .ok s
  | n + 1, s =>
      if s.out.length < dist then .error .window
      else
        match s.out[s.out.length - dist]? with
        | none => .error .window
        | some b => do
            let s ← emit s b
            copyLoop dist n s

def Inf.avail (s : Inf) : Nat := 8 * (s.src.length - s.incnt) + s.bitcnt

def codesLoop (lencode distcode : Huffman) : Nat → Inf → Except Fault (Int × Inf)
  | 0, _ => .error .hang
  | fuel + 1, s => do
      let (symbol, s) ← infDecode s lencode
      if symbol < 0 then .ok (symbol, s)
      else if symbol < 256 then
        if s.out.length = s.outlen then .ok (1, s)
        else do
          let s ← emit s (UInt8.ofNat symbol.toNat)
          codesLoop lencode distcode fuel s
      else if symbol > 256 then
        let symbol := symbol - 257
        if symbol ≥ 29 then .ok (-10, s)
        else do
          let base ← rd infLens symbol
          let ext ← rd infLext symbol
          let (extra, s) ← infBits s ext
          let len := base + extra
          if s.err then .ok (-99, s)
          else do
            let (symbol, s) ← infDecode s distcode
            if symbol < 0 then .ok (symbol, s)
            else if symbol ≥ 30 then .ok (-11, s)
            else do
              let base ← rd infDists symbol
              let ext ← rd infDext symbol
              let (extra, s) ← infBits s ext
              let dist := base + extra
              if s.err then .ok (-99, s)
              else if dist > s.out.length then .ok (-12, s)
              else if s.out.length + len > s.outlen then do
                let s ← copyLoop dist (s.outlen - s.out.length) s
                .ok (1, s)
              else do
                let s ← copyLoop dist len s
                codesLoop lencode distcode fuel s
      else .ok (0, s)

def infCodes (s : Inf) (lencode distcode : Huffman) : Except Fault (Int × Inf) :=
  codesLoop lencode distcode (s.avail + 1) s

def fixedLengths : List Nat :=
  List.replicate 144 8 ++ List.replicate 112 9 ++ List.replicate 24 7 ++ List.replicate 8 8

def infFixed (s : Inf) : Except Fault (Int × Inf) := do
  let (_, lencode) ← infConstruct (.blank fixLCodes) fixedLengths 0 fixLCodes
  let (_, distcode) ← infConstruct (.blank maxDCodes) (List.replicate maxDCodes 5 ++ fixedLengths.drop maxDCodes)
    0 maxDCodes
  infCodes s lencode distcode

def orderTable : List Nat := [16, 17, 18, 0, 8, 7, 9, 6, 10, 5, 11, 4, 12, 3, 13, 2, 14, 1, 15]

/-- The code lengths of the code length code, and zeros for the rest of them. -/
def orderLoop (ncode : Nat) : Nat → Nat → List Nat → Inf → Except Fault (List Nat × Inf)
  | 0, _, lengths, s => .ok (lengths, s)
  | rounds + 1, index, lengths, s =>
      if index < ncode then do
        let (v, s) ← infBits s 3
        let place ← rd orderTable index
        let lengths ← wr lengths place v
        orderLoop ncode rounds (index + 1) lengths s
      else do
        let place ← rd orderTable index
        let lengths ← wr lengths place 0
        orderLoop ncode rounds (index + 1) lengths s

/-- `while (symbol--) lengths[index++] = len`. -/
def repeatLoop (len : Nat) : Nat → Nat → List Nat → Except Fault (List Nat)
  | 0, _, lengths => .ok lengths
  | n + 1, index, lengths => do
      let lengths ← wr lengths index len
      repeatLoop len n (index + 1) lengths

def repeated (lengths : List Nat) (symbol : Int) (index : Nat) : Except Fault Nat :=
  if symbol = 16 then rd lengths ((index : Int) - 1) else .ok 0

def lengthsLoop (h : Huffman) (total : Nat) : Nat → Nat → List Nat → Inf → Except Fault (Int × List Nat × Inf)
  | 0, _, _, _ => .error .hang
  | fuel + 1, index, lengths, s =>
      if index < total then do
        let (symbol, s) ← infDecode s h
        if symbol < 0 then .ok (symbol, lengths, s)
        else if symbol < 16 then do
          let lengths ← wr lengths index symbol.toNat
          lengthsLoop h total fuel (index + 1) lengths s
        else if symbol = 16 ∧ index = 0 then .ok (-5, lengths, s)
        else do
          let len ← repeated lengths symbol index
          let (extra, s) ← infBits s (if symbol = 16 then 2 else if symbol = 17 then 3 else 7)
          let times := (if symbol = 16 ∨ symbol = 17 then 3 else 11) + extra
          if s.err then .ok (-99, lengths, s)
          else if index + times > total then .ok (-6, lengths, s)
          else do
            let lengths ← repeatLoop len times index lengths
            lengthsLoop h total fuel (index + times) lengths s
      else .ok (0, lengths, s)

def infDynamic (s : Inf) : Except Fault (Int × Inf) := do
  let (v, s) ← infBits s 5
  let nlen := v + 257
  let (v, s) ← infBits s 5
  let ndist := v + 1
  let (v, s) ← infBits s 4
  let ncode := v + 4
  if s.err then .ok (-99, s)
  else if nlen > maxLCodes ∨ ndist > maxDCodes then .ok (-3, s)
  else do
    let (lengths, s) ← orderLoop ncode 19 0 (List.replicate maxCodes 0) s
    if s.err then .ok (-99, s)
    else do
      let (err, lencode) ← infConstruct (.blank maxLCodes) lengths 0 19
      if err ≠ 0 then .ok (-4, s)
      else do
        let (err, lengths, s) ← lengthsLoop lencode (nlen + ndist) (nlen + ndist + 1) 0 lengths s
        if err ≠ 0 then .ok (err, s)
        else do
          let endOfBlock ← rd lengths 256
          if endOfBlock = 0 then .ok (-9, s)
          else do
            let (err, lencode) ← infConstruct lencode lengths 0 nlen
            let none ← rd lencode.count 0
            if err < 0 ∨ err > 0 ∧ (nlen : Int) - none ≠ 1 then .ok (-7, s)
            else do
              let (err, distcode) ← infConstruct (.blank maxDCodes) lengths nlen ndist
              let none ← rd distcode.count 0
              if err < 0 ∨ err > 0 ∧ (ndist : Int) - none ≠ 1 then .ok (-8, s)
              else infCodes s lencode distcode

def infBlock (type : Nat) (s : Inf) : Except Fault (Int × Inf) :=
  if type = 0 then infStored s
  else if type = 1 then infFixed s
  else if type = 2 then infDynamic s
  else .ok (-1, s)

def inflateLoop : Nat → Inf → Except Fault (Int × Inf)
  | 0, _ => .error .hang
  | fuel + 1, s => do
      let (last, s) ← infBits s 1
      let (type, s) ← infBits s 2
      if s.err then .ok (2, s)
      else do
        let (err, s) ← infBlock type s
        if err ≠ 0 then .ok (err, s)
        else if last = 0 then inflateLoop fuel s
        else .ok (0, s)

/-- The result code and the bytes written; `*destlen` becomes their number. -/
def rexInflate (src : List UInt8) (destlen : Nat) : Except Fault (Int × List UInt8) := do
  let s : Inf := ⟨src, 0, [], destlen, 0, 0, false⟩
  let (err, s) ← inflateLoop (s.avail + 1) s
  .ok (err, s.out)

/-- `p[off]`. -/
def byteAt (p : List UInt8) (off : Nat) : Except Fault Nat :=
  match p[off]? with
  | some b => .ok b.toNat
  | none => .error .source

/-- `while (off < n && p[off] != 0) off++`. -/
def zeroLoop (p : List UInt8) : Nat → Nat → Except Fault Nat
  | 0, _ => .error .hang
  | fuel + 1, off =>
      if off < p.length then do
        let b ← byteAt p off
        if b ≠ 0 then zeroLoop p fuel (off + 1) else .ok off
      else .ok off

/-- The place after a zero-terminated field of the gzip header, if the flag says it is there. -/
def skipField (p : List UInt8) (present : Bool) (off : Nat) : Except Fault Nat :=
  if present then do
    let off ← zeroLoop p (p.length + 1) off
    .ok (off + 1)
  else .ok off

/-- The place after the extra field, whose length comes first. -/
def skipExtra (p : List UInt8) (present : Bool) (off : Nat) : Except Fault Nat :=
  if present then do
    let lo ← byteAt p off
    let hi ← byteAt p (off + 1)
    .ok (off + (2 + (lo ||| hi <<< 8)))
  else .ok off

def inflateFrom (src : List UInt8) (destlen off : Nat) : Except Fault (Int × Option (List UInt8)) := do
  let (err, out) ← rexInflate (src.drop off) destlen
  .ok (err, some out)

/-- The result code with the bytes written, if `rex_inflate` was reached. -/
def rexGunzip (src : List UInt8) (destlen : Nat) : Except Fault (Int × Option (List UInt8)) := do
  if src.length < 2 then inflateFrom src destlen 0
  else do
    let b0 ← byteAt src 0
    let b1 ← byteAt src 1
    if b0 = 0x1f ∧ b1 = 0x8b then
      if src.length < 10 then .ok (-20, none)
      else do
        let flg ← byteAt src 3
        let off := 10
        if flg &&& 0x04 ≠ 0 ∧ off + 2 > src.length then .ok (-20, none)
        else do
          let off ← skipExtra src (flg &&& 0x04 ≠ 0) off
          let off ← skipField src (flg &&& 0x08 ≠ 0) off
          let off ← skipField src (flg &&& 0x10 ≠ 0) off
          let off := if flg &&& 0x02 ≠ 0 then off + 2 else off
          if off ≥ src.length then .ok (-20, none) else inflateFrom src destlen off
    else if b0 &&& 0x0f = 8 ∧ (b0 <<< 8 ||| b1) % 31 = 0 then inflateFrom src destlen 2
    else inflateFrom src destlen 0

end RexOs.User
