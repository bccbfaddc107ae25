import RexOs.Library.Canonical
import Mathlib.Algebra.Group.Nat.Defs

/-! The DEFLATE format (RFC 1951), as relations between a byte string and the data it stands for.

Positions are counted in bits from the start of the string. A stream is a list of
blocks; each block takes the output so far and the position to the next ones.
Huffman codes are complete, except that a code may have a single symbol, and a
block without copies needs no distance code. The number of distance codes that
a dynamic block may declare is a parameter; the RFC allows 32.
-/

set_option autoImplicit false

namespace RexOs.User

open RexOs.Library

def bit (src : List UInt8) (i : Nat) : Nat := (src.getD (i / 8) 0).toNat / 2 ^ (i % 8) % 2

def field (src : List UInt8) (pos : Nat) : Nat → Nat
  | 0 => 0
  | n + 1 => bit src pos + 2 * field src (pos + 1) n

def codeword (src : List UInt8) (pos : Nat) : Nat → Nat
  | 0 => 0
  | n + 1 => 2 * codeword src pos n + bit src (pos + n)

def ReadsField (src : List UInt8) (pos n v next : Nat) : Prop :=
  next = pos + n ∧ next ≤ 8 * src.length ∧ v = field src pos n

/-- The code of `sym` in the canonical code with these lengths (3.2.2) is at `pos`. -/
def ReadsSymbol (src : List UInt8) (lengths : List Nat) (pos sym next : Nat) : Prop :=
  sym < lengths.length ∧ lengths.getD sym 0 ≠ 0 ∧ next = pos + lengths.getD sym 0 ∧ next ≤ 8 * src.length ∧
    codeword src pos (lengths.getD sym 0) = canonicalCode lengths sym

instance (src : List UInt8) (pos n v next : Nat) : Decidable (ReadsField src pos n v next) :=
  inferInstanceAs (Decidable (_ ∧ _))

instance (src : List UInt8) (lengths : List Nat) (pos sym next : Nat) :
    Decidable (ReadsSymbol src lengths pos sym next) := inferInstanceAs (Decidable (_ ∧ _))

/-- Extra bits and first length of the length code `257 + c`. -/
def lengthExtra (c : Nat) : Nat := if c < 8 ∨ c = 28 then 0 else (c - 4) / 4
def lengthBase (c : Nat) : Nat :=
  if c < 8 then 3 + c else if c = 28 then 258 else 3 + (4 + c % 4) * 2 ^ lengthExtra c

/-- Extra bits and first distance of the distance code `d`. -/
def distExtra (d : Nat) : Nat := if d < 4 then 0 else d / 2 - 1
def distBase (d : Nat) : Nat := if d < 4 then 1 + d else 1 + (2 + d % 2) * 2 ^ distExtra d

/-- Append `n` bytes, each the one `dist` back from the end at that moment. -/
def copyBack (dist : Nat) : Nat → List UInt8 → List UInt8
  | 0, out => out
  | n + 1, out => copyBack dist n (out ++ [out.getD (out.length - dist) 0])

inductive Data (src : List UInt8) (lits dists : List Nat) : Nat → List UInt8 → Nat → List UInt8 → Prop where
  | stop {pos next : Nat} {out : List UInt8} :
      ReadsSymbol src lits pos 256 next → Data src lits dists pos out next out
  | literal {pos after next sym : Nat} {out final : List UInt8} :
      ReadsSymbol src lits pos sym after → sym < 256 →
      Data src lits dists after (out ++ [UInt8.ofNat sym]) next final → Data src lits dists pos out next final
  | copy {pos p₁ p₂ p₃ p₄ next c e d f : Nat} {out final : List UInt8} :
      ReadsSymbol src lits pos (257 + c) p₁ → c < 29 → ReadsField src p₁ (lengthExtra c) e p₂ →
      ReadsSymbol src dists p₂ d p₃ → d < 30 → ReadsField src p₃ (distExtra d) f p₄ →
      distBase d + f ≤ out.length →
      Data src lits dists p₄ (copyBack (distBase d + f) (lengthBase c + e) out) next final →
      Data src lits dists pos out next final

def longestCode : Nat := 15

def CompleteCode (lengths : List Nat) : Prop :=
  (∀ l ∈ lengths, l ≤ longestCode) ∧ codeLeft lengths longestCode = 0

def SingleCode (lengths : List Nat) : Prop :=
  (∀ l ∈ lengths, l ≤ longestCode) ∧ lengths.count 0 + 1 = lengths.length

def NoCode (lengths : List Nat) : Prop := lengths.count 0 = lengths.length

instance (lengths : List Nat) : Decidable (CompleteCode lengths) := inferInstanceAs (Decidable (_ ∧ _))

def codeOrder : List Nat := [16, 17, 18, 0, 8, 7, 9, 6, 10, 5, 11, 4, 12, 3, 13, 2, 14, 1, 15]

def codeLengthLengths (src : List UInt8) (pos n : Nat) : List Nat :=
  (List.range 19).map fun sym =>
    if codeOrder.idxOf sym < n then field src (pos + 3 * codeOrder.idxOf sym) 3 else 0

/-- The run-length coded lengths, `total` of them. -/
inductive Lengths (src : List UInt8) (code : List Nat) (total : Nat) : Nat → List Nat → Nat → List Nat → Prop where
  | stop {pos : Nat} {acc : List Nat} : acc.length = total → Lengths src code total pos acc pos acc
  | length {pos after next sym : Nat} {acc final : List Nat} :
      acc.length < total → ReadsSymbol src code pos sym after → sym < 16 →
      Lengths src code total after (acc ++ [sym]) next final → Lengths src code total pos acc next final
  | repeatLast {pos p₁ p₂ next e last : Nat} {acc final : List Nat} :
      ReadsSymbol src code pos 16 p₁ → ReadsField src p₁ 2 e p₂ → acc.getLast? = some last →
      acc.length + (3 + e) ≤ total →
      Lengths src code total p₂ (acc ++ List.replicate (3 + e) last) next final →
      Lengths src code total pos acc next final
  | repeatZero {pos p₁ p₂ next e : Nat} {acc final : List Nat} :
      ReadsSymbol src code pos 17 p₁ → ReadsField src p₁ 3 e p₂ → acc.length + (3 + e) ≤ total →
      Lengths src code total p₂ (acc ++ List.replicate (3 + e) 0) next final →
      Lengths src code total pos acc next final
  | repeatZeros {pos p₁ p₂ next e : Nat} {acc final : List Nat} :
      ReadsSymbol src code pos 18 p₁ → ReadsField src p₁ 7 e p₂ → acc.length + (11 + e) ≤ total →
      Lengths src code total p₂ (acc ++ List.replicate (11 + e) 0) next final →
      Lengths src code total pos acc next final

def fixedLitLengths : List Nat :=
  List.replicate 144 8 ++ List.replicate 112 9 ++ List.replicate 24 7 ++ List.replicate 8 8

def fixedDistanceLengths : List Nat := List.replicate 32 5

/-- The two bytes at `b` as a number. -/
def word (src : List UInt8) (b : Nat) : Nat := (src.getD b 0).toNat + 256 * (src.getD (b + 1) 0).toNat

inductive Block (maxDist : Nat) (src : List UInt8) : Nat → List UInt8 → Nat → List UInt8 → Prop where
  | stored {pos b : Nat} {out : List UInt8} :
      field src pos 2 = 0 → b = (pos + 2 + 7) / 8 → b + 4 + word src b ≤ src.length →
      word src b + word src (b + 2) = 65535 →
      Block maxDist src pos out (8 * (b + 4 + word src b)) (out ++ (src.drop (b + 4)).take (word src b))
  | fixed {pos next : Nat} {out final : List UInt8} :
      field src pos 2 = 1 → Data src fixedLitLengths fixedDistanceLengths (pos + 2) out next final →
      Block maxDist src pos out next final
  | dynamic {pos p₁ p₂ p₃ p₄ next hlit hdist hclen : Nat} {lengths : List Nat} {out final : List UInt8} :
      field src pos 2 = 2 → ReadsField src (pos + 2) 5 hlit p₁ → ReadsField src p₁ 5 hdist p₂ →
      ReadsField src p₂ 4 hclen p₃ → hlit + 257 ≤ 286 → hdist + 1 ≤ maxDist →
      p₃ + 3 * (hclen + 4) ≤ 8 * src.length → CompleteCode (codeLengthLengths src p₃ (hclen + 4)) →
      Lengths src (codeLengthLengths src p₃ (hclen + 4)) (hlit + 257 + (hdist + 1)) (p₃ + 3 * (hclen + 4)) []
        p₄ lengths →
      CompleteCode (lengths.take (hlit + 257)) ∨ SingleCode (lengths.take (hlit + 257)) →
      CompleteCode (lengths.drop (hlit + 257)) ∨ SingleCode (lengths.drop (hlit + 257)) ∨
        NoCode (lengths.drop (hlit + 257)) →
      Data src (lengths.take (hlit + 257)) (lengths.drop (hlit + 257)) p₄ out next final →
      Block maxDist src pos out next final

inductive Blocks (maxDist : Nat) (src : List UInt8) : Nat → List UInt8 → List UInt8 → Prop where
  | last {pos next : Nat} {out final : List UInt8} :
      pos + 3 ≤ 8 * src.length → bit src pos = 1 → Block maxDist src (pos + 1) out next final →
      Blocks maxDist src pos out final
  | more {pos next : Nat} {out mid final : List UInt8} :
      pos + 3 ≤ 8 * src.length → bit src pos = 0 → Block maxDist src (pos + 1) out next mid →
      Blocks maxDist src next mid final → Blocks maxDist src pos out final

/-- The stream at the start of `src` stands for `data`. -/
def Deflate (maxDist : Nat) (src data : List UInt8) : Prop := Blocks maxDist src 0 [] data

end RexOs.User
