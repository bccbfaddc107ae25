import RexOs.NetSurf.FetchDecode

/-! Well-formed bodies, and that the decoder finds in them what the server has put there.

`ChunkedBody` is the sender's side: its chunks, and how they are written. What comes behind the zero
line (trailer fields, the closing CRLF, another response) is not part of it.
-/

set_option autoImplicit false

namespace RexOs.NetSurf

open RexOs.Library

/-- A size in hexadecimal and perhaps an extension, in at most 31 characters. The size is one that a `long` has. -/
structure SizeLine where
  digits : List UInt8
  ext : List UInt8
  some_ : digits ≠ []
  hex : ∀ c ∈ digits, IsDigit 16 c
  delimited : ∀ c ∈ ext.head?, c = 59 ∨ c = 32 ∨ c = 9
  line : ∀ c ∈ ext, c ≠ 13 ∧ c ≠ 10
  short : (digits ++ ext).length ≤ szlineMax
  fits : digitsValue 16 digits < 2 ^ 63

namespace SizeLine
variable (l : SizeLine)

def size : Nat := digitsValue 16 l.digits

def text : List UInt8 := l.digits ++ l.ext

def bytes : List UInt8 := l.text ++ [13, 10]

theorem text_line {c : UInt8} (member : c ∈ l.text) : c ≠ 13 ∧ c ≠ 10 := by
  rcases List.mem_append.mp member with digit | ext
  · obtain ⟨v, value, _⟩ := l.hex c digit
    constructor <;> rintro rfl <;> cases value
  · exact l.line c ext

theorem strtol_text : strtol 16 l.text = l.size := by
  apply strtol_hex l.some_ l.hex _ l.fits
  intro c head
  rcases l.delimited c head with rfl | rfl | rfl
  all_goals
    refine ⟨?_, by decide, by decide⟩
    rintro ⟨v, value, _⟩
    cases value

end SizeLine

structure Chunk where
  line : SizeLine
  data : List UInt8
  some_ : data ≠ []
  announced : line.size = data.length

def Chunk.bytes (c : Chunk) : List UInt8 := c.line.bytes ++ (c.data ++ [13, 10])

structure ChunkedBody where
  chunks : List Chunk
  last : SizeLine
  zero : last.size = 0

namespace ChunkedBody
variable (body : ChunkedBody)

def data : List UInt8 := body.chunks.flatMap Chunk.data

def bytes : List UInt8 := body.chunks.flatMap Chunk.bytes ++ body.last.bytes

end ChunkedBody

namespace Decoder
variable (d : Decoder)

def atLine : Decoder := { d with chunkRemaining := -1, szline := [], done := false }

def gathered (text : List UInt8) : Decoder := { d with szline := d.szline ++ text }

def inData (n : Int) : Decoder := { d.atLine with chunkRemaining := n }

def atEnd : Decoder := { d.atLine with done := true }

end Decoder

variable {d : Decoder}

theorem decode_lineByte (chunked : d.chunked = true) (open_ : d.done = false) (line : d.chunkRemaining ≤ 0) (c : UInt8) (xs : List UInt8) :
    decode d (c :: xs) = decode (d.lineByte c) xs := by
  have going : d.isOver = false := (over_chunked chunked).trans open_
  have notPlain : ¬ d.chunked = false := by
    rw [chunked]
    exact Bool.noConfusion
  have silent : d.payload c = [] := by
    apply if_neg
    rintro (plain | positive)
    · exact notPlain plain
    · omega
  rw [decode_cons going, silent, List.nil_append, Decoder.feed, if_neg notPlain, if_neg (by omega)]

theorem decode_text {text : List UInt8} (chunked : d.chunked = true) (open_ : d.done = false) (line : d.chunkRemaining = -1)
    (plain : ∀ c ∈ text, c ≠ 13 ∧ c ≠ 10) (short : (d.szline ++ text).length ≤ szlineMax) (ys : List UInt8) :
    decode d (text ++ ys) = decode (d.gathered text) ys := by
  induction text generalizing d with
  | nil => rw [Decoder.gathered, List.append_nil, List.nil_append]
  | cons c text ih =>
    have room : d.szline.length < szlineMax := by
      simp only [List.length_append, List.length_cons] at short
      omega
    obtain ⟨notReturn, notNewline⟩ := plain c (List.mem_cons_self ..)
    have one : d.lineByte c = d.gathered [c] := by
      rw [Decoder.lineByte, if_neg (by rw [line]; decide), if_neg notNewline, if_pos ⟨notReturn, room⟩, Decoder.gathered]
    have both : (d.gathered [c]).gathered text = d.gathered (c :: text) := by
      simp only [Decoder.gathered, List.append_assoc, List.singleton_append]
    have rest := ih (d := d.gathered [c]) chunked open_ line (fun x member => plain x (List.mem_cons_of_mem _ member)) (by
      simp only [Decoder.gathered, List.length_append, List.length_cons, List.length_nil] at short ⊢
      omega)
    rw [List.cons_append, decode_lineByte chunked open_ (by omega), one, rest, both]

theorem decode_sizeLine (chunked : d.chunked = true) (l : SizeLine) (ys : List UInt8) :
    decode d.atLine (l.bytes ++ ys) = decode (if l.size = 0 then d.atEnd else d.inData l.size) ys := by
  have before : (d.atLine.gathered l.text).chunkRemaining ≤ 0 := (by decide : (-1 : Int) ≤ 0)
  have back : (d.atLine.gathered l.text).lineByte 13 = d.atLine.gathered l.text := rfl
  have newline : (d.atLine.gathered l.text).lineByte 10 = if l.size = 0 then d.atEnd else d.inData l.size := by
    have value := l.strtol_text
    by_cases zero : l.size = 0
    · rw [if_pos zero]
      rw [zero] at value
      simp [Decoder.lineByte, Decoder.gathered, Decoder.atLine, Decoder.atEnd, value]
    · rw [if_neg zero]
      simp [Decoder.lineByte, Decoder.gathered, Decoder.atLine, Decoder.inData, value, zero]
  calc decode d.atLine (l.bytes ++ ys) = decode d.atLine (l.text ++ (13 :: 10 :: ys)) := by
        rw [SizeLine.bytes, List.append_assoc]
        rfl
    _ = decode (d.atLine.gathered l.text) (13 :: 10 :: ys) := decode_text (d := d.atLine) chunked rfl rfl (fun _ => l.text_line) l.short _
    _ = decode (d.atLine.gathered l.text) (10 :: ys) := by rw [decode_lineByte (d := d.atLine.gathered l.text) chunked rfl before, back]
    _ = _ := by rw [decode_lineByte (d := d.atLine.gathered l.text) chunked rfl before, newline]

theorem decode_chunk (chunked : d.chunked = true) (c : Chunk) (ys : List UInt8) :
    decode d.atLine (c.bytes ++ ys) = ⟨(decode d.atLine ys).state, c.data ++ (decode d.atLine ys).out, (decode d.atLine ys).rest⟩ := by
  have positive : 0 < c.data.length := List.length_pos_iff.mpr c.some_
  have sized : c.line.size ≠ 0 := by
    rw [c.announced]
    omega
  have behind : (d.inData (-2)).chunkRemaining ≤ 0 := (by decide : (-2 : Int) ≤ 0)
  have closing : decode (d.inData (-2)) (13 :: 10 :: ys) = decode d.atLine ys := by
    rw [decode_lineByte (d := d.inData (-2)) chunked rfl behind]
    exact decode_lineByte (d := d.inData (-2)) chunked rfl behind 10 ys
  have full : (d.inData c.data.length).inChunk c.data.length = d.inData (-2) := by
    simp [Decoder.inChunk, Decoder.inData]
  have data := decode_inChunk (d := d.inData c.data.length) c.data chunked rfl c.some_ (Int.le_refl _) (13 :: 10 :: ys)
  rw [full, closing] at data
  rw [Chunk.bytes, List.append_assoc, decode_sizeLine chunked, if_neg sized, c.announced, List.append_assoc]
  exact data

theorem decode_chunked (chunked : d.chunked = true) (body : ChunkedBody) (tail : List UInt8) :
    decode d.atLine (body.bytes ++ tail) = ⟨d.atEnd, body.data, tail⟩ := by
  have complete : d.atEnd.isOver = true := over_chunked (d := d.atEnd) chunked
  have last : decode d.atLine (body.last.bytes ++ tail) = ⟨d.atEnd, [], tail⟩ := by
    rw [decode_sizeLine chunked, if_pos body.zero]
    exact feedUntil_over complete tail
  rw [ChunkedBody.bytes, ChunkedBody.data]
  induction body.chunks with
  | nil => exact last
  | cons c chunks ih => rw [List.flatMap_cons, List.flatMap_cons, List.append_assoc, List.append_assoc, decode_chunk chunked, ← List.append_assoc, ih]

theorem decode_plain {data : List UInt8} (plain : d.chunked = false) (open_ : d.done = false) (some_ : data ≠ [])
    (framed : 0 ≤ d.contentLength) (length : d.contentLength = d.bodyReceived + data.length) (tail : List UInt8) :
    decode d (data ++ tail) = ⟨d.advance data.length, data, tail⟩ ∧ (d.advance data.length).isOver = true := by
  have positive : 0 < data.length := List.length_pos_iff.mpr some_
  have going : d.isOver = false := by
    apply Bool.eq_false_iff.mpr
    rw [ne_eq, over_plain plain open_]
    omega
  have reached : (d.advance data.length).isOver = true := by
    rw [advance_over plain]
    exact decide_eq_true ⟨framed, by omega⟩
  have fed : decode (d.advance data.length) tail = ⟨d.advance data.length, [], tail⟩ := feedUntil_over reached tail
  refine ⟨?_, reached⟩
  rw [decode_advance data plain going some_ (fun _ => by omega), fed, List.append_nil]

inductive Framed (fr : Framing) : List UInt8 → List UInt8 → Prop where
  | chunked (body : ChunkedBody) : fr.chunked = true → Framed fr body.data body.bytes
  | plain (data : List UInt8) : fr.chunked = false → data ≠ [] → fr.contentLength = data.length → Framed fr data data

theorem framed_decoded {fr : Framing} {data bytes : List UInt8} (framed : Framed fr data bytes) (tail : List UInt8) :
    ∃ s, decode fr.decoder (bytes ++ tail) = ⟨s, data, tail⟩ ∧ s.isOver = true := by
  cases framed with
  | chunked body chunked => exact ⟨_, decode_chunked (d := fr.decoder) chunked body tail, over_chunked (d := fr.decoder.atEnd) chunked⟩
  | plain _ plain some_ length =>
    have same : fr.decoder.contentLength = data.length := length
    have announced : fr.decoder.contentLength = fr.decoder.bodyReceived + data.length := by
      rw [same]
      exact (Int.zero_add _).symm
    exact ⟨_, decode_plain (d := fr.decoder) plain rfl some_ (by omega) announced tail⟩

theorem framed_open {fr : Framing} {data bytes : List UInt8} (framed : Framed fr data bytes) : fr.decoder.isOver = false := by
  cases framed with
  | chunked body chunked => exact over_chunked (d := fr.decoder) chunked
  | plain _ plain some_ length =>
    have positive : 0 < data.length := List.length_pos_iff.mpr some_
    apply Bool.eq_false_iff.mpr
    rw [ne_eq, over_plain (d := fr.decoder) plain rfl]
    rintro ⟨_, reached⟩
    have short : fr.contentLength ≤ 0 := reached
    omega

end RexOs.NetSurf
