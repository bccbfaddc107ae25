import RexOs.Desktop.PageBlocks

/-! Text blocks from HTML (`parse_html` of `user/desktop/app_browser.c`).

The page is given by what a read at an offset returns, and ends at `len`. All buffers have the
sizes of their arrays, and an access outside of one is a fault.
-/

set_option autoImplicit false

namespace RexOs.Desktop.Browser

open RexOs.Library
open RexOs.User.Iconv (ascii)

/-- What `parse_html` works with. -/
structure Page where
  table : BlockTable
  title : List UInt8
  buf : List UInt8
  bi : Nat
  currentKind : Int
  inScript : Bool
  inStyle : Bool
  inTitle : Bool
  preDepth : Nat
  deriving DecidableEq, Repr

structure Tag where
  closing : Bool
  start : Nat
  length : Nat
  deriving DecidableEq, Repr

/-- `while (j < len && …) j++`, up to one of the characters that end it. -/
def skipUntil (ends : UInt8 → Bool) (html : Reader) (len : Nat) : Nat → Nat → Except Fault Nat
  | 0, _ => .error .hang
  | fuel + 1, j =>
      if j < len then do
        let c ← html j
        if ends c then .ok j else skipUntil ends html len fuel (j + 1)
      else .ok j

/-- `html[j] == '>'` -/
def endsTag (c : UInt8) : Bool := c = 62

/-- One of `>`, space, tab and LF. -/
def endsName (c : UInt8) : Bool := c = 62 ∨ c = 32 ∨ c = 9 ∨ c = 10

/-- `j < len && html[j] == '/'` -/
def isClosing (html : Reader) (len j : Nat) : Except Fault Bool :=
  if j < len then do
    let c ← html j
    .ok (c = 47)
  else .ok false

/-- The tag at `i`, and where the text goes on. -/
def parseTag (html : Reader) (len i : Nat) : Except Fault (Tag × Nat) := do
  let closing ← isClosing html len (i + 1)
  let start := if closing then i + 2 else i + 1
  let stop ← skipUntil endsName html len (len + 1) start
  let tagEnd ← skipUntil endsTag html len (len + 1) stop
  .ok (⟨closing, start, stop - start⟩, if tagEnd < len then tagEnd + 1 else tagEnd)

inductive Action where
  | script (inside : Bool)
  | style (inside : Bool)
  | title (inside : Bool)
  | heading
  | kind (kind : Int)
  | lineBreak
  | ruler
  | pre
  | endPre
  deriving DecidableEq, Repr

/-- A branch of the dispatch: with or without a slash, unless it does not matter, and one of the names. -/
structure TagRule where
  closing : Option Bool
  length : Nat
  names : List (List UInt8)
  action : Action
  deriving DecidableEq, Repr

def headings : List (List UInt8) := [ascii "h1", ascii "h2", ascii "h3"]

def tagRules : List TagRule := [
  ⟨some false, 6, [ascii "script"], .script true⟩,
  ⟨some true, 6, [ascii "script"], .script false⟩,
  ⟨some false, 5, [ascii "style"], .style true⟩,
  ⟨some true, 5, [ascii "style"], .style false⟩,
  ⟨some false, 5, [ascii "title"], .title true⟩,
  ⟨some true, 5, [ascii "title"], .title false⟩,
  ⟨some false, 2, headings, .heading⟩,
  ⟨some true, 2, headings, .kind 0⟩,
  ⟨some false, 2, [ascii "li"], .kind 4⟩,
  ⟨some true, 2, [ascii "li"], .kind 0⟩,
  ⟨none, 2, [ascii "br"], .lineBreak⟩,
  ⟨none, 2, [ascii "hr"], .ruler⟩,
  ⟨some false, 3, [ascii "pre"], .pre⟩,
  ⟨some true, 3, [ascii "pre"], .endPre⟩]

/-- `ci_eq(tag, name, …) || …` -/
def ciEqAny (html : Reader) (start : Nat) : List (List UInt8) → Except Fault Bool
  | [] => .ok false
  | name :: names => do
      let same ← ciEq html start name
      if same then .ok true else ciEqAny html start names

def TagRule.applies (rule : TagRule) (tag : Tag) : Prop :=
  (rule.closing = none ∨ rule.closing = some tag.closing) ∧ tag.length = rule.length

instance (rule : TagRule) (tag : Tag) : Decidable (rule.applies tag) := inferInstanceAs (Decidable (_ ∧ _))

def matchTag (html : Reader) (tag : Tag) : List TagRule → Except Fault (Option Action)
  | [] => .ok none
  | rule :: rules =>
      if rule.applies tag then do
        let same ← ciEqAny html tag.start rule.names
        if same then .ok (some rule.action) else matchTag html tag rules
      else matchTag html tag rules

def endsParagraph (html : Reader) (tag : Tag) : Except Fault (Option Action) :=
  if tag.closing ∧ tag.length = 1 then do
    let c ← html tag.start
    .ok (if c = 112 ∨ c = 80 then some (.kind 0) else none)
  else .ok none

def tagAction (html : Reader) (tag : Tag) : Except Fault (Option Action) :=
  if 0 < tag.length then do
    let action ← matchTag html tag tagRules
    match action with
    | some action => .ok (some action)
    | none => endsParagraph html tag
  else .ok none

/-- `buf[bi] = 0; clean_text(buf); if (buf[0]) blocks_push(current_kind, buf);` -/
def pushText (page : Page) : Except Fault Page := do
  let buf ← writeByte .write page.buf page.bi 0
  let buf ← cleanText buf
  let c ← readByte .read buf 0
  if c ≠ 0 then do
    let table ← blocksPush page.table page.currentKind buf
    .ok { page with buf := buf, table := table }
  else .ok { page with buf := buf }

/-- The string `""`. -/
def emptyText : List UInt8 := [0]

def pushEmpty (page : Page) (kind : Int) : Except Fault Page := do
  let table ← blocksPush page.table kind emptyText
  .ok { page with table := table }

def applyAction (html : Reader) (tag : Tag) (page : Page) : Action → Except Fault Page
  | .script inside => .ok { page with inScript := inside }
  | .style inside => .ok { page with inStyle := inside }
  | .title inside => .ok { page with inTitle := inside }
  | .heading => do
      let c ← html (tag.start + 1)
      .ok { page with currentKind := (c.toNat : Int) - 48 }
  | .kind kind => .ok { page with currentKind := kind }
  | .lineBreak => do
      if 0 < page.bi then do
        let page ← pushText page
        pushEmpty { page with bi := 0 } 0
      else pushEmpty page 0
  | .ruler => pushEmpty page 5
  | .pre => .ok { page with preDepth := page.preDepth + 1, currentKind := 6 }
  | .endPre => .ok { page with preDepth := page.preDepth - 1, currentKind := 0 }

def flushText (page : Page) : Except Fault Page := do
  if 0 < page.bi ∧ ¬ page.inScript ∧ ¬ page.inStyle ∧ ¬ page.inTitle then do
    let page ← pushText page
    .ok { page with bi := 0 }
  else .ok { page with bi := 0 }

/-- `c == '<'` -/
def tagStep (html : Reader) (len : Nat) (page : Page) (i : Nat) : Except Fault (Page × Nat) := do
  let page ← flushText page
  let (tag, j) ← parseTag html len i
  let action ← tagAction html tag
  match action with
  | some action => do
      let page ← applyAction html tag page action
      .ok (page, j)
  | none => .ok (page, j)

/-- `while (title_out[tl]) tl++` -/
def textEnd (t : List UInt8) : Nat → Nat → Except Fault Nat
  | 0, _ => .error .hang
  | fuel + 1, tl => do
      let c ← readByte .read t tl
      if c ≠ 0 then textEnd t fuel (tl + 1) else .ok tl

/-- `for (int k = 0; k < el && pos < limit; k++) out[pos++] = eb[k];` -/
def putBytes (limit : Nat) : List UInt8 → List UInt8 → Nat → Except Fault (List UInt8 × Nat)
  | [], out, pos => .ok (out, pos)
  | c :: eb, out, pos =>
      if pos < limit then do
        let out ← writeByte .write out pos c
        putBytes limit eb out (pos + 1)
      else .ok (out, pos)

def putEntity (titleMax : Nat) (page : Page) (eb : List UInt8) : Except Fault Page :=
  if page.inTitle then do
    let tl ← textEnd page.title (page.title.length + 1) 0
    let (title, tl) ← putBytes (titleMax - 1) eb page.title tl
    let title ← writeByte .write title tl 0
    .ok { page with title := title }
  else if ¬ page.inScript ∧ ¬ page.inStyle then do
    let (buf, bi) ← putBytes (blockTextMax - 1) eb page.buf page.bi
    .ok { page with buf := buf, bi := bi }
  else .ok page

def putChar (titleMax : Nat) (page : Page) (c : UInt8) : Except Fault Page :=
  if page.inTitle then do
    let tl ← textEnd page.title (page.title.length + 1) 0
    if tl < titleMax - 1 then do
      let title ← writeByte .write page.title tl c
      let title ← writeByte .write title (tl + 1) 0
      .ok { page with title := title }
    else .ok page
  else if ¬ page.inScript ∧ ¬ page.inStyle then
    if page.bi < blockTextMax - 1 then do
      let buf ← writeByte .write page.buf page.bi c
      .ok { page with buf := buf, bi := page.bi + 1 }
    else .ok page
  else .ok page

/-- `char eb[4]` -/
def entityMax : Nat := 4

/-- `decode_entity(html + i, len - i, eb, &el)`, where `eb` must have room for the bytes. -/
def entityAt (html : Reader) (len i : Nat) : Except Fault (Nat × List UInt8) := do
  let (n, eb) ← decodeEntity (fun k => html (i + k)) ((len : Int) - i)
  if eb.length ≤ entityMax then .ok (n, eb) else .error .write

/-- `n` is not positive unless `c == '&'`. -/
def nextEntity (html : Reader) (len i : Nat) (c : UInt8) : Except Fault (Nat × List UInt8) :=
  if c = 38 then entityAt html len i else .ok (0, [])

def textStep (html : Reader) (len titleMax : Nat) (page : Page) (i : Nat) (c : UInt8) : Except Fault (Page × Nat) := do
  let (n, eb) ← nextEntity html len i c
  if 0 < n then do
    let page ← putEntity titleMax page eb
    .ok (page, i + n)
  else do
    let page ← putChar titleMax page c
    .ok (page, i + 1)

def pageStep (html : Reader) (len titleMax : Nat) (page : Page) (i : Nat) : Except Fault (Page × Nat) := do
  let c ← html i
  if c = 60 then tagStep html len page i else textStep html len titleMax page i c

/-- `while (i < len)` -/
def parseLoop (html : Reader) (len titleMax : Nat) : Nat → Page → Nat → Except Fault Page
  | 0, _, _ => .error .hang
  | fuel + 1, page, i =>
      if i < len then do
        let (page, i) ← pageStep html len titleMax page i
        parseLoop html len titleMax fuel page i
      else .ok page

/-- `html` and `len`, where a NUL is behind the text. -/
def pageReader (html : List UInt8) : Reader := readByte .read (html ++ [0])

/-- `title`, `buf` and the table are what is in the buffers before. -/
def parseHtml (html title : List UInt8) (titleMax : Nat) (buf : List UInt8) (table : BlockTable) : Except Fault Page := do
  let title ← writeByte .write title 0 0
  let page : Page := ⟨blocksReset table, title, buf, 0, 0, false, false, false, 0⟩
  let page ← parseLoop (pageReader html) html.length titleMax (html.length + 1) page 0
  if 0 < page.bi then do
    let page ← pushText page
    let title ← cleanText page.title
    .ok { page with title := title }
  else do
    let title ← cleanText page.title
    .ok { page with title := title }

end RexOs.Desktop.Browser
