import Mathlib.Logic.Function.Basic
import Mathlib.Logic.Function.Iterate

/-! The text console (`kernel/drivers/console/console.c`) on the framebuffer (`kernel/drivers/framebuffer/fb.c`).

A pixel is given by its column and its row. No number is larger than the framebuffer, so none
wraps around. `Page` is a page without an end, of which the screen shows the lines from `top` on.
-/

set_option autoImplicit false

namespace RexOs.Drivers.Text

def fontW : Nat := 8
def fontH : Nat := 16
def tabWidth : Nat := 4

structure Framebuffer where
  width : Nat
  height : Nat
  pixel : Nat → Nat → UInt32

def Framebuffer.set (fb : Framebuffer) (x y : Nat) (color : UInt32) : Framebuffer :=
  { fb with pixel := fun a b => if a = x ∧ b = y then color else fb.pixel a b }

/-- `body` for the numbers below `n`. -/
def forTo (body : Nat → Framebuffer → Framebuffer) : Nat → Framebuffer → Framebuffer
  | 0, fb => fb
  | n + 1, fb => body n (forTo body n fb)

def paintRect (color : Nat → Nat → UInt32) (x y w h : Nat) (fb : Framebuffer) : Framebuffer :=
  forTo (fun dy => forTo (fun dx fb => fb.set (x + dx) (y + dy) (color dx dy)) w) h fb

def fbClear (fb : Framebuffer) (color : UInt32) : Framebuffer := paintRect (fun _ _ => color) 0 0 fb.width fb.height fb

def fbFillRect (fb : Framebuffer) (x y w h : Nat) (color : UInt32) : Framebuffer :=
  let xEnd := if x + w > fb.width then fb.width else x + w
  let yEnd := if y + h > fb.height then fb.height else y + h
  paintRect (fun _ _ => color) x y (xEnd - x) (yEnd - y) fb

/-- A pixel of a character; `font` gives the bits of a row of its glyph, of which bit 7 is the leftmost pixel. -/
def dot (font : UInt8 → Nat → UInt8) (ch : UInt8) (fg bg : UInt32) (dx dy : Nat) : UInt32 :=
  if (font ch dy).toNat &&& (0x80 >>> dx) ≠ 0 then fg else bg

def fbPutChar (font : UInt8 → Nat → UInt8) (fb : Framebuffer) (x y : Nat) (ch : UInt8) (fg bg : UInt32) : Framebuffer :=
  if x + fontW > fb.width ∨ y + fontH > fb.height then fb else paintRect (dot font ch fg bg) x y fontW fontH fb

def copyRow (dst src : Nat) (fb : Framebuffer) : Framebuffer := forTo (fun x fb => fb.set x dst (fb.pixel x src)) fb.width fb

def fbBlitRows (fb : Framebuffer) (dstY srcY rows : Nat) : Framebuffer :=
  if srcY = dstY ∨ rows = 0 then fb
  else if dstY < srcY then forTo (fun i => copyRow (dstY + i) (srcY + i)) rows fb
  else forTo (fun i => copyRow (dstY + (rows - i) - 1) (srcY + (rows - i) - 1)) rows fb

structure Console where
  ready : Bool
  cols : Nat
  rows : Nat
  curX : Nat
  curY : Nat
  fg : UInt32
  bg : UInt32
  fb : Framebuffer

def consoleInit (c : Console) : Console :=
  if c.fb.width = 0 ∨ c.fb.height = 0 then c
  else { c with cols := c.fb.width / fontW, rows := c.fb.height / fontH, curX := 0, curY := 0, fb := fbClear c.fb c.bg, ready := true }

def bootConsole (fb : Framebuffer) : Console := ⟨false, 0, 0, 0, 0, 0x00E0E0E0, 0x00101820, fb⟩

def scrollUp (c : Console) : Console :=
  let fb := fbBlitRows c.fb 0 fontH ((c.rows - 1) * fontH)
  { c with fb := fbFillRect fb 0 ((c.rows - 1) * fontH) (c.cols * fontW) fontH c.bg }

def newline (c : Console) : Console :=
  if c.curY + 1 ≥ c.rows then scrollUp { c with curX := 0 } else { c with curX := 0, curY := c.curY + 1 }

def drawAt (font : UInt8 → Nat → UInt8) (c : Console) (ch : UInt8) : Console :=
  { c with fb := fbPutChar font c.fb (c.curX * fontW) (c.curY * fontH) ch c.fg c.bg }

/-- The end of `console_putc`: a character is drawn, and the cursor moves on. -/
def putVisible (font : UInt8 → Nat → UInt8) (c : Console) (ch : UInt8) : Console :=
  let c := drawAt font c ch
  let c := { c with curX := c.curX + 1 }
  if c.curX ≥ c.cols then newline c else c

def backspace (c : Console) : Console :=
  if c.curX > 0 then { c with curX := c.curX - 1 }
  else if c.curY > 0 then { c with curY := c.curY - 1, curX := c.cols - 1 }
  else c

def consolePutc (font : UInt8 → Nat → UInt8) (c : Console) (ch : UInt8) : Console :=
  if !c.ready then c
  else if ch = 10 then newline c
  else if ch = 13 then { c with curX := 0 }
  else if ch = 8 then drawAt font (backspace c) 32
  else if ch = 9 then (fun c => putVisible font c 32)^[tabWidth - c.curX % tabWidth] c
  else if ch < 32 then c
  else putVisible font c ch

def consoleClear (c : Console) : Console :=
  if !c.ready then c else { c with fb := fbClear c.fb c.bg, curX := 0, curY := 0 }

def consoleSetColors (c : Console) (fg bg : UInt32) : Console := { c with fg := fg, bg := bg }

inductive Call where
  | putc (ch : UInt8)
  | clear
  | setColors (fg bg : UInt32)

def Call.apply (font : UInt8 → Nat → UInt8) (c : Console) : Call → Console
  | .putc ch => consolePutc font c ch
  | .clear => consoleClear c
  | .setColors fg bg => consoleSetColors c fg bg

structure Cell where
  ch : UInt8
  fg : UInt32
  bg : UInt32

def Cell.dot (font : UInt8 → Nat → UInt8) (cell : Cell) (dx dy : Nat) : UInt32 := Text.dot font cell.ch cell.fg cell.bg dx dy

structure Page where
  cell : Nat → Nat → Cell
  top : Nat
  line : Nat
  col : Nat
  fg : UInt32
  bg : UInt32

namespace Page

variable (cols rows : Nat) (p : Page)

def blank : Cell := ⟨32, p.fg, p.bg⟩

def write (ch : UInt8) : Page :=
  { p with cell := fun l c => if l = p.line ∧ c = p.col then ⟨ch, p.fg, p.bg⟩ else p.cell l c }

/-- Below the last line that is shown, a new line comes into view. -/
def newline : Page :=
  if p.line + 1 ≥ p.top + rows then
    { p with cell := fun l c => if l = p.top + rows then p.blank else p.cell l c, top := p.top + 1, line := p.line + 1, col := 0 }
  else { p with line := p.line + 1, col := 0 }

def type (ch : UInt8) : Page :=
  let p := { p.write ch with col := p.col + 1 }
  if p.col ≥ cols then p.newline rows else p

def back : Page :=
  if p.col > 0 then { p with col := p.col - 1 }
  else if p.line > p.top then { p with line := p.line - 1, col := cols - 1 }
  else p

def put (ch : UInt8) : Page :=
  if ch = 10 then p.newline rows
  else if ch = 13 then { p with col := 0 }
  else if ch = 8 then (p.back cols).write 32
  else if ch = 9 then (fun p => p.type cols rows 32)^[tabWidth - p.col % tabWidth] p
  else if ch < 32 then p
  else p.type cols rows ch

def cleared : Page := { p with cell := fun _ _ => p.blank, top := 0, line := 0, col := 0 }

def call : Call → Page
  | .putc ch => p.put cols rows ch
  | .clear => p.cleared
  | .setColors fg bg => { p with fg := fg, bg := bg }

def start : Page := cleared ⟨fun _ _ => ⟨0, 0, 0⟩, 0, 0, 0, 0x00E0E0E0, 0x00101820⟩

end Page

/-- The screen shows the lines of the page from `top` on, and the cursor is on the screen. -/
structure Shows (font : UInt8 → Nat → UInt8) (fb₀ : Framebuffer) (c : Console) (p : Page) : Prop where
  ready : c.ready = true
  size : c.fb.width = fb₀.width ∧ c.fb.height = fb₀.height
  grid : c.cols = fb₀.width / fontW ∧ c.rows = fb₀.height / fontH
  colors : c.fg = p.fg ∧ c.bg = p.bg
  cursor : p.col = c.curX ∧ p.line = p.top + c.curY
  inside : c.curX < c.cols ∧ c.curY < c.rows
  cells : ∀ r < c.rows, ∀ col < c.cols, ∀ dx < fontW, ∀ dy < fontH,
    c.fb.pixel (col * fontW + dx) (r * fontH + dy) = (p.cell (p.top + r) col).dot font dx dy
  outside : ∀ a b, ¬ (a < fb₀.width ∧ b < fb₀.height) → c.fb.pixel a b = fb₀.pixel a b

section
variable {fb : Framebuffer} {color : Nat → Nat → UInt32} {x y w h n a b dst src : Nat}

theorem forTo_size {body : Nat → Framebuffer → Framebuffer}
    (same : ∀ i fb, (body i fb).width = fb.width ∧ (body i fb).height = fb.height) (n : Nat) (fb : Framebuffer) :
    (forTo body n fb).width = fb.width ∧ (forTo body n fb).height = fb.height := by
  induction n with
  | zero => exact ⟨rfl, rfl⟩
  | succ n ih => exact ⟨(same n _).1.trans ih.1, (same n _).2.trans ih.2⟩

theorem paintRow_pixel (color : Nat → UInt32) (fb : Framebuffer) :
    (forTo (fun dx fb => fb.set (x + dx) y (color dx)) n fb).pixel a b =
      if x ≤ a ∧ a < x + n ∧ b = y then color (a - x) else fb.pixel a b := by
  induction n with
  | zero => rw [if_neg (by omega)]; rfl
  | succ n ih =>
    show (if a = x + n ∧ b = y then color n else _) = _
    rw [ih]
    by_cases last : a = x + n ∧ b = y
    · rw [if_pos last, if_pos (by omega), last.1, Nat.add_sub_cancel_left]
    · rw [if_neg last]
      exact if_congr (by omega) rfl rfl

theorem paintRect_pixel (fb : Framebuffer) : (paintRect color x y w h fb).pixel a b =
    if (x ≤ a ∧ a < x + w) ∧ y ≤ b ∧ b < y + h then color (a - x) (b - y) else fb.pixel a b := by
  unfold paintRect
  induction h with
  | zero => rw [if_neg (by omega)]; rfl
  | succ h ih =>
    rw [forTo, paintRow_pixel, ih]
    by_cases last : x ≤ a ∧ a < x + w ∧ b = y + h
    · rw [if_pos last, if_pos (by omega), last.2.2, Nat.add_sub_cancel_left]
    · rw [if_neg last]
      exact if_congr (by omega) rfl rfl

theorem paintRect_size (fb : Framebuffer) :
    (paintRect color x y w h fb).width = fb.width ∧ (paintRect color x y w h fb).height = fb.height := by
  apply forTo_size
  intro _ _
  apply forTo_size
  exact fun _ _ => ⟨rfl, rfl⟩

theorem copyRow_pixel (apart : src ≠ dst) (fb : Framebuffer) :
    (copyRow dst src fb).pixel a b = if a < fb.width ∧ b = dst then fb.pixel a src else fb.pixel a b := by
  unfold copyRow
  generalize fb.width = n
  induction n generalizing a b with
  | zero => exact (if_neg fun both => absurd both.1 (Nat.not_lt_zero a)).symm
  | succ n ih =>
    show (if a = n ∧ b = dst then (forTo (fun x fb => fb.set x dst (fb.pixel x src)) n fb).pixel n src
      else (forTo (fun x fb => fb.set x dst (fb.pixel x src)) n fb).pixel a b) = _
    rw [ih, ih, if_neg (show ¬ (n < n ∧ src = dst) from fun both => apart both.2)]
    by_cases last : a = n ∧ b = dst
    · rw [if_pos last, if_pos ⟨by omega, last.2⟩, last.1]
    · rw [if_neg last]
      exact if_congr (by omega) rfl rfl

theorem copyRow_size (fb : Framebuffer) : (copyRow dst src fb).width = fb.width ∧ (copyRow dst src fb).height = fb.height := by
  apply forTo_size
  exact fun _ _ => ⟨rfl, rfl⟩

theorem fbBlitRows_size (fb : Framebuffer) :
    (fbBlitRows fb dst src n).width = fb.width ∧ (fbBlitRows fb dst src n).height = fb.height := by
  unfold fbBlitRows
  split
  · exact ⟨rfl, rfl⟩
  · split <;> exact forTo_size (fun _ fb => copyRow_size fb) _ fb

theorem fbBlitRows_up (up : dst < src) (fb : Framebuffer) : (fbBlitRows fb dst src n).pixel a b =
    if a < fb.width ∧ dst ≤ b ∧ b < dst + n then fb.pixel a (b - dst + src) else fb.pixel a b := by
  unfold fbBlitRows
  by_cases none_ : n = 0
  · rw [if_pos (Or.inr none_), if_neg (by omega)]
  rw [if_neg (by omega), if_pos up]
  clear none_
  induction n generalizing a b with
  | zero => exact (if_neg (by omega)).symm
  | succ n ih =>
    rw [forTo, copyRow_pixel (by omega), (forTo_size (fun _ fb => copyRow_size fb) n fb).1, ih, ih]
    by_cases last : a < fb.width ∧ b = dst + n
    · rw [if_pos last, if_neg (by omega), if_pos (by omega)]
      congr 1
      omega
    · rw [if_neg last]
      exact if_congr (by omega) rfl rfl

end

section
variable {font : UInt8 → Nat → UInt8} {fb₀ : Framebuffer} {c : Console} {p : Page} {x y : Nat}

theorem dot_blank (blank : ∀ dy, font 32 dy = 0) (fg bg : UInt32) (dx dy : Nat) : dot font 32 fg bg dx dy = bg := by
  simp [dot, blank]

theorem Shows.draw (shows_ : Shows font fb₀ c p) (ch : UInt8) : Shows font fb₀ (drawAt font c ch) (p.write ch) := by
  obtain ⟨ready, size, grid, colors, cursor, inside, cells, outside⟩ := shows_
  have fits : c.curX * fontW + fontW ≤ c.fb.width ∧ c.curY * fontH + fontH ≤ c.fb.height := by
    have := grid
    simp only [fontW, fontH] at *
    omega
  have drawn : drawAt font c ch = { c with fb := paintRect (dot font ch c.fg c.bg) (c.curX * fontW) (c.curY * fontH) fontW fontH c.fb } := by
    unfold drawAt fbPutChar
    rw [if_neg (by omega)]
  rw [drawn]
  refine ⟨ready, ⟨(paintRect_size _).1.trans size.1, (paintRect_size _).2.trans size.2⟩, grid, colors, cursor, inside, ?_, ?_⟩
  · intro r small col small' dx near dy near'
    have place : ((c.curX * fontW ≤ col * fontW + dx ∧ col * fontW + dx < c.curX * fontW + fontW) ∧
        c.curY * fontH ≤ r * fontH + dy ∧ r * fontH + dy < c.curY * fontH + fontH) ↔ r = c.curY ∧ col = c.curX := by
      simp only [fontW, fontH] at near near' ⊢
      omega
    rw [paintRect_pixel, if_congr place rfl rfl]
    show _ = (if p.top + r = p.line ∧ col = p.col then ⟨ch, p.fg, p.bg⟩ else p.cell (p.top + r) col : Cell).dot font dx dy
    simp only [cursor.1, cursor.2, Nat.add_left_cancel_iff]
    by_cases here : r = c.curY ∧ col = c.curX
    · rw [if_pos here, if_pos here, here.1, here.2, Nat.add_sub_cancel_left, Nat.add_sub_cancel_left, colors.1, colors.2]
      rfl
    · rw [if_neg here, if_neg here]
      exact cells r small col small' dx near dy near'
  · intro a b out
    rw [paintRect_pixel, if_neg, outside a b out]
    omega

/-- What scrolling up does to the pixels: the rows above the last line move, and the last line is cleared. -/
theorem scrollUp_pixel (fits : c.cols * fontW ≤ c.fb.width ∧ c.rows * fontH ≤ c.fb.height) (some : 0 < c.rows) :
    (scrollUp c).fb.pixel x y =
      if x < c.cols * fontW ∧ (c.rows - 1) * fontH ≤ y ∧ y < c.rows * fontH then c.bg
      else if x < c.fb.width ∧ y < (c.rows - 1) * fontH then c.fb.pixel x (y + fontH) else c.fb.pixel x y := by
  have size := @fbBlitRows_size ((c.rows - 1) * fontH) 0 fontH c.fb
  have last : (c.rows - 1) * fontH + fontH = c.rows * fontH := by simp only [fontH]; omega
  unfold scrollUp fbFillRect
  simp only [size.1, size.2, Nat.zero_add, last]
  rw [if_neg (Nat.not_lt.2 fits.1), if_neg (Nat.not_lt.2 fits.2), paintRect_pixel, fbBlitRows_up (by decide)]
  have stripe : ((0 ≤ x ∧ x < 0 + (c.cols * fontW - 0)) ∧ (c.rows - 1) * fontH ≤ y ∧
      y < (c.rows - 1) * fontH + (c.rows * fontH - (c.rows - 1) * fontH)) ↔
      x < c.cols * fontW ∧ (c.rows - 1) * fontH ≤ y ∧ y < c.rows * fontH := by omega
  exact if_congr stripe rfl (if_congr (by omega) rfl rfl)

theorem scrollUp_size : (scrollUp c).fb.width = c.fb.width ∧ (scrollUp c).fb.height = c.fb.height := by
  have size := @fbBlitRows_size ((c.rows - 1) * fontH) 0 fontH c.fb
  exact ⟨(paintRect_size _).1.trans size.1, (paintRect_size _).2.trans size.2⟩

theorem Shows.newline (shows_ : Shows font fb₀ c p) (blank : ∀ dy, font 32 dy = 0) :
    Shows font fb₀ (newline c) (p.newline c.rows) := by
  have ⟨ready, size, grid, colors, cursor, inside, cells, outside⟩ := shows_
  have fits : c.cols * fontW ≤ c.fb.width ∧ c.rows * fontH ≤ c.fb.height := by
    have := grid
    simp only [fontW, fontH] at *
    omega
  unfold Text.newline Page.newline
  by_cases last : c.curY + 1 ≥ c.rows
  · rw [if_pos last, if_pos (by omega)]
    have pixel (x y : Nat) : (scrollUp { c with curX := 0 }).fb.pixel x y =
        if x < c.cols * fontW ∧ (c.rows - 1) * fontH ≤ y ∧ y < c.rows * fontH then c.bg
        else if x < c.fb.width ∧ y < (c.rows - 1) * fontH then c.fb.pixel x (y + fontH) else c.fb.pixel x y :=
      scrollUp_pixel fits (Nat.lt_of_le_of_lt (Nat.zero_le _) inside.2)
    have same := scrollUp_size (c := { c with curX := 0 })
    refine ⟨ready, ⟨same.1.trans size.1, same.2.trans size.2⟩, grid, colors, ⟨rfl, ?_⟩,
      ⟨Nat.lt_of_le_of_lt (Nat.zero_le _) inside.1, inside.2⟩, ?_, ?_⟩
    · show p.line + 1 = p.top + 1 + c.curY
      omega
    · intro r (small : r < c.rows) col (small' : col < c.cols) dx near dy near'
      show (scrollUp { c with curX := 0 }).fb.pixel _ _ =
        (if p.top + 1 + r = p.top + c.rows then p.blank else p.cell (p.top + 1 + r) col).dot font dx dy
      rw [pixel]
      by_cases bottom : r = c.rows - 1
      · have stripe : col * fontW + dx < c.cols * fontW ∧ (c.rows - 1) * fontH ≤ r * fontH + dy ∧ r * fontH + dy < c.rows * fontH := by
          simp only [fontW, fontH] at near near' ⊢
          omega
        rw [if_pos stripe, if_pos (show p.top + 1 + r = p.top + c.rows by omega)]
        exact colors.2.trans (dot_blank blank _ _ _ _).symm
      · have moved : ¬ (c.rows - 1) * fontH ≤ r * fontH + dy ∧ col * fontW + dx < c.fb.width := by
          simp only [fontW, fontH] at near near' fits ⊢
          omega
        rw [if_neg (fun stripe => moved.1 stripe.2.1), if_pos ⟨moved.2, Nat.not_le.1 moved.1⟩,
          if_neg (show ¬ p.top + 1 + r = p.top + c.rows by omega)]
        have above := cells (r + 1) (by omega) col small' dx near dy near'
        rw [show r * fontH + dy + fontH = (r + 1) * fontH + dy by simp only [fontH]; omega, show p.top + 1 + r = p.top + (r + 1) by omega]
        exact above
    · intro a b out
      have none_ : ¬ (a < c.cols * fontW ∧ (c.rows - 1) * fontH ≤ b ∧ b < c.rows * fontH) ∧
          ¬ (a < c.fb.width ∧ b < (c.rows - 1) * fontH) := by
        simp only [fontW, fontH] at fits ⊢
        omega
      show (scrollUp { c with curX := 0 }).fb.pixel _ _ = _
      rw [pixel, if_neg none_.1, if_neg none_.2]
      exact outside a b out
  · rw [if_neg last, if_neg (by omega)]
    have start : 0 < c.cols := Nat.lt_of_le_of_lt (Nat.zero_le _) inside.1
    exact { shows_ with cursor := ⟨rfl, by dsimp only; omega⟩, inside := ⟨start, Nat.not_le.1 last⟩ }

theorem Shows.move (shows_ : Shows font fb₀ c p) (small : x < c.cols) : Shows font fb₀ { c with curX := x } { p with col := x } :=
  { shows_ with cursor := ⟨rfl, shows_.cursor.2⟩, inside := ⟨small, shows_.inside.2⟩ }

theorem Shows.type (shows_ : Shows font fb₀ c p) (blank : ∀ dy, font 32 dy = 0) (ch : UInt8) :
    Shows font fb₀ (putVisible font c ch) (p.type c.cols c.rows ch) := by
  have drawn := shows_.draw ch
  unfold putVisible Page.type
  by_cases full : c.curX + 1 ≥ c.cols
  · rw [if_pos (show (drawAt font c ch).curX + 1 ≥ (drawAt font c ch).cols from full),
      if_pos (show p.col + 1 ≥ c.cols by rw [shows_.cursor.1]; exact full)]
    -- The column is overwritten by the new line.
    exact drawn.newline blank
  · rw [if_neg (show ¬ (drawAt font c ch).curX + 1 ≥ (drawAt font c ch).cols from full),
      if_neg (show ¬ p.col + 1 ≥ c.cols by rw [shows_.cursor.1]; exact full)]
    rw [← shows_.cursor.1] at full
    have moved := drawn.move (x := p.col + 1) (Nat.not_le.1 full)
    rwa [show p.col + 1 = c.curX + 1 by rw [shows_.cursor.1]] at moved ⊢

theorem Shows.back (shows_ : Shows font fb₀ c p) : Shows font fb₀ (backspace c) (p.back c.cols) := by
  have cursor := shows_.cursor
  have inside := shows_.inside
  unfold backspace Page.back
  by_cases column : c.curX > 0
  · rw [if_pos column, if_pos (cursor.1 ▸ column), cursor.1]
    exact shows_.move (by omega)
  rw [if_neg column, if_neg (show ¬ p.col > 0 from cursor.1 ▸ column)]
  by_cases line : c.curY > 0
  · rw [if_pos line, if_pos (show p.line > p.top by omega)]
    exact { shows_ with cursor := ⟨rfl, by dsimp only; omega⟩, inside := ⟨by dsimp only; omega, by dsimp only; omega⟩ }
  · rwa [if_neg line, if_neg (show ¬ p.line > p.top by omega)]

theorem Shows.blank (size : c.fb.width = fb₀.width ∧ c.fb.height = fb₀.height)
    (grid : c.cols = fb₀.width / fontW ∧ c.rows = fb₀.height / fontH) (some : 0 < c.cols ∧ 0 < c.rows)
    (colors : c.fg = p.fg ∧ c.bg = p.bg) (blank : ∀ dy, font 32 dy = 0)
    (outside : ∀ a b, ¬ (a < fb₀.width ∧ b < fb₀.height) → c.fb.pixel a b = fb₀.pixel a b) :
    Shows font fb₀ { c with fb := fbClear c.fb c.bg, curX := 0, curY := 0, ready := true } p.cleared := by
  have fits : c.cols * fontW ≤ c.fb.width ∧ c.rows * fontH ≤ c.fb.height := by
    simp only [fontW, fontH] at *
    omega
  have same := @paintRect_size (fun _ _ => c.bg) 0 0 c.fb.width c.fb.height c.fb
  refine ⟨rfl, ⟨same.1.trans size.1, same.2.trans size.2⟩, grid, colors, ⟨rfl, rfl⟩, some, ?_, ?_⟩
  · intro r small col small' dx near dy near'
    have here : (0 ≤ col * fontW + dx ∧ col * fontW + dx < 0 + c.fb.width) ∧ 0 ≤ r * fontH + dy ∧ r * fontH + dy < 0 + c.fb.height := by
      change r < c.rows at small
      change col < c.cols at small'
      simp only [fontW, fontH] at near near' fits ⊢
      omega
    refine (paintRect_pixel c.fb).trans ?_
    rw [if_pos here, colors.2]
    exact (dot_blank blank _ _ _ _).symm
  · intro a b out
    refine (paintRect_pixel c.fb).trans ?_
    rw [if_neg (by omega)]
    exact outside a b out

theorem Shows.tab (shows_ : Shows font fb₀ c p) (blank : ∀ dy, font 32 dy = 0) (n : Nat) :
    Shows font fb₀ ((fun c => putVisible font c 32)^[n] c)
      ((fun p => p.type (fb₀.width / fontW) (fb₀.height / fontH) 32)^[n] p) := by
  induction n generalizing c p with
  | zero => exact shows_
  | succ n ih =>
    have typed := shows_.type blank 32
    rw [shows_.grid.1, shows_.grid.2] at typed
    exact ih typed

theorem Shows.putc (shows_ : Shows font fb₀ c p) (blank : ∀ dy, font 32 dy = 0) (ch : UInt8) :
    Shows font fb₀ (consolePutc font c ch) (p.put (fb₀.width / fontW) (fb₀.height / fontH) ch) := by
  have grid := shows_.grid
  unfold consolePutc Page.put
  rw [if_neg (show ¬ (!c.ready) = true by simp [shows_.ready]), ← grid.1, ← grid.2]
  by_cases line : ch = 10
  · simpa [line] using shows_.newline blank
  by_cases start : ch = 13
  · have inside := shows_.inside
    simpa [line, start] using shows_.move (x := 0) (by omega)
  by_cases back : ch = 8
  · simpa [line, start, back] using shows_.back.draw 32
  by_cases tab : ch = 9
  · have blanks := shows_.tab blank (tabWidth - c.curX % tabWidth)
    rw [← grid.1, ← grid.2] at blanks
    simpa [line, start, back, tab, shows_.cursor.1] using blanks
  by_cases control : ch < 32
  · simpa [line, start, back, tab, control] using shows_
  · simpa [line, start, back, tab, control] using shows_.type blank ch

theorem Shows.apply (shows_ : Shows font fb₀ c p) (blank : ∀ dy, font 32 dy = 0) (call : Call) :
    Shows font fb₀ (call.apply font c) (p.call (fb₀.width / fontW) (fb₀.height / fontH) call) := by
  cases call with
  | putc ch => exact shows_.putc blank ch
  | clear =>
    have some := shows_.inside
    have cleared := Shows.blank shows_.size shows_.grid ⟨by omega, by omega⟩ shows_.colors blank shows_.outside
    show Shows font fb₀ (consoleClear c) p.cleared
    unfold consoleClear
    rw [shows_.ready]
    exact cleared
  | setColors fg bg =>
    exact { shows_ with colors := ⟨rfl, rfl⟩ }

end

/-- What is on the screen is the page the calls typed, from the first line that is shown on, whatever the calls
were; and nothing is ever written outside the framebuffer. -/
theorem console_shows {font : UInt8 → Nat → UInt8} {fb : Framebuffer} (blank : ∀ dy, font 32 dy = 0) (wide : fontW ≤ fb.width)
    (high : fontH ≤ fb.height) (calls : List Call) :
    Shows font fb (calls.foldl (Call.apply font) (consoleInit (bootConsole fb)))
      (calls.foldl (Page.call (fb.width / fontW) (fb.height / fontH)) Page.start) := by
  have started : Shows font fb (consoleInit (bootConsole fb)) Page.start := by
    simp only [fontW, fontH] at wide high
    have grid : 0 < fb.width / fontW ∧ 0 < fb.height / fontH := ⟨Nat.div_pos wide (by decide), Nat.div_pos high (by decide)⟩
    unfold consoleInit
    rw [if_neg (show ¬ ((bootConsole fb).fb.width = 0 ∨ (bootConsole fb).fb.height = 0) from by
      change ¬ (fb.width = 0 ∨ fb.height = 0)
      omega)]
    exact Shows.blank (c := ⟨false, fb.width / fontW, fb.height / fontH, 0, 0, 0x00E0E0E0, 0x00101820, fb⟩) ⟨rfl, rfl⟩ ⟨rfl, rfl⟩
      grid ⟨rfl, rfl⟩ blank (fun _ _ _ => rfl)
  generalize consoleInit (bootConsole fb) = c at started
  generalize Page.start = p at started
  induction calls generalizing c p with
  | nil => exact started
  | cons call calls ih => exact ih _ _ (started.apply blank call)

theorem console_shows_bar : (([.putc 10, .putc 65] : List Call).foldl (Call.apply fun ch _ => if ch = 65 then 0xF0 else 0)
    (consoleInit (bootConsole ⟨16, 32, fun _ _ => 0⟩))).fb.pixel 3 16 = 0x00E0E0E0 := by
  have shown : Shows (fun ch _ => if ch = 65 then 0xF0 else 0) ⟨16, 32, fun _ _ => 0⟩ _ _ :=
    console_shows (fun _ => rfl) (by decide) (by decide) [.putc 10, .putc 65]
  have dot := shown.cells 1 (by rw [shown.grid.2]; decide) 0 (by rw [shown.grid.1]; decide) 3 (by decide) 0 (by decide)
  rw [show 0 * fontW + 3 = 3 from rfl, show 1 * fontH + 0 = 16 from rfl] at dot
  rw [dot]
  rfl

end RexOs.Drivers.Text
