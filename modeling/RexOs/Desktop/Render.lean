import RexOs.Desktop.Windows

/-! The drawing primitives of the desktop (`user/desktop/render.c`).

The back buffer is an array of elements that may be written at any index; `writes` keeps the
indices that were written. It is there: the program ends before it draws when there is no memory
for it. Sums of coordinates do not overflow.
-/

set_option autoImplicit false

namespace RexOs.Desktop

structure Clip where
  x : Int
  y : Int
  w : Int
  h : Int
  deriving DecidableEq, Repr

/-- `clip` is none while `s_clip_active` is 0. -/
structure Canvas where
  screen : Screen
  clip : Option Clip
  back : Int → UInt32
  writes : List Int

def rdSetClip (c : Canvas) (x y w h : Int) : Canvas := { c with clip := some ⟨x, y, w, h⟩ }
def rdClearClip (c : Canvas) : Canvas := { c with clip := none }

def clipXmin (c : Canvas) : Int :=
  match c.clip with
  | none => 0
  | some r => r.x

def clipYmin (c : Canvas) : Int :=
  match c.clip with
  | none => 0
  | some r => r.y

def clipXmax (c : Canvas) : Int :=
  match c.clip with
  | none => c.screen.w
  | some r => if r.x + r.w < c.screen.w then r.x + r.w else c.screen.w

def clipYmax (c : Canvas) : Int :=
  match c.clip with
  | none => c.screen.h
  | some r => if r.y + r.h < c.screen.h then r.y + r.h else c.screen.h

def channel (color : UInt32) (shift : UInt32) : UInt32 := color >>> shift &&& 0xFF

def rdLerpColor (a b : UInt32) (t : Int) : UInt32 :=
  if t ≤ 0 then a
  else if t ≥ 255 then b
  else
    let it := 255 - t
    let mix (shift : UInt32) : UInt32 :=
      UInt32.ofInt (((channel a shift).toNat * it + (channel b shift).toNat * t).tdiv 255)
    (mix 16 <<< 16) ||| (mix 8 <<< 8) ||| mix 0

/-- The new value of an element that has `d`, for an `alpha` below 255. -/
def blend (color : UInt32) (alpha : UInt8) (d : UInt32) : UInt32 :=
  let a := alpha.toUInt32
  let ia := 256 - a
  let mix (shift : UInt32) : UInt32 := (channel color shift * a + channel d shift * ia) >>> 8
  (mix 16 <<< 16) ||| (mix 8 <<< 8) ||| mix 0

/-- `g_back[i] = f(g_back[i])`. -/
def Canvas.store (c : Canvas) (f : UInt32 → UInt32) (i : Int) : Canvas :=
  { c with back := Function.update c.back i (f (c.back i)), writes := c.writes ++ [i] }

def forEach (body : Int → Canvas → Canvas) (i : Int) : Nat → Canvas → Canvas
  | 0, c => c
  | n + 1, c => forEach body (i + 1) n (body i c)

/-- The loops over the rows from `y0` to `y1` and the columns from `x0` to `x1`. -/
def paint (f : UInt32 → UInt32) (x0 y0 x1 y1 : Int) (c : Canvas) : Canvas :=
  forEach (fun yy => forEach (fun xx c => c.store f (yy * c.screen.w + xx)) x0 (x1 - x0).toNat) y0 (y1 - y0).toNat c

/-- The common part of `rd_rect` and `rd_blend_rect`. -/
def paintClipped (f : UInt32 → UInt32) (x y w h : Int) (c : Canvas) : Canvas :=
  let x0 := if x < clipXmin c then clipXmin c else x
  let y0 := if y < clipYmin c then clipYmin c else y
  let x1 := if x + w > clipXmax c then clipXmax c else x + w
  let y1 := if y + h > clipYmax c then clipYmax c else y + h
  if x1 ≤ x0 ∨ y1 ≤ y0 then c else paint f x0 y0 x1 y1 c

def rdPixel (x y : Int) (color : UInt32) (c : Canvas) : Canvas :=
  if x < clipXmin c ∨ x ≥ clipXmax c then c
  else if y < clipYmin c ∨ y ≥ clipYmax c then c
  else c.store (fun _ => color) (y * c.screen.w + x)

def rdRect (x y w h : Int) (color : UInt32) (c : Canvas) : Canvas := paintClipped (fun _ => color) x y w h c

def rdBlendRect (x y w h : Int) (color : UInt32) (alpha : UInt8) (c : Canvas) : Canvas :=
  if alpha = 0 then c
  else if alpha = 255 then paintClipped (fun _ => color) x y w h c
  else paintClipped (blend color alpha) x y w h c

def rdRectOutline (x y w h : Int) (color : UInt32) (c : Canvas) : Canvas :=
  let c := rdRect x y w 1 color c
  let c := rdRect x (y + h - 1) w 1 color c
  let c := rdRect x y 1 h color c
  rdRect (x + w - 1) y 1 h color c

def rdGradientV (x y w h : Int) (top bot : UInt32) (c : Canvas) : Canvas :=
  forEach (fun i => rdRect x (y + i) w 1 (rdLerpColor top bot ((i * 255).tdiv (if h - 1 > 0 then h - 1 else 1)))) 0 h.toNat c

def rdGradientH (x y w h : Int) (left right : UInt32) (c : Canvas) : Canvas :=
  forEach (fun i => rdRect (x + i) y 1 h (rdLerpColor left right ((i * 255).tdiv (if w - 1 > 0 then w - 1 else 1)))) 0 w.toNat c

def fitRadius (w h r : Int) : Int :=
  let r := if r > w.tdiv 2 then w.tdiv 2 else r
  if r > h.tdiv 2 then h.tdiv 2 else r

/-- Draws the point at `dx`, `dy` of a corner's disc in each corner that it belongs to. -/
def corners (x y w h r dx dy : Int) (dot : Int → Int → Canvas → Canvas) (c : Canvas) : Canvas :=
  let c := if dx ≤ 0 ∧ dy ≤ 0 then dot (x + r + dx) (y + r + dy) c else c
  let c := if dx ≥ 0 ∧ dy ≤ 0 then dot (x + w - r - 1 + dx) (y + r + dy) c else c
  let c := if dx ≤ 0 ∧ dy ≥ 0 then dot (x + r + dx) (y + h - r - 1 + dy) c else c
  if dx ≥ 0 ∧ dy ≥ 0 then dot (x + w - r - 1 + dx) (y + h - r - 1 + dy) c else c

/-- The discs in the corners of a filled shape, with `inner` and on the edge `outer`. -/
def cornerDiscs (x y w h r : Int) (inner outer : Int → Int → Canvas → Canvas) (c : Canvas) : Canvas :=
  forEach (fun dy => forEach (fun dx c =>
    let d2 := dx * dx + dy * dy
    if d2 < (r - 1) * (r - 1) then corners x y w h r dx dy inner c
    else if d2 < r * r then corners x y w h r dx dy outer c
    else c) (-r) (2 * r).toNat) (-r) (2 * r).toNat c

def rdRounded (x y w h r : Int) (color : UInt32) (c : Canvas) : Canvas :=
  if r ≤ 0 then rdRect x y w h color c
  else
    let r := fitRadius w h r
    let c := rdRect x (y + r) w (h - 2 * r) color c
    let c := rdRect (x + r) y (w - 2 * r) r color c
    let c := rdRect (x + r) (y + h - r) (w - 2 * r) r color c
    cornerDiscs x y w h r (fun px py => rdPixel px py color) (fun px py => rdBlendRect px py 1 1 color 160) c

def rdRoundedOutline (x y w h r : Int) (color : UInt32) (c : Canvas) : Canvas :=
  if r ≤ 0 then rdRectOutline x y w h color c
  else
    let r := fitRadius w h r
    let c := rdRect (x + r) y (w - 2 * r) 1 color c
    let c := rdRect (x + r) (y + h - 1) (w - 2 * r) 1 color c
    let c := rdRect x (y + r) 1 (h - 2 * r) color c
    let c := rdRect (x + w - 1) (y + r) 1 (h - 2 * r) color c
    forEach (fun dy => forEach (fun dx c =>
      let d2 := dx * dx + dy * dy
      if d2 ≥ (r - 1) * (r - 1) ∧ d2 < r * r then
        let c := rdPixel (x + r + dx) (y + r + dy) color c
        let c := rdPixel (x + w - r - 1 - dx) (y + r + dy) color c
        let c := rdPixel (x + r + dx) (y + h - r - 1 - dy) color c
        rdPixel (x + w - r - 1 - dx) (y + h - r - 1 - dy) color c
      else c) (-r) (r + 1).toNat) (-r) (r + 1).toNat c

def rdBlendRounded (x y w h r : Int) (color : UInt32) (alpha : UInt8) (c : Canvas) : Canvas :=
  if alpha = 0 then c
  else if r ≤ 0 then rdBlendRect x y w h color alpha c
  else
    let r := fitRadius w h r
    let c := rdBlendRect x (y + r) w (h - 2 * r) color alpha c
    let c := rdBlendRect (x + r) y (w - 2 * r) r color alpha c
    let c := rdBlendRect (x + r) (y + h - r) (w - 2 * r) r color alpha c
    let edge := UInt8.ofNat (alpha.toNat * 160 / 255)
    cornerDiscs x y w h r (fun px py => rdBlendRect px py 1 1 color alpha) (fun px py => rdBlendRect px py 1 1 color edge) c

/-- `for (s; s >= 1; s -= 2)`; `n` is at least the number of layers that are left. -/
def shadowLayers (x y w h r spread : Int) : Int → Nat → Canvas → Canvas
  | _, 0, c => c
  | s, n + 1, c =>
      if s ≥ 1 then
        let a := 34 - (s * 30).tdiv spread
        let a := if a < 3 then 3 else a
        let c := rdBlendRounded (x - s) (y - s + spread.tdiv 3) (w + 2 * s) (h + 2 * s) (r + s) 0x000000 (UInt8.ofInt a) c
        shadowLayers x y w h r spread (s - 2) n c
      else c

def rdShadow (x y w h r spread : Int) (c : Canvas) : Canvas :=
  if spread ≤ 0 then c else shadowLayers x y w h r spread spread spread.toNat c

def rdCircleFill (cx cy r : Int) (color : UInt32) (c : Canvas) : Canvas :=
  forEach (fun dy => forEach (fun dx c =>
    if dx * dx + dy * dy ≤ r * r then rdPixel (cx + dx) (cy + dy) color c else c) (-r) (2 * r + 1).toNat) (-r) (2 * r + 1).toNat c

/-- `for (;;)`, cut off after `fuel` rounds. -/
def lineLoop (x1 y1 adx ady sx sy : Int) (color : UInt32) : Nat → Int → Int → Int → Canvas → Canvas
  | 0, _, _, _, c => c
  | fuel + 1, err, x, y, c =>
      let c := rdPixel x y color c
      if x = x1 ∧ y = y1 then c
      else
        let e2 := err * 2
        let (err, x) := if e2 > -ady then (err - ady, x + sx) else (err, x)
        let (err, y) := if e2 < adx then (err + adx, y + sy) else (err, y)
        lineLoop x1 y1 adx ady sx sy color fuel err x y c

def rdLine (fuel : Nat) (x0 y0 x1 y1 : Int) (color : UInt32) (c : Canvas) : Canvas :=
  let dx := x1 - x0
  let dy := y1 - y0
  let adx := if dx < 0 then -dx else dx
  let ady := if dy < 0 then -dy else dy
  let sx := if dx < 0 then -1 else 1
  let sy := if dy < 0 then -1 else 1
  lineLoop x1 y1 adx ady sx sy color fuel (adx - ady) x0 y0 c

def Window.offset (w : Window) : Int :=
  let anim := if w.anim > 255 then 255 else w.anim
  ((255 - anim) * 10).tdiv 255

def titlebarClip (w : Window) : Clip := ⟨w.x, w.y + w.offset, w.w, winTitlebarH⟩

def wmContentRect (w : Window) : Clip :=
  let cw := w.w - 2 * winBorderW
  let ch := w.h - winTitlebarH - winBorderW
  ⟨w.x + winBorderW, w.y + w.offset + winTitlebarH, if cw < 0 then 0 else cw, if ch < 0 then 0 else ch⟩

inductive Draw where
  | pixel (x y : Int) (color : UInt32)
  | rect (x y w h : Int) (color : UInt32)
  | rectOutline (x y w h : Int) (color : UInt32)
  | blendRect (x y w h : Int) (color : UInt32) (alpha : UInt8)
  | gradientV (x y w h : Int) (top bot : UInt32)
  | gradientH (x y w h : Int) (left right : UInt32)
  | rounded (x y w h r : Int) (color : UInt32)
  | roundedOutline (x y w h r : Int) (color : UInt32)
  | blendRounded (x y w h r : Int) (color : UInt32) (alpha : UInt8)
  | shadow (x y w h r spread : Int)
  | circleFill (cx cy r : Int) (color : UInt32)
  | line (fuel : Nat) (x0 y0 x1 y1 : Int) (color : UInt32)

def Draw.apply (c : Canvas) : Draw → Canvas
  | .pixel x y color => rdPixel x y color c
  | .rect x y w h color => rdRect x y w h color c
  | .rectOutline x y w h color => rdRectOutline x y w h color c
  | .blendRect x y w h color alpha => rdBlendRect x y w h color alpha c
  | .gradientV x y w h top bot => rdGradientV x y w h top bot c
  | .gradientH x y w h left right => rdGradientH x y w h left right c
  | .rounded x y w h r color => rdRounded x y w h r color c
  | .roundedOutline x y w h r color => rdRoundedOutline x y w h r color c
  | .blendRounded x y w h r color alpha => rdBlendRounded x y w h r color alpha c
  | .shadow x y w h r spread => rdShadow x y w h r spread c
  | .circleFill cx cy r color => rdCircleFill cx cy r color c
  | .line fuel x0 y0 x1 y1 color => rdLine fuel x0 y0 x1 y1 color c

end RexOs.Desktop
