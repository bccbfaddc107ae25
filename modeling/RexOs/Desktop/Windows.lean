import RexOs.Library.Listing
import Mathlib.Data.Fintype.Basic

/-! The window manager of the desktop (`user/desktop/wm.c`).

A pointer to a window is its slot in the pool. The hooks of an application do not call the
window manager, and the only field of the window that they write is `state`; what `on_open`
stores there is an argument of `wmOpen`. Coordinates do not overflow.
-/

set_option autoImplicit false

namespace RexOs.Desktop

open RexOs.Library

def wmMaxWindows : Nat := 16
def taskbarH : Int := 44
def winTitlebarH : Int := 32
def winBorderW : Int := 1

/-- `g_scr_w` and `g_scr_h`. -/
structure Screen where
  w : Nat
  h : Nat
  deriving DecidableEq, Repr

/-- The part of `g_mouse` that is read here. -/
structure Mouse where
  x : Int
  y : Int
  down : Bool
  clicked : Bool
  deriving DecidableEq, Repr

structure AppDef where
  name : List UInt8
  icon : Nat
  defaultW : Int
  defaultH : Int
  onOpen : Bool
  onEvent : Bool
  deriving DecidableEq, Repr

structure Window where
  id : Int
  used : Bool
  visible : Bool
  minimized : Bool
  x : Int
  y : Int
  w : Int
  h : Int
  dragOffX : Int
  dragOffY : Int
  dragging : Bool
  title : List UInt8
  icon : Nat
  app : Option AppDef
  state : Nat
  focused : Bool
  anim : Int
  closing : Bool
  deriving DecidableEq, Repr

instance wmMaxWindows_neZero : @NeZero Nat Zero.ofOfNat0 wmMaxWindows := ⟨by decide⟩

abbrev Slot := Fin wmMaxWindows

/-- `s_pool`, `s_z`, `s_z_count` and `s_next_id`. -/
structure Wm where
  pool : Slot → Window
  z : Nat → Slot
  zCount : Nat
  nextId : Int

def Wm.set (s : Wm) (i : Slot) (w : Window) : Wm := { s with pool := Function.update s.pool i w }

def wmInit (s : Wm) : Wm :=
  { s with pool := fun i => { s.pool i with used := false, state := 0 }, zCount := 0 }

def wmFocused (s : Wm) : Option Slot := if s.zCount = 0 then none else some (s.z (s.zCount - 1))

/-- `s_pool[s_z[i]].focused = 0` for the `n` places from `i` on. -/
def unfocus (z : Nat → Slot) (pool : Slot → Window) : Nat → Nat → Slot → Window
  | _, 0 => pool
  | i, n + 1 => unfocus z (Function.update pool (z i) { pool (z i) with focused := false }) (i + 1) n

def wmFocus (s : Wm) (w : Option Slot) : Wm :=
  match w with
  | none => s
  | some idx =>
      if (s.pool idx).used = false then s
      else
        match indexFrom s.z idx 0 s.zCount with
        | none => s
        | some found =>
            let pool := unfocus s.z s.pool 0 s.zCount
            let z := shiftDown s.z found (s.zCount - 1 - found)
            { s with
              pool := Function.update pool idx { pool idx with focused := true, minimized := false }
              z := Function.update z (s.zCount - 1) idx }

def freeSlot (pool : Slot → Window) : Option Slot := (List.finRange wmMaxWindows).find? fun i => !(pool i).used

def Window.place (w : Window) (g : Screen) (nextId : Int) : Window :=
  let stagger := (nextId * 24).tmod 200
  let x := 60 + stagger
  let y := 60 + stagger
  let x := if x + w.w > (g.w : Int) - 20 then (g.w : Int) - 20 - w.w else x
  let y := if y + w.h > (g.h : Int) - taskbarH - 20 then (g.h : Int) - taskbarH - 20 - w.h else y
  { w with x := if x < 8 then 8 else x, y := if y < 8 then 8 else y }

def wmOpen (g : Screen) (s : Wm) (app : Option AppDef) (state : Nat) : Wm :=
  match app with
  | none => s
  | some app =>
      match freeSlot s.pool with
      | none => s
      | some slot =>
          let w := { s.pool slot with
            used := true, visible := true, minimized := false, id := s.nextId, app := some app, state := 0
            dragging := false, anim := 0, closing := false, icon := app.icon, title := app.name.take 63
            w := app.defaultW, h := app.defaultH }
          let w := w.place g (s.nextId + 1)
          let w := if app.onOpen then { w with state := state } else w
          let s := { s.set slot w with z := Function.update s.z s.zCount slot, zCount := s.zCount + 1, nextId := s.nextId + 1 }
          wmFocus s (some slot)

/-- `s_pool[s_z[s_z_count - 1]].focused = 1` after all were cleared. -/
def refocus (s : Wm) : Wm :=
  if s.zCount = 0 then s
  else
    let pool := unfocus s.z s.pool 0 s.zCount
    let top := s.z (s.zCount - 1)
    { s with pool := Function.update pool top { pool top with focused := true } }

def wmClose (s : Wm) (w : Option Slot) : Wm :=
  match w with
  | none => s
  | some idx =>
      if (s.pool idx).used = false then s
      else
        let gone := { s.pool idx with state := 0, used := false, visible := false }
        match indexFrom s.z idx 0 s.zCount with
        | none => refocus (s.set idx gone)
        | some i => refocus { s.set idx gone with z := shiftDown s.z i (s.zCount - 1 - i), zCount := s.zCount - 1 }

def wmToggleMinimize (s : Wm) (w : Option Slot) : Wm :=
  match w with
  | none => s
  | some idx =>
      let window := s.pool idx
      if window.used = false then s
      else if window.minimized then wmFocus (s.set idx { window with minimized := false, anim := 0 }) (some idx)
      else s.set idx { window with minimized := true, focused := false }

/-- One frame of the animations of the `n` windows from place `i` on. -/
def animate (z : Nat → Slot) (pool : Slot → Window) : Nat → Nat → Slot → Window
  | _, 0 => pool
  | i, n + 1 =>
      let w := pool (z i)
      let pool :=
        if w.used = false ∨ w.minimized = true then pool
        else if w.anim < 255 then Function.update pool (z i) { w with anim := if w.anim + 28 > 255 then 255 else w.anim + 28 }
        else pool
      animate z pool (i + 1) n

def wmAnimate (s : Wm) : Wm := { s with pool := animate s.z s.pool 0 s.zCount }

def ptInRect (px py x y w h : Int) : Bool := px ≥ x && px < x + w && py ≥ y && py < y + h

/-- The topmost of the lowest `n` windows that is shown under the point. -/
def topmostAt (s : Wm) (x y : Int) : Nat → Option Slot
  | 0 => none
  | n + 1 =>
      let w := s.pool (s.z n)
      if w.visible = false ∨ w.minimized = true then topmostAt s x y n
      else if ptInRect x y w.x w.y w.w w.h then some (s.z n)
      else topmostAt s x y n

def wmTopmostAt (s : Wm) (x y : Int) : Option Slot := topmostAt s x y s.zCount

inductive Button where
  | minimize
  | maximize
  | close
  deriving DecidableEq, Repr

/-- Left edge, upper edge, size and gap of the buttons, from the rightmost on. -/
def titlebarBtnRects (w : Window) : Int × Int × Int × Int :=
  let bs := 14
  let gap := 8
  (w.x + w.w - winBorderW - bs - 12, w.y + (winTitlebarH - bs).tdiv 2, bs, gap)

def titlebarHit (w : Window) (mx my : Int) : Option Button :=
  let (bx, by_, bs, gap) := titlebarBtnRects w
  if ptInRect mx my bx by_ bs bs then some .close
  else
    let mxbx := bx - bs - gap
    if ptInRect mx my mxbx by_ bs bs then some .maximize
    else
      let mibx := mxbx - bs - gap
      if ptInRect mx my mibx by_ bs bs then some .minimize else none

def Window.drag (w : Window) (g : Screen) (m : Mouse) : Window :=
  let x := m.x - w.dragOffX
  let y := m.y - w.dragOffY
  let y := if y < 0 then 0 else y
  let x := if x < -w.w + 80 then -w.w + 80 else x
  let x := if x > (g.w : Int) - 80 then (g.w : Int) - 80 else x
  let y := if y > (g.h : Int) - taskbarH - 16 then (g.h : Int) - taskbarH - 16 else y
  { w with x := x, y := y }

def Window.maximize (w : Window) (g : Screen) : Window :=
  if w.w < (g.w : Int) - 16 then { w with x := 8, y := 8, w := (g.w : Int) - 16, h := (g.h : Int) - taskbarH - 16 }
  else
    match w.app with
    | none => w
    | some app => { w with w := app.defaultW, h := app.defaultH, x := 60, y := 60 }

/-- `fw->app->on_event(fw)`, the last thing that a frame does. -/
def forwardEvent (s : Wm) : Option Slot :=
  match wmFocused s with
  | none => none
  | some fw =>
      match (s.pool fw).app with
      | none => none
      | some app => if app.onEvent then some fw else none

/-- A click on the window `w`, unless it goes to the content. -/
def clickTitlebar (g : Screen) (m : Mouse) (s : Wm) (w : Slot) : Option Wm :=
  let window := s.pool w
  if m.y < window.y + winTitlebarH then
    match titlebarHit window m.x m.y with
    | some .close => some (wmClose s (some w))
    | some .maximize => some (s.set w (window.maximize g))
    | some .minimize => some (wmToggleMinimize s (some w))
    | none => some (s.set w { window with dragging := true, dragOffX := m.x - window.x, dragOffY := m.y - window.y })
  else none

def wmDispatch (g : Screen) (m : Mouse) (s : Wm) : Option Slot × Wm :=
  if m.clicked then
    match wmTopmostAt s m.x m.y with
    | none => (forwardEvent s, s)
    | some w =>
        let s := if wmFocused s = some w then s else wmFocus s (some w)
        match clickTitlebar g m s w with
        | some s => (none, s)
        | none => (forwardEvent s, s)
  else (forwardEvent s, s)

/-- The window whose `on_event` is called, and the windows at that time. -/
def wmInputFrame (g : Screen) (m : Mouse) (s : Wm) : Option Slot × Wm :=
  match wmFocused s with
  | none => wmDispatch g m s
  | some top =>
      let focused := s.pool top
      if focused.dragging then
        if m.down then (none, s.set top (focused.drag g m))
        else wmDispatch g m (s.set top { focused with dragging := false })
      else wmDispatch g m s

inductive Call where
  | open (app : Option AppDef) (state : Nat)
  | close (w : Option Slot)
  | focus (w : Option Slot)
  | toggleMinimize (w : Option Slot)
  | animate
  | input (m : Mouse)

def call (g : Screen) (s : Wm) : Call → Option Slot × Wm
  | .open app state => (none, wmOpen g s app state)
  | .close w => (none, wmClose s w)
  | .focus w => (none, wmFocus s w)
  | .toggleMinimize w => (none, wmToggleMinimize s w)
  | .animate => (none, wmAnimate s)
  | .input m => wmInputFrame g m s

def calls (g : Screen) (s : Wm) (l : List Call) : Wm := l.foldl (fun s c => (call g s c).2) s

end RexOs.Desktop
