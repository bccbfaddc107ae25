import RexOs.Library.CInt
import Mathlib.Data.Nat.Bits

/-! The pointer (`kernel/drivers/mouse/mouse.c`).

PS/2 packets arrive byte by byte, and the deltas of USB mice are added up until the position is
asked for.
-/

set_option autoImplicit false

namespace RexOs.Drivers.Mouse

open RexOs.Library

/-- The last three fields are `g_mouse_dx`, `g_mouse_dy` and `g_mouse_buttons` of the USB driver. -/
structure State where
  x : Int
  y : Int
  buttons : UInt8
  maxX : Nat
  maxY : Nat
  cycle : Nat
  packet : Nat → UInt8
  usbDx : Int
  usbDy : Int
  usbButtons : UInt8

def initial : State := ⟨640, 400, 0, 1280, 800, 0, fun _ => 0, 0, 0, 0⟩

/-- `if (flags & mask) d |= (int32_t)0xFFFFFF00`. -/
def delta (flags mask byte : UInt8) : Int := wrapInt (byte.toNat ||| if flags &&& mask ≠ 0 then 0xFFFFFF00 else 0 : Nat)

/-- `s_x >= (int32_t)s_max_x` and the lines around it. -/
def clampPs2 (max : Nat) (v : Int) : Int :=
  let v := if v < 0 then 0 else v
  if v ≥ wrapInt max then wrapInt (wrapInt max - 1) else v

/-- `(uint32_t)nx >= s_max_x` and the lines around it. -/
def clampUsb (max : Nat) (v : Int) : Int :=
  let v := if v < 0 then 0 else v
  if v % 2 ^ 32 ≥ max then wrapInt ((max - 1) % 2 ^ 32) else v

def State.movePacket (s : State) : State :=
  let flags := s.packet 0
  let dx := delta flags 0x10 (s.packet 1)
  let dy := delta flags 0x20 (s.packet 2)
  if flags &&& 0xC0 ≠ 0 then s
  else { s with
    x := clampPs2 s.maxX (wrapInt (s.x + dx))
    y := clampPs2 s.maxY (wrapInt (s.y - dy))
    buttons := flags &&& 0x07 }

def mouseIrqHandler (data : UInt8) (s : State) : State :=
  if s.cycle = 0 ∧ data &&& 0x08 = 0 then s
  else
    let s := { s with packet := Function.update s.packet s.cycle data, cycle := (s.cycle + 1) % 2 ^ 8 }
    if s.cycle ≥ 3 then { s with cycle := 0 }.movePacket else s

/-- `hid_handle_mouse`. -/
def usbReport (buttons dx dy : UInt8) (s : State) : State :=
  { s with
    usbButtons := buttons
    usbDx := wrapInt (s.usbDx + dx.toInt8.toInt)
    usbDy := wrapInt (s.usbDy + dy.toInt8.toInt) }

/-- `xhci_mouse_take` returns true, or a button is pressed. -/
def State.UsbMoves (s : State) : Prop := (s.usbDx ≠ 0 ∨ s.usbDy ≠ 0) ∨ s.usbButtons ≠ 0

instance (s : State) : Decidable s.UsbMoves := inferInstanceAs (Decidable (_ ∨ _))

/-- What is reported are `x`, `y` and `buttons` of the new state. The USB reports that `xhci_poll` finds come before it. -/
def mouseGetState (s : State) : State :=
  if s.UsbMoves then
    { s with
      x := clampUsb s.maxX (wrapInt (s.x + s.usbDx))
      y := clampUsb s.maxY (wrapInt (s.y + s.usbDy))
      buttons := s.usbButtons
      usbDx := 0
      usbDy := 0 }
  else { s with usbDx := 0, usbDy := 0 }

def mouseSetBounds (maxX maxY : Nat) (s : State) : State := { s with maxX, maxY }

inductive Event where
  | byte (data : UInt8)
  | usb (buttons dx dy : UInt8)
  | getState
  | setBounds (maxX maxY : Nat)
  deriving DecidableEq

def step (s : State) : Event → State
  | .byte data => mouseIrqHandler data s
  | .usb buttons dx dy => usbReport buttons dx dy s
  | .getState => mouseGetState s
  | .setBounds maxX maxY => mouseSetBounds maxX maxY s

def run (s : State) (events : List Event) : State := events.foldl step s

def State.OnScreen (s : State) : Prop := (0 ≤ s.x ∧ s.x < s.maxX) ∧ 0 ≤ s.y ∧ s.y < s.maxY

def clamp (max : Nat) (v : Int) : Int := Max.max 0 (min v (max - 1))

structure Packet where
  flags : UInt8
  dx : UInt8
  dy : UInt8
  wellFormed : flags &&& 0x08 ≠ 0

def Packet.bytes (p : Packet) : List Event := [.byte p.flags, .byte p.dx, .byte p.dy]

def Packet.Overflows (p : Packet) : Prop := p.flags &&& 0xC0 ≠ 0

instance (p : Packet) : Decidable p.Overflows := inferInstanceAs (Decidable (_ ≠ _))

/-- Nine bits in two's complement; the sign is one of the flags. -/
def Packet.moveX (p : Packet) : Int := if p.flags &&& 0x10 ≠ 0 then p.dx.toNat - 256 else p.dx.toNat

def Packet.moveY (p : Packet) : Int := if p.flags &&& 0x20 ≠ 0 then p.dy.toNat - 256 else p.dy.toNat

def Packet.next (p : Packet) (maxX maxY : Nat) (pos : Int × Int) : Int × Int :=
  if p.Overflows then pos else (clamp maxX (pos.1 + p.moveX), clamp maxY (pos.2 - p.moveY))

def clampedSum (maxX maxY : Nat) (pos : Int × Int) (packets : List Packet) : Int × Int :=
  packets.foldl (fun pos p => p.next maxX maxY pos) pos

def SumsFit (maxX maxY : Nat) : Int × Int → List Packet → Prop
  | _, [] => True
  | pos, p :: rest =>
      (p.Overflows ∨ pos.1 + p.moveX < 2 ^ 31 ∧ pos.2 - p.moveY < 2 ^ 31) ∧ SumsFit maxX maxY (p.next maxX maxY pos) rest

/-! Each event that moves the pointer clamps it, so it can only leave the screen when the bounds change.
-/

def Event.Allowed : Event → Prop
  | .setBounds maxX maxY => (1 ≤ maxX ∧ maxX < 2 ^ 31) ∧ 1 ≤ maxY ∧ maxY < 2 ^ 31
  | _ => True

structure Valid (s : State) : Prop where
  cycle : s.cycle ≤ 2
  x : 0 ≤ s.x ∧ s.x < 2 ^ 31
  y : 0 ≤ s.y ∧ s.y < 2 ^ 31
  maxX : 1 ≤ s.maxX ∧ s.maxX < 2 ^ 31
  maxY : 1 ≤ s.maxY ∧ s.maxY < 2 ^ 31

def Covers (s : State) (events : List Event) : Prop :=
  ∀ before (maxX maxY : Nat) after, events = before ++ .setBounds maxX maxY :: after → (run s before).x < maxX ∧ (run s before).y < maxY

section
variable {max : Nat} {v : Int}

theorem clamp_range (some_ : 1 ≤ max) (v : Int) : 0 ≤ clamp max v ∧ clamp max v < max := by
  unfold clamp
  omega

theorem clampPs2_eq (some_ : 1 ≤ max) (small : max < 2 ^ 31) (v : Int) : clampPs2 max v = clamp max v := by
  unfold clampPs2 clamp
  rw [wrapInt_of_fits (x := max) (by omega) (by omega), wrapInt_of_fits (x := max - 1) (by omega) (by omega)]
  dsimp only
  split <;> split <;> omega

theorem clampUsb_eq (some_ : 1 ≤ max) (small : max < 2 ^ 31) (fits : v < 2 ^ 31) : clampUsb max v = clamp max v := by
  have last : ((max : Int) - 1) % 2 ^ 32 = max - 1 := Int.emod_eq_of_lt (by omega) (by omega)
  unfold clampUsb clamp
  rw [last, wrapInt_of_fits (x := max - 1) (by omega) (by omega)]
  dsimp only
  split <;> split <;> omega

theorem lor_high : ∀ n, n < 256 → n ||| 0xFFFFFF00 = n + 0xFFFFFF00 := by decide +kernel

theorem delta_eq (flags mask byte : UInt8) :
    delta flags mask byte = if flags &&& mask ≠ 0 then (byte.toNat : Int) - 256 else byte.toNat := by
  have small := byte.toNat_lt
  unfold delta
  split
  · rw [lor_high _ small, ← wrapInt_of_fits (x := (byte.toNat : Int) - 256) (by omega) (by omega)]
    exact wrapInt_congr (by omega)
  · rw [Nat.or_zero]
    exact wrapInt_of_fits (by omega) (by omega)

end

section
variable {s s' : State} {e : Event}

structure Moves (s s' : State) : Prop where
  cycle : s'.cycle ≤ 2
  maxX : s'.maxX = s.maxX
  maxY : s'.maxY = s.maxY
  position : s'.x = s.x ∧ s'.y = s.y ∨ ∃ v w, s'.x = clamp s.maxX v ∧ s'.y = clamp s.maxY w

theorem Moves.valid (moves : Moves s s') (valid : Valid s) : Valid s' := by
  obtain ⟨cycle, maxX, maxY, position⟩ := moves
  have screen := valid.maxX
  have screen' := valid.maxY
  rcases position with ⟨x, y⟩ | ⟨v, w, x, y⟩
  · exact ⟨cycle, x ▸ valid.x, y ▸ valid.y, maxX ▸ valid.maxX, maxY ▸ valid.maxY⟩
  · have rangeX := clamp_range screen.1 v
    have rangeY := clamp_range screen'.1 w
    exact ⟨cycle, by rw [x]; omega, by rw [y]; omega, maxX ▸ valid.maxX, maxY ▸ valid.maxY⟩

theorem Moves.onScreen (moves : Moves s s') (valid : Valid s) (onScreen : s.OnScreen) : s'.OnScreen := by
  obtain ⟨-, maxX, maxY, position⟩ := moves
  unfold State.OnScreen at onScreen ⊢
  rw [maxX, maxY]
  rcases position with ⟨x, y⟩ | ⟨v, w, x, y⟩
  · rw [x, y]
    exact onScreen
  · rw [x, y]
    exact ⟨clamp_range valid.maxX.1 v, clamp_range valid.maxY.1 w⟩

theorem movePacket_moves (valid : Valid s) : Moves s s.movePacket := by
  unfold State.movePacket
  dsimp only
  split
  · exact ⟨valid.cycle, rfl, rfl, Or.inl ⟨rfl, rfl⟩⟩
  · exact ⟨valid.cycle, rfl, rfl, Or.inr ⟨_, _, clampPs2_eq valid.maxX.1 valid.maxX.2 _, clampPs2_eq valid.maxY.1 valid.maxY.2 _⟩⟩

theorem mouseIrqHandler_moves (valid : Valid s) (data : UInt8) : Moves s (mouseIrqHandler data s) := by
  have cycle := valid.cycle
  unfold mouseIrqHandler
  split
  · exact ⟨cycle, rfl, rfl, Or.inl ⟨rfl, rfl⟩⟩
  · dsimp only
    split
    · have ready : Valid { s with packet := Function.update s.packet s.cycle data, cycle := 0 } :=
        ⟨Nat.zero_le _, valid.x, valid.y, valid.maxX, valid.maxY⟩
      obtain ⟨cycle, maxX, maxY, position⟩ := movePacket_moves ready
      exact ⟨cycle, maxX, maxY, position⟩
    · exact ⟨by dsimp only; omega, rfl, rfl, Or.inl ⟨rfl, rfl⟩⟩

theorem mouseGetState_moves (valid : Valid s) : Moves s (mouseGetState s) := by
  unfold mouseGetState
  split
  · exact ⟨valid.cycle, rfl, rfl, Or.inr ⟨_, _, clampUsb_eq valid.maxX.1 valid.maxX.2 (wrapInt_high _),
      clampUsb_eq valid.maxY.1 valid.maxY.2 (wrapInt_high _)⟩⟩
  · exact ⟨valid.cycle, rfl, rfl, Or.inl ⟨rfl, rfl⟩⟩

theorem step_valid (valid : Valid s) (allowed : e.Allowed) : Valid (step s e) := by
  cases e with
  | byte data => exact (mouseIrqHandler_moves valid data).valid valid
  | usb buttons dx dy => exact ⟨valid.cycle, valid.x, valid.y, valid.maxX, valid.maxY⟩
  | getState => exact (mouseGetState_moves valid).valid valid
  | setBounds maxX maxY => exact ⟨valid.cycle, valid.x, valid.y, allowed.1, allowed.2⟩

theorem step_onScreen (valid : Valid s) (onScreen : s.OnScreen)
    (covers : ∀ maxX maxY : Nat, e = .setBounds maxX maxY → s.x < maxX ∧ s.y < maxY) : (step s e).OnScreen := by
  cases e with
  | byte data => exact (mouseIrqHandler_moves valid data).onScreen valid onScreen
  | usb buttons dx dy => exact onScreen
  | getState => exact (mouseGetState_moves valid).onScreen valid onScreen
  | setBounds maxX maxY =>
    obtain ⟨x, y⟩ := covers maxX maxY rfl
    exact ⟨⟨valid.x.1, x⟩, valid.y.1, y⟩

end

section
variable {s : State} {events : List Event}

theorem run_valid (valid : Valid s) (allowed : ∀ e ∈ events, e.Allowed) : Valid (run s events) := by
  induction events generalizing s with
  | nil => exact valid
  | cons e rest ih =>
    exact ih (step_valid valid (allowed e (List.mem_cons_self ..))) fun e' member => allowed e' (List.mem_cons_of_mem _ member)

theorem run_onScreen (valid : Valid s) (onScreen : s.OnScreen) (allowed : ∀ e ∈ events, e.Allowed) (covers : Covers s events) :
    (run s events).OnScreen := by
  induction events generalizing s with
  | nil => exact onScreen
  | cons e rest ih =>
    refine ih (step_valid valid (allowed e (List.mem_cons_self ..))) (step_onScreen valid onScreen fun maxX maxY here => ?_)
      (fun e' member => allowed e' (List.mem_cons_of_mem _ member)) fun before maxX maxY after split => ?_
    · exact covers [] maxX maxY rest (by rw [here]; rfl)
    · exact covers (e :: before) maxX maxY after (by rw [split, List.cons_append])

theorem initial_valid : Valid initial := ⟨by decide, by decide, by decide, by decide, by decide⟩

theorem initial_onScreen : initial.OnScreen := ⟨by decide, by decide⟩

theorem mouseGetState_onScreen (valid : Valid s) : (mouseGetState s).OnScreen ↔ s.OnScreen ∨ s.UsbMoves := by
  unfold mouseGetState
  by_cases moves : s.UsbMoves
  · rw [if_pos moves]
    refine iff_of_true ?_ (Or.inr moves)
    unfold State.OnScreen
    dsimp only
    rw [clampUsb_eq valid.maxX.1 valid.maxX.2 (wrapInt_high _), clampUsb_eq valid.maxY.1 valid.maxY.2 (wrapInt_high _)]
    exact ⟨clamp_range valid.maxX.1 _, clamp_range valid.maxY.1 _⟩
  · rw [if_neg moves]
    exact ⟨Or.inl, fun onScreen => onScreen.resolve_right moves⟩

theorem report_iff (valid : Valid s) {maxX maxY : Nat} (allowed : (Event.setBounds maxX maxY).Allowed) :
    (mouseGetState (mouseSetBounds maxX maxY s)).OnScreen ↔ (s.x < maxX ∧ s.y < maxY) ∨ s.UsbMoves := by
  have next : Valid (mouseSetBounds maxX maxY s) := step_valid valid allowed
  rw [mouseGetState_onScreen next]
  exact or_congr ⟨fun inside => ⟨inside.1.2, inside.2.2⟩, fun covered => ⟨⟨valid.x.1, covered.1⟩, valid.y.1, covered.2⟩⟩ Iff.rfl

end

section
variable {s : State} {p : Packet} {packets : List Packet}

def State.position (s : State) : Int × Int := (s.x, s.y)

theorem run_bytes (start : s.cycle = 0) : run s p.bytes = State.movePacket
    { s with packet := Function.update (Function.update (Function.update s.packet 0 p.flags) 1 p.dx) 2 p.dy, cycle := 0 } := by
  have first : mouseIrqHandler p.flags s = { s with packet := Function.update s.packet 0 p.flags, cycle := 1 } := by
    unfold mouseIrqHandler
    rw [if_neg fun both => p.wellFormed both.2, start]
    rfl
  show mouseIrqHandler p.dy (mouseIrqHandler p.dx (mouseIrqHandler p.flags s)) = _
  rw [first]
  rfl

theorem packet_deltas (p : Packet) : delta p.flags 0x10 p.dx = p.moveX ∧ delta p.flags 0x20 p.dy = p.moveY :=
  ⟨delta_eq p.flags 0x10 p.dx, delta_eq p.flags 0x20 p.dy⟩

theorem move_range (p : Packet) : (-256 ≤ p.moveX ∧ p.moveX ≤ 255) ∧ -256 ≤ p.moveY ∧ p.moveY ≤ 255 := by
  have dx := p.dx.toNat_lt
  have dy := p.dy.toNat_lt
  unfold Packet.moveX Packet.moveY
  constructor <;> split <;> omega

theorem run_position (valid : Valid s) (start : s.cycle = 0) : (run s p.bytes).position =
    if p.Overflows then s.position
    else (clamp s.maxX (wrapInt (s.x + p.moveX)), clamp s.maxY (wrapInt (s.y - p.moveY))) := by
  obtain ⟨dx, dy⟩ := packet_deltas p
  rw [run_bytes start, ← dx, ← dy, ← clampPs2_eq valid.maxX.1 valid.maxX.2, ← clampPs2_eq valid.maxY.1 valid.maxY.2]
  unfold State.movePacket
  rw [apply_ite State.position]
  rfl

theorem run_bounds (start : s.cycle = 0) : (run s p.bytes).maxX = s.maxX ∧ (run s p.bytes).maxY = s.maxY ∧ (run s p.bytes).cycle = 0 := by
  rw [run_bytes start]
  unfold State.movePacket
  dsimp only
  split <;> exact ⟨rfl, rfl, rfl⟩

theorem run_packet (valid : Valid s) (start : s.cycle = 0)
    (fits : p.Overflows ∨ s.x + p.moveX < 2 ^ 31 ∧ s.y - p.moveY < 2 ^ 31) :
    (run s p.bytes).position = p.next s.maxX s.maxY s.position := by
  have left := valid.x
  have top := valid.y
  obtain ⟨moveX, moveY⟩ := move_range p
  rw [run_position valid start]
  unfold Packet.next
  by_cases dropped : p.Overflows
  · rw [if_pos dropped, if_pos dropped]
  · obtain ⟨x, y⟩ := fits.resolve_left dropped
    rw [if_neg dropped, if_neg dropped, wrapInt_of_fits (by omega) x, wrapInt_of_fits (by omega) y]
    rfl

theorem clamp_wrapped {max : Nat} {v d : Int} (inside : 0 ≤ v ∧ v < max) (small : max < 2 ^ 31) (move : d ≤ 256) :
    clamp max (wrapInt (v + d)) = clamp max (v + d) → v + d < 2 ^ 31 := by
  intro same
  by_contra large
  have wrapped : wrapInt (v + d) = v + d - 2 ^ 32 := by
    rw [← wrapInt_of_fits (x := v + d - 2 ^ 32) (by omega) (by omega)]
    exact wrapInt_congr (by omega)
  rw [wrapped] at same
  unfold clamp at same
  omega

theorem run_packet_iff (valid : Valid s) (onScreen : s.OnScreen) (start : s.cycle = 0) :
    (run s p.bytes).position = p.next s.maxX s.maxY s.position ↔ p.Overflows ∨ s.x + p.moveX < 2 ^ 31 ∧ s.y - p.moveY < 2 ^ 31 := by
  refine ⟨fun same => or_iff_not_imp_left.mpr fun dropped => ?_, run_packet valid start⟩
  obtain ⟨moveX, moveY⟩ := move_range p
  rw [run_position valid start, Packet.next, if_neg dropped, if_neg dropped] at same
  have sameX := congrArg Prod.fst same
  have sameY := congrArg Prod.snd same
  exact ⟨clamp_wrapped onScreen.1 valid.maxX.2 (by omega) sameX, clamp_wrapped onScreen.2 valid.maxY.2 (by omega) sameY⟩

theorem bytes_allowed (p : Packet) : ∀ e ∈ p.bytes, e.Allowed :=
  List.forall_mem_cons.mpr ⟨trivial, List.forall_mem_cons.mpr ⟨trivial, List.forall_mem_singleton.mpr trivial⟩⟩

theorem run_packets (valid : Valid s) (start : s.cycle = 0) (fits : SumsFit s.maxX s.maxY s.position packets) :
    (run s (packets.flatMap Packet.bytes)).position = clampedSum s.maxX s.maxY s.position packets := by
  induction packets generalizing s with
  | nil => rfl
  | cons p rest ih =>
    obtain ⟨here, later⟩ := fits
    obtain ⟨maxX, maxY, cycle⟩ := run_bounds (p := p) start
    have moved := run_packet valid start here
    rw [← moved, ← maxX, ← maxY] at later
    have result := ih (run_valid valid (bytes_allowed p)) cycle later
    rw [moved, maxX, maxY] at result
    rw [List.flatMap_cons, run, List.foldl_append]
    exact result

end

/-- When new bounds cover the pointer, it is reported on the screen. And from a synchronised start, packets move it to their
clamped sum when all sums fit into an `int`. -/
theorem pointer_right (events : List Event) (allowed : ∀ e ∈ events, e.Allowed) :
    (Covers initial events → ∀ before after, events = before ++ .getState :: after → (mouseGetState (run initial before)).OnScreen) ∧
      ((run initial events).cycle = 0 → ∀ packets,
        SumsFit (run initial events).maxX (run initial events).maxY (run initial events).position packets →
          (run (run initial events) (packets.flatMap Packet.bytes)).position =
            clampedSum (run initial events).maxX (run initial events).maxY (run initial events).position packets) := by
  constructor
  · rintro covers before after rfl
    have first : ∀ e ∈ before, e.Allowed := fun e member => allowed e (List.mem_append_left _ member)
    have valid := run_valid initial_valid first
    refine (mouseGetState_onScreen valid).mpr (Or.inl (run_onScreen initial_valid initial_onScreen first ?_))
    intro before' maxX maxY after' split
    exact covers before' maxX maxY (after' ++ .getState :: after) (by rw [split, List.append_assoc, List.cons_append])
  · exact fun start packets fits => run_packets (run_valid initial_valid allowed) start fits

/-- The screen is made smaller, and a packet moves the pointer by two to the left and by one up. -/
theorem pointer_screen : (mouseGetState (run initial [.setBounds 1024 768, .byte 0x18, .byte 0xFE, .byte 1])).OnScreen ∧
    (run initial [.byte 0x18, .byte 0xFE, .byte 1]).position = clampedSum 1280 800 (640, 400) [⟨0x18, 0xFE, 1, by decide⟩] := by
  have covers : Covers initial [.setBounds 1024 768, .byte 0x18, .byte 0xFE, .byte 1, .getState] := by
    intro before maxX maxY after split
    cases before with
    | nil =>
      cases split
      exact ⟨by decide, by decide⟩
    | cons e rest =>
      have member : Event.setBounds maxX maxY ∈ [.byte 0x18, .byte 0xFE, .byte 1, .getState] := by
        rw [(List.cons.inj split).2]
        exact List.mem_append_right _ (List.mem_cons_self ..)
      simp at member
  have fits : SumsFit 1280 800 (640, 400) [⟨0x18, 0xFE, 1, by decide⟩] := ⟨by decide, trivial⟩
  refine ⟨(pointer_right [.setBounds 1024 768, .byte 0x18, .byte 0xFE, .byte 1, .getState] (fun e member => ?_)).1 covers _ [] rfl,
    (pointer_right [] (List.forall_mem_nil _)).2 rfl [⟨0x18, 0xFE, 1, by decide⟩] fits⟩
  simp only [List.mem_cons, List.not_mem_nil, or_false] at member
  rcases member with rfl | rfl | rfl | rfl | rfl
  · exact ⟨⟨by decide, by decide⟩, by decide, by decide⟩
  all_goals exact trivial

/-- The screen becomes smaller than where the pointer is at the beginning, and the pointer is reported behind its right edge. -/
theorem pointer_outside : (Event.setBounds 640 480).Allowed ∧ (run initial [.setBounds 640 480]).maxX = 640 ∧
    (mouseGetState (run initial [.setBounds 640 480])).x = 640 ∧ ¬ (mouseGetState (run initial [.setBounds 640 480])).OnScreen :=
  ⟨⟨by decide, by decide⟩, rfl, rfl, fun onScreen => absurd onScreen.1.2 (by decide)⟩

end RexOs.Drivers.Mouse
