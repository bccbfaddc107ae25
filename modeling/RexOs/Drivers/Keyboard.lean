import RexOs.Library.SlotRing
import Mathlib.Data.List.Sublists

/-! The way of a key to the programs of the desktop: the PS/2 keyboard (`kernel/drivers/keyboard/keyboard.c`),
the reports of a USB keyboard (`kernel/drivers/usb/xhci.c`), and the desktop's queue (`user/desktop/main.c`).

A key may come between any two looks of the loop in `pump_input`, so a look is a step.
-/

set_option autoImplicit false

namespace RexOs.Drivers.Keyboard

open RexOs.Library

def bufferSize : Nat := 64

def sc1Ascii : List UInt8 :=
  [0, 27, 49, 50, 51, 52, 53, 54, 55, 56, 57, 48, 45, 61, 8, 9,
   113, 119, 101, 114, 116, 121, 117, 105, 111, 112, 91, 93, 10, 0, 97, 115,
   100, 102, 103, 104, 106, 107, 108, 59, 39, 96, 0, 92, 122, 120, 99, 118,
   98, 110, 109, 44, 46, 47, 0, 42, 0, 32, 0, 0, 0, 0, 0, 0,
   0, 0, 0, 0, 0, 0, 0, 55, 56, 57, 45, 52, 53, 54, 43, 49,
   50, 51, 48, 46]

def hidToAscii : List UInt8 :=
  [0, 0, 0, 0, 97, 98, 99, 100, 101, 102, 103, 104, 105, 106, 107, 108,
   109, 110, 111, 112, 113, 114, 115, 116, 117, 118, 119, 120, 121, 122, 49, 50,
   51, 52, 53, 54, 55, 56, 57, 48, 10, 27, 8, 9, 32, 45, 61, 91,
   93, 92, 0, 59, 39, 96, 44, 46, 47]

structure HidReport where
  modifiers : UInt8
  keys : List UInt8
  six : keys.length = 6

inductive Source where
  | ps2
  | usb
  deriving DecidableEq

structure Keys where
  ring : Source → SlotRing UInt8
  prevKbdKeys : List UInt8
  desktop : SlotRing UInt8

def Keys.push (s : Keys) (source : Source) (chars : List UInt8) : Keys :=
  { s with ring := Function.update s.ring source (chars.foldl (SlotRing.push bufferSize) (s.ring source)) }

def Keys.has (s : Keys) (source : Source) : Bool := (s.ring source).write != (s.ring source).read

def Keys.take (s : Keys) (source : Source) : UInt8 × Keys :=
  ((s.ring source).slots (s.ring source).read, { s with ring := Function.update s.ring source ((s.ring source).skip bufferSize) })

/-- Break codes, and keys without a character, type nothing. -/
def scancodeChars (sc : UInt8) : List UInt8 :=
  if sc &&& 0x80 ≠ 0 then []
  else
    let c := sc1Ascii.getD (sc &&& 0x7F).toNat 0
    if c ≠ 0 then [c] else []

def kbdIrqHandler (s : Keys) (sc : UInt8) : Keys := s.push .ps2 (scancodeChars sc)

def newChar (prevKbdKeys : List UInt8) (shift : Bool) (kc : UInt8) : Option UInt8 :=
  if kc = 0 ∨ kc ∈ prevKbdKeys then none
  else if kc < 128 then
    let c := hidToAscii.getD kc.toNat 0
    if c = 0 then none
    else if shift ∧ 97 ≤ c ∧ c ≤ 122 then some (c - 97 + 65)
    else some c
  else none

def reportChars (prevKbdKeys : List UInt8) (r : HidReport) : List UInt8 :=
  r.keys.filterMap (newChar prevKbdKeys (r.modifiers &&& 0x22 != 0))

def hidHandleKbd (s : Keys) (r : HidReport) : Keys :=
  { s.push .usb (reportChars s.prevKbdKeys r) with prevKbdKeys := r.keys }

def keyboardHasData (s : Keys) : Bool := s.has .ps2 || s.has .usb

def keyboardGetc (s : Keys) : UInt8 × Keys :=
  if s.has .ps2 then s.take .ps2 else if s.has .usb then s.take .usb else (0, s)

def sysKbdPoll (s : Keys) : UInt8 × Keys := if keyboardHasData s then keyboardGetc s else (0, s)

/-- A pass of the loop in `pump_input`. -/
def pumpLook (s : Keys) : Keys :=
  let (c, s) := sysKbdPoll s
  if c = 0 then s else { s with desktop := s.desktop.push bufferSize c }

def kbdPop (s : Keys) : UInt8 × Keys :=
  if s.desktop.write = s.desktop.read then (0, s)
  else (s.desktop.slots s.desktop.read, { s with desktop := s.desktop.skip bufferSize })

inductive KeyEvent where
  | scancode (sc : UInt8)
  | report (r : HidReport)
  | look
  | pop

structure Session where
  keys : Keys
  typed : Source → List UInt8
  popped : List UInt8

def Session.type (h : Session) (source : Source) (chars : List UInt8) (keys : Keys) : Session :=
  { h with keys := keys, typed := Function.update h.typed source (h.typed source ++ chars) }

def Session.total (h : Session) : Nat := (h.typed .ps2).length + (h.typed .usb).length

def Session.step (h : Session) : KeyEvent → Session
  | .scancode sc => h.type .ps2 (scancodeChars sc) (kbdIrqHandler h.keys sc)
  | .report r => h.type .usb (reportChars h.keys.prevKbdKeys r) (hidHandleKbd h.keys r)
  | .look => { h with keys := pumpLook h.keys }
  | .pop =>
    let (c, keys) := kbdPop h.keys
    { h with keys := keys, popped := if c = 0 then h.popped else h.popped ++ [c] }

def powerOn : Session := ⟨⟨fun _ => SlotRing.empty 0, List.replicate 6 0, SlotRing.empty 0⟩, fun _ => [], []⟩

/-- The characters of one keyboard on the way of the characters of both. -/
def from_ (source : Source) (path : List (Source × UInt8)) : List UInt8 := (path.filter (·.1 = source)).map Prod.snd

/-- Of what was typed on a keyboard, `came` has left its ring and `queue` is still there. -/
structure Sent (r : SlotRing UInt8) (came queue typed : List UInt8) : Prop where
  holds : r.Holds bufferSize queue
  order : (came ++ queue).Sublist typed
  real : ∀ c ∈ typed, c ≠ 0

/-- `path` are the characters that reached the desktop's queue, `waiting` those that are still in it. -/
structure Delivers (h : Session) (path : List (Source × UInt8)) (waiting : List UInt8) (queue : Source → List UInt8) : Prop where
  sent : ∀ source, Sent (h.keys.ring source) (from_ source path) (queue source) (h.typed source)
  desktop : h.keys.desktop.Holds bufferSize waiting
  popped : path.map Prod.snd = h.popped ++ waiting
  kept : h.total < bufferSize → ∀ source, from_ source path ++ queue source = h.typed source

section
variable {h : Session} {path : List (Source × UInt8)} {came waiting chars rest typed : List UInt8} {queue : Source → List UInt8}
  {source : Source} {c : UInt8} {r : SlotRing UInt8}

theorem path_length (path : List (Source × UInt8)) : path.length = (from_ .ps2 path).length + (from_ .usb path).length := by
  induction path with
  | nil => rfl
  | cons key path ih =>
    obtain ⟨source, c⟩ := key
    cases source <;> simp [from_] at ih ⊢ <;> omega

theorem Session.type_total {keys : Keys} : (h.type source chars keys).total = h.total + chars.length := by
  cases source <;> simp [Session.total, Session.type, Function.update] <;> omega

theorem Sent.arrive {queue : List UInt8} (sent : Sent r came queue typed) (real : ∀ c ∈ chars, c ≠ 0) :
    Sent (chars.foldl (SlotRing.push bufferSize) r) came (chars.foldl (enqueue bufferSize) queue) (typed ++ chars) where
  holds := sent.holds.pushAll chars
  order := by
    have stays := (@enqueueAll_sublist _ bufferSize chars queue).append_left came
    rw [← List.append_assoc] at stays
    exact stays.trans (sent.order.append_right chars)
  real c member := (List.mem_append.mp member).elim (sent.real c) (real c)

theorem Sent.take (sent : Sent r came (c :: rest) typed) : Sent (r.skip bufferSize) (came ++ [c]) rest typed :=
  ⟨sent.holds.skip, by simpa using sent.order, sent.real⟩

theorem Sent.drop (sent : Sent r came (c :: rest) typed) : Sent (r.skip bufferSize) came rest typed :=
  ⟨sent.holds.skip, (List.Sublist.append_left (List.sublist_cons_self c rest) came).trans sent.order, sent.real⟩

theorem Delivers.count (right : Delivers h path waiting queue) (few : h.total < bufferSize) :
    path.length + (queue .ps2).length + (queue .usb).length = h.total := by
  have ps2 := congrArg List.length (right.kept few .ps2)
  have usb := congrArg List.length (right.kept few .usb)
  have := path_length path
  rw [List.length_append] at ps2 usb
  unfold Session.total
  omega

theorem Delivers.arrive (right : Delivers h path waiting queue) (real : ∀ c ∈ chars, c ≠ 0) (prevKbdKeys : List UInt8) :
    Delivers (h.type source chars { h.keys.push source chars with prevKbdKeys := prevKbdKeys }) path waiting
      (Function.update queue source (chars.foldl (enqueue bufferSize) (queue source))) where
  sent other := by
    show Sent (Function.update h.keys.ring source _ other) _ _ (Function.update h.typed source _ other)
    by_cases here : other = source
    · subst here
      simp only [Function.update_self]
      exact (right.sent other).arrive real
    · simp only [Function.update_of_ne here]
      exact right.sent other
  desktop := right.desktop
  popped := right.popped
  kept few other := by
    rw [Session.type_total] at few
    have count := right.count (by omega)
    have room : (queue source).length + chars.length < bufferSize := by
      cases source <;> omega
    show _ = Function.update h.typed source _ other
    by_cases here : other = source
    · subst here
      rw [Function.update_self, Function.update_self, enqueueAll_room room, ← List.append_assoc, right.kept (by omega)]
    · rw [Function.update_of_ne here, Function.update_of_ne here]
      exact right.kept (by omega) other

theorem Delivers.move (right : Delivers h path waiting queue) (next : queue source = c :: rest) :
    ∃ path' waiting', Delivers { h with keys := { (h.keys.take source).2 with desktop := h.keys.desktop.push bufferSize c } }
      path' waiting' (Function.update queue source rest) := by
  have first := right.sent source
  rw [next] at first
  have desktop := right.desktop.push c
  by_cases room : waiting.length + 1 < bufferSize
  · rw [enqueue, if_pos room] at desktop
    have last : from_ source (path ++ [(source, c)]) = from_ source path ++ [c] := by simp [from_]
    have same {other : Source} (apart : other ≠ source) : from_ other (path ++ [(source, c)]) = from_ other path := by
      simp [from_, apart.symm]
    refine ⟨path ++ [(source, c)], waiting ++ [c], ?_, desktop, ?_, ?_⟩
    · intro other
      show Sent (Function.update h.keys.ring source _ other) _ _ _
      by_cases here : other = source
      · subst here
        simp only [Function.update_self, last]
        exact first.take
      · simp only [Function.update_of_ne here, same here]
        exact right.sent other
    · rw [List.map_append, right.popped, List.append_assoc]
      rfl
    · intro few other
      have kept := right.kept few other
      by_cases here : other = source
      · subst here
        rw [Function.update_self, last, List.append_assoc, List.singleton_append, ← next, kept]
      · rw [Function.update_of_ne here, same here, kept]
  · rw [enqueue, if_neg room] at desktop
    refine ⟨path, waiting, ?_, desktop, right.popped, ?_⟩
    · intro other
      show Sent (Function.update h.keys.ring source _ other) _ _ _
      by_cases here : other = source
      · subst here
        simp only [Function.update_self]
        exact first.drop
      · simp only [Function.update_of_ne here]
        exact right.sent other
    · intro few
      change h.total < bufferSize at few
      have count := right.count few
      have popped := congrArg List.length right.popped
      have some : 0 < (queue source).length := by
        rw [next]
        exact Nat.succ_pos _
      rw [List.length_map, List.length_append] at popped
      cases source <;> omega

theorem Delivers.has_iff (right : Delivers h path waiting queue) : h.keys.has source = true ↔ queue source ≠ [] := by
  unfold Keys.has
  rw [bne_iff_ne, ne_eq, (right.sent source).holds.write_eq_iff]

theorem Delivers.take (right : Delivers h path waiting queue) (some : h.keys.has source = true) :
    ∃ rest, queue source = (h.keys.take source).1 :: rest ∧ (h.keys.take source).1 ≠ 0 := by
  obtain ⟨c, rest, next⟩ := List.exists_cons_of_ne_nil (right.has_iff.mp some)
  have sent := right.sent source
  rw [next] at sent
  have first : (h.keys.take source).1 = c := sent.holds.first
  rw [first]
  exact ⟨rest, next, sent.real c (sent.order.subset (by simp))⟩

theorem Delivers.look (right : Delivers h path waiting queue) :
    ∃ path' waiting' queue', Delivers { h with keys := pumpLook h.keys } path' waiting' queue' := by
  have takes (source : Source) (some : h.keys.has source = true) (poll : sysKbdPoll h.keys = h.keys.take source) :
      ∃ path' waiting' queue', Delivers { h with keys := pumpLook h.keys } path' waiting' queue' := by
    obtain ⟨rest, next, real⟩ := right.take some
    obtain ⟨path', waiting', moved⟩ := right.move next
    refine ⟨path', waiting', Function.update queue source rest, ?_⟩
    unfold pumpLook
    rw [poll]
    simp only [if_neg real]
    exact moved
  by_cases ps2 : h.keys.has .ps2 = true
  · exact takes .ps2 ps2 (by simp [sysKbdPoll, keyboardHasData, keyboardGetc, ps2])
  by_cases usb : h.keys.has .usb = true
  · exact takes .usb usb (by simp [sysKbdPoll, keyboardHasData, keyboardGetc, ps2, usb])
  · have idle : pumpLook h.keys = h.keys := by simp [pumpLook, sysKbdPoll, keyboardHasData, ps2, usb]
    rw [idle]
    exact ⟨path, waiting, queue, right⟩

theorem Delivers.pop (right : Delivers h path waiting queue) : ∃ waiting', Delivers (h.step .pop) path waiting' queue := by
  unfold Session.step kbdPop
  cases waiting with
  | nil =>
    rw [if_pos (right.desktop.write_eq_iff.mpr rfl)]
    exact ⟨[], right⟩
  | cons c rest =>
    rw [if_neg (mt right.desktop.write_eq_iff.mp (List.cons_ne_nil c rest)), right.desktop.first]
    have real : c ≠ 0 := by
      have member : c ∈ path.map Prod.snd := by simp [right.popped]
      obtain ⟨key, here, rfl⟩ := List.mem_map.mp member
      have sent := right.sent key.1
      exact sent.real key.2 (sent.order.subset (by simp [from_, here]))
    refine ⟨rest, right.sent, right.desktop.skip, ?_, right.kept⟩
    simp [real, right.popped]

theorem scancodeChars_real (sc : UInt8) : ∀ c ∈ scancodeChars sc, c ≠ 0 := by
  intro c member
  unfold scancodeChars at member
  grind

theorem reportChars_real (prevKbdKeys : List UInt8) (r : HidReport) : ∀ c ∈ reportChars prevKbdKeys r, c ≠ 0 := by
  intro c member
  obtain ⟨kc, -, typed⟩ := List.mem_filterMap.mp member
  unfold newChar at typed
  grind

end

/-- In whatever order keys, reports, looks and pops come: what the programs pop and what is still queued was, for each
keyboard, typed on it in that order, and until as many characters are typed as a queue has slots none is lost. -/
theorem keys_in_order (events : List KeyEvent) :
    ∃ path waiting queue, Delivers (events.foldl Session.step powerOn) path waiting queue := by
  have started : Delivers powerOn [] [] fun _ => [] :=
    ⟨fun _ => ⟨SlotRing.Holds.empty (by decide) 0, by simp [from_], by simp [powerOn]⟩, SlotRing.Holds.empty (by decide) 0, rfl,
      by simp [from_, powerOn]⟩
  suffices run : ∀ h path waiting queue, Delivers h path waiting queue →
      ∃ path waiting queue, Delivers (events.foldl Session.step h) path waiting queue from run _ _ _ _ started
  clear started
  induction events with
  | nil => exact fun _ path waiting queue right => ⟨path, waiting, queue, right⟩
  | cons event events ih =>
    intro h path waiting queue right
    obtain ⟨path', waiting', queue', next⟩ : ∃ path waiting queue, Delivers (h.step event) path waiting queue := by
      cases event with
      | scancode sc => exact ⟨_, _, _, right.arrive (scancodeChars_real sc) h.keys.prevKbdKeys⟩
      | report r => exact ⟨_, _, _, right.arrive (reportChars_real _ r) r.keys⟩
      | look => exact right.look
      | pop =>
        obtain ⟨waiting', next⟩ := right.pop
        exact ⟨_, _, _, next⟩
    exact ih _ _ _ _ next

end RexOs.Drivers.Keyboard
