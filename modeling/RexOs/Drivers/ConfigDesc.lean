import RexOs.Drivers.XhciHid

/-! What `parse_config_desc` reads, and what it records (`kernel/drivers/usb/xhci.c`).

The descriptors are a chain in which each one tells the length of itself. Only the first two
bytes of a descriptor are known to be in the buffer when its fields are read.
-/

set_option autoImplicit false

namespace RexOs.Drivers

open RexOs.Library

/-- The fields of `usb_device_t` that are written. -/
structure Recorded where
  ifaceClass : UInt8
  ifaceSub : UInt8
  ifaceProto : UInt8
  epAddr : UInt8
  epMps : Nat
  epInterval : UInt8
  deriving DecidableEq, Repr

/-- Where the endpoint is that is recorded, if the result is true, and, in their order, the bytes that are read and the
descriptors in front of it. -/
structure Parse where
  found : Option Nat
  device : Recorded
  reads : List Nat
  seen : List Nat
  deriving DecidableEq, Repr

def Parse.after (p : Parse) (pos : Nat) (fields : List Nat) : Parse :=
  { p with reads := pos :: (pos + 1) :: fields ++ p.reads, seen := pos :: p.seen }

def Recorded.interface (d : Recorded) (buf : Mem) (pos : Nat) : Recorded :=
  { d with ifaceClass := buf (pos + 5), ifaceSub := buf (pos + 6), ifaceProto := buf (pos + 7) }

def Recorded.endpoint (d : Recorded) (buf : Mem) (pos : Nat) : Recorded :=
  { d with epAddr := buf (pos + 2), epMps := (buf (pos + 4)).toNat ||| (buf (pos + 5)).toNat <<< 8, epInterval := buf (pos + 6) }

/-- `dtype == USB_DESC_INTERFACE`. -/
def IsInterface (buf : Mem) (pos : Nat) : Prop := (buf (pos + 1)).toNat = usbDescInterface

/-- `dtype == USB_DESC_ENDPOINT && dlen >= 7`. -/
def IsEndpoint (buf : Mem) (pos : Nat) : Prop := (buf (pos + 1)).toNat = usbDescEndpoint ∧ 7 ≤ (buf pos).toNat

/-- `(attr & 0x3) == 0x3 && (addr & 0x80)`. -/
def IsInterruptIn (buf : Mem) (pos : Nat) : Prop := (buf (pos + 3)).toNat &&& 0x3 = 0x3 ∧ (buf (pos + 2)).toNat &&& 0x80 ≠ 0

instance (buf : Mem) (pos : Nat) : Decidable (IsInterface buf pos) := inferInstanceAs (Decidable (_ = _))

instance (buf : Mem) (pos : Nat) : Decidable (IsEndpoint buf pos) := inferInstanceAs (Decidable (_ ∧ _))

instance (buf : Mem) (pos : Nat) : Decidable (IsInterruptIn buf pos) := inferInstanceAs (Decidable (_ ∧ _))

/-- `while (pos + 2 <= total_len)`. -/
def parseLoop (buf : Mem) (totalLen : Nat) : Nat → Nat → Bool → Recorded → Parse
  | 0, _, _, d => ⟨none, d, [], []⟩
  | fuel + 1, pos, hidIface, d =>
      if pos + 2 ≤ totalLen then
        let next := pos + (buf pos).toNat
        if (buf pos).toNat = 0 then ⟨none, d, [pos, pos + 1], [pos]⟩
        else if IsInterface buf pos ∧ 9 ≤ (buf pos).toNat then
          let hid := decide ((buf (pos + 5)).toNat = 3)
          (parseLoop buf totalLen fuel next hid (if hid then d.interface buf pos else d)).after pos [pos + 5, pos + 6, pos + 7]
        else if IsEndpoint buf pos ∧ hidIface then
          let fields := [pos + 2, pos + 3, pos + 4, pos + 5, pos + 6]
          if IsInterruptIn buf pos then ⟨some pos, d.endpoint buf pos, pos :: (pos + 1) :: fields, []⟩
          else (parseLoop buf totalLen fuel next hidIface d).after pos fields
        else (parseLoop buf totalLen fuel next hidIface d).after pos []
      else ⟨none, d, [], []⟩

def parseDesc (d : Recorded) (buf : Mem) (totalLen : Nat) : Parse := parseLoop buf totalLen totalLen 0 false d

def lastInterface (buf : Mem) : List Nat → Option Nat
  | [] => none
  | pos :: rest => (lastInterface buf rest).or (if IsInterface buf pos then some pos else none)

def IsHid (buf : Mem) (pos : Nat) : Prop := IsInterface buf pos ∧ 9 ≤ (buf pos).toNat ∧ (buf (pos + 5)).toNat = 3

/-- Only the buffer is read, and an endpoint that is recorded is an interrupt-IN endpoint descriptor within the buffer,
behind a HID interface descriptor that is the last interface descriptor in front of it. -/
structure ParsesRight (buf : Mem) (totalLen : Nat) (r : Parse) : Prop where
  reads : ∀ i ∈ r.reads, i < totalLen
  endpoint : ∀ pos, r.found = some pos → IsEndpoint buf pos ∧ IsInterruptIn buf pos ∧ pos + (buf pos).toNat ≤ totalLen ∧
    (r.device.epAddr = buf (pos + 2) ∧ r.device.epMps = (buf (pos + 4)).toNat ||| (buf (pos + 5)).toNat <<< 8 ∧
      r.device.epInterval = buf (pos + 6)) ∧
    ∃ iface, lastInterface buf r.seen = some iface ∧ IsHid buf iface

/-- The fields of the descriptors are within the buffer, up to the first interrupt-IN endpoint behind a HID
interface. That endpoint is within the buffer, and no interface descriptor that is too short stands in between.
`hidIface` is about the last interface that was long enough, and `short` tells whether another one has followed. -/
def ChainFits (buf : Mem) (totalLen : Nat) : Nat → Nat → Bool → Bool → Prop
  | 0, _, _, _ => True
  | fuel + 1, pos, hidIface, short =>
      pos + 2 ≤ totalLen → (buf pos).toNat ≠ 0 →
        if IsInterface buf pos then
          if 9 ≤ (buf pos).toNat then
            pos + 8 ≤ totalLen ∧ ChainFits buf totalLen fuel (pos + (buf pos).toNat) (decide ((buf (pos + 5)).toNat = 3)) false
          else ChainFits buf totalLen fuel (pos + (buf pos).toNat) hidIface true
        else if IsEndpoint buf pos ∧ hidIface then
          pos + 7 ≤ totalLen ∧
            if IsInterruptIn buf pos then pos + (buf pos).toNat ≤ totalLen ∧ short = false
            else ChainFits buf totalLen fuel (pos + (buf pos).toNat) hidIface short
        else ChainFits buf totalLen fuel (pos + (buf pos).toNat) hidIface short

instance decidableChainFits (buf : Mem) (totalLen : Nat) :
    (fuel pos : Nat) → (hidIface short : Bool) → Decidable (ChainFits buf totalLen fuel pos hidIface short)
  | 0, _, _, _ => .isTrue trivial
  | fuel + 1, pos, _, _ =>
      have : ∀ next hidIface short, Decidable (ChainFits buf totalLen fuel next hidIface short) := decidableChainFits buf totalLen fuel
      inferInstanceAs (Decidable (pos + 2 ≤ totalLen → (buf pos).toNat ≠ 0 → ite _ _ _))

section
variable {buf : Mem} {totalLen pos : Nat} {last : Option Nat} {hidIface short : Bool} {r : Parse} {d : Recorded}

/-- The same in the middle of the chain, where `last` is the last interface descriptor so far. -/
structure RightFrom (buf : Mem) (totalLen : Nat) (last : Option Nat) (r : Parse) : Prop where
  reads : ∀ i ∈ r.reads, i < totalLen
  endpoint : ∀ pos, r.found = some pos → IsEndpoint buf pos ∧ IsInterruptIn buf pos ∧ pos + (buf pos).toNat ≤ totalLen ∧
    (r.device.epAddr = buf (pos + 2) ∧ r.device.epMps = (buf (pos + 4)).toNat ||| (buf (pos + 5)).toNat <<< 8 ∧
      r.device.epInterval = buf (pos + 6)) ∧
    ∃ iface, (lastInterface buf r.seen).or last = some iface ∧ IsHid buf iface

structure Tracks (buf : Mem) (hidIface short : Bool) (last : Option Nat) : Prop where
  tooShort : short = true → ∃ iface, last = some iface ∧ ¬ 9 ≤ (buf iface).toNat
  hid : short = false → hidIface = true → ∃ iface, last = some iface ∧ IsHid buf iface

theorem RightFrom.nothing (reads : ∀ i ∈ r.reads, i < totalLen) (none_ : r.found = none) : RightFrom buf totalLen last r :=
  ⟨reads, fun pos found => by rw [none_] at found; cases found⟩

theorem rightFrom_after (fields : List Nat) : RightFrom buf totalLen last (r.after pos fields) ↔
    (∀ i ∈ pos :: (pos + 1) :: fields, i < totalLen) ∧
      RightFrom buf totalLen ((if IsInterface buf pos then some pos else none).or last) r := by
  have seen : (lastInterface buf (r.after pos fields).seen).or last =
      (lastInterface buf r.seen).or ((if IsInterface buf pos then some pos else none).or last) := by
    rw [← Option.or_assoc]
    rfl
  constructor
  · intro right
    refine ⟨fun i member => right.reads i (List.mem_append_left _ member),
      fun i member => right.reads i (List.mem_append_right _ member), fun found same => ?_⟩
    have endpoint := right.endpoint found same
    rw [seen] at endpoint
    exact endpoint
  · rintro ⟨here, right⟩
    refine ⟨fun i member => ?_, fun found same => ?_⟩
    · rcases List.mem_append.mp member with first | rest
      · exact here i first
      · exact right.reads i rest
    · rw [seen]
      exact right.endpoint found same

theorem forall_fields {fields : List Nat} (inside : pos + 2 ≤ totalLen) :
    (∀ i ∈ pos :: (pos + 1) :: fields, i < totalLen) ↔ ∀ i ∈ fields, i < totalLen := by
  rw [List.forall_mem_cons, List.forall_mem_cons]
  exact ⟨fun all => all.2.2, fun all => ⟨by omega, by omega, all⟩⟩

theorem interface_fields : (∀ i ∈ [pos + 5, pos + 6, pos + 7], i < totalLen) ↔ pos + 8 ≤ totalLen := by
  simp only [List.mem_cons, List.not_mem_nil, or_false, forall_eq_or_imp, forall_eq]
  omega

theorem endpoint_fields : (∀ i ∈ [pos + 2, pos + 3, pos + 4, pos + 5, pos + 6], i < totalLen) ↔ pos + 7 ≤ totalLen := by
  simp only [List.mem_cons, List.not_mem_nil, or_false, forall_eq_or_imp, forall_eq]
  omega

theorem Tracks.interface (here : IsInterface buf pos) (long : 9 ≤ (buf pos).toNat) :
    Tracks buf (decide ((buf (pos + 5)).toNat = 3)) false (some pos) :=
  ⟨fun tooShort => absurd tooShort (by decide), fun _ hid => ⟨pos, rfl, here, long, of_decide_eq_true hid⟩⟩

theorem Tracks.truncated (tooShort : ¬ 9 ≤ (buf pos).toNat) : Tracks buf hidIface true (some pos) :=
  ⟨fun _ => ⟨pos, rfl, tooShort⟩, fun long => absurd long (by decide)⟩

theorem rightFrom_found (tracks : Tracks buf true short last) (endpoint : IsEndpoint buf pos) (inside : pos + 2 ≤ totalLen)
    (interrupt : IsInterruptIn buf pos) :
    RightFrom buf totalLen last ⟨some pos, d.endpoint buf pos, pos :: (pos + 1) :: [pos + 2, pos + 3, pos + 4, pos + 5, pos + 6], []⟩ ↔
      pos + 7 ≤ totalLen ∧ pos + (buf pos).toNat ≤ totalLen ∧ short = false := by
  constructor
  · intro right
    obtain ⟨-, -, within, -, iface, found, hid⟩ := right.endpoint pos rfl
    have read := right.reads (pos + 6) (by simp)
    refine ⟨by omega, within, ?_⟩
    cases short with
    | false => rfl
    | true =>
      obtain ⟨iface', last_, tooShort⟩ := tracks.tooShort rfl
      have found : last = some iface := found
      rw [last_] at found
      cases found
      exact absurd hid.2.1 tooShort
  · rintro ⟨fields, within, rfl⟩
    refine ⟨(forall_fields inside).mpr (endpoint_fields.mpr fields), fun found same => ?_⟩
    cases same
    exact ⟨endpoint, interrupt, within, ⟨rfl, rfl, rfl⟩, tracks.hid rfl rfl⟩

theorem parseLoop_iff (fuel : Nat) (tracks : Tracks buf hidIface short last) :
    RightFrom buf totalLen last (parseLoop buf totalLen fuel pos hidIface d) ↔ ChainFits buf totalLen fuel pos hidIface short := by
  induction fuel generalizing pos hidIface short last d with
  | zero => exact ⟨fun _ => trivial, fun _ => .nothing (List.forall_mem_nil _) rfl⟩
  | succ fuel ih =>
    rw [parseLoop, ChainFits]
    by_cases inside : pos + 2 ≤ totalLen
    · rw [if_pos inside]
      dsimp only
      by_cases ended : (buf pos).toNat = 0
      · rw [if_pos ended]
        refine ⟨fun _ _ some_ => absurd ended some_, fun _ => .nothing ((forall_fields inside).mpr (List.forall_mem_nil _)) rfl⟩
      · rw [if_neg ended, imp_iff_right inside, imp_iff_right ended]
        by_cases iface : IsInterface buf pos
        · rw [if_pos iface]
          by_cases long : 9 ≤ (buf pos).toNat
          · rw [if_pos ⟨iface, long⟩, if_pos long, rightFrom_after, if_pos iface, forall_fields inside, Option.some_or,
              ih (Tracks.interface iface long), interface_fields]
          · have other : ¬ (IsEndpoint buf pos ∧ hidIface = true) := fun both => by
              unfold IsInterface at iface
              unfold IsEndpoint at both
              rw [iface] at both
              exact absurd both.1.1 (by decide)
            rw [if_neg fun both => long both.2, if_neg other, if_neg long, rightFrom_after, if_pos iface, forall_fields inside,
              Option.some_or, ih (Tracks.truncated long)]
            exact and_iff_right (List.forall_mem_nil _)
        · rw [if_neg fun both => iface both.1, if_neg iface]
          by_cases endpoint : IsEndpoint buf pos ∧ hidIface = true
          · rw [if_pos endpoint, if_pos endpoint]
            obtain ⟨endpoint, rfl⟩ := endpoint
            by_cases interrupt : IsInterruptIn buf pos
            · rw [if_pos interrupt, if_pos interrupt]
              exact rightFrom_found tracks endpoint inside interrupt
            · rw [if_neg interrupt, if_neg interrupt, rightFrom_after, if_neg iface, Option.none_or, forall_fields inside,
                endpoint_fields, ih tracks]
          · rw [if_neg endpoint, if_neg endpoint, rightFrom_after, if_neg iface, Option.none_or, forall_fields inside, ih tracks]
            exact and_iff_right (List.forall_mem_nil _)
    · rw [if_neg inside]
      exact ⟨fun _ within => absurd within inside, fun _ => .nothing (List.forall_mem_nil _) rfl⟩

theorem parseLoop_fuel {fuel : Nat} (enough : totalLen ≤ pos + fuel) :
    parseLoop buf totalLen (fuel + 1) pos hidIface d = parseLoop buf totalLen fuel pos hidIface d := by
  induction fuel generalizing pos hidIface d with
  | zero => rw [parseLoop, parseLoop, if_neg (by omega)]
  | succ fuel ih =>
    rw [parseLoop.eq_2, parseLoop.eq_2 buf totalLen pos hidIface d fuel]
    by_cases ended : (buf pos).toNat = 0
    · simp only [ended, if_true]
    · have next : totalLen ≤ pos + (buf pos).toNat + fuel := by omega
      simp only [ih next]

theorem parseConfigLoop_eq (buf : Mem) (totalLen fuel pos : Nat) (hidIface : Bool) (d : Recorded) :
    parseConfigLoop buf totalLen fuel pos hidIface d.ifaceProto.toNat =
      (parseLoop buf totalLen fuel pos hidIface d).found.map fun _ =>
        ((parseLoop buf totalLen fuel pos hidIface d).device.ifaceProto.toNat,
          (parseLoop buf totalLen fuel pos hidIface d).device.epAddr.toNat) := by
  induction fuel generalizing pos hidIface d with
  | zero => rfl
  | succ fuel ih =>
    rw [parseConfigLoop, parseLoop]
    by_cases inside : pos + 2 ≤ totalLen
    · rw [if_pos inside, if_pos inside]
      dsimp only
      by_cases ended : (buf pos).toNat = 0
      · rw [if_pos ended, if_pos ended]
        rfl
      rw [if_neg ended, if_neg ended]
      by_cases iface : IsInterface buf pos ∧ 9 ≤ (buf pos).toNat
      · rw [if_pos (show (buf (pos + 1)).toNat = usbDescInterface ∧ (buf pos).toNat ≥ 9 from iface), if_pos iface]
        by_cases hid : (buf (pos + 5)).toNat = 3
        · rw [if_pos hid, decide_eq_true hid, if_pos rfl]
          exact ih _ true (d.interface buf pos)
        · rw [if_neg hid, decide_eq_false hid, if_neg Bool.false_ne_true]
          exact ih _ false d
      rw [if_neg (show ¬ ((buf (pos + 1)).toNat = usbDescInterface ∧ (buf pos).toNat ≥ 9) from iface), if_neg iface]
      by_cases endpoint : IsEndpoint buf pos ∧ hidIface = true
      · obtain ⟨endpoint, rfl⟩ := endpoint
        rw [if_pos (show (buf (pos + 1)).toNat = usbDescEndpoint ∧ (buf pos).toNat ≥ 7 ∧ true = true from ⟨endpoint.1, endpoint.2, rfl⟩),
          if_pos (show IsEndpoint buf pos ∧ true = true from ⟨endpoint, rfl⟩)]
        by_cases interrupt : IsInterruptIn buf pos
        · rw [if_pos (show (buf (pos + 3)).toNat &&& 0x3 = 0x3 ∧ (buf (pos + 2)).toNat &&& 0x80 ≠ 0 from interrupt), if_pos interrupt]
          rfl
        · rw [if_neg (show ¬ ((buf (pos + 3)).toNat &&& 0x3 = 0x3 ∧ (buf (pos + 2)).toNat &&& 0x80 ≠ 0) from interrupt), if_neg interrupt]
          exact ih _ true d
      · rw [if_neg (show ¬ ((buf (pos + 1)).toNat = usbDescEndpoint ∧ (buf pos).toNat ≥ 7 ∧ hidIface = true) from
          fun all => endpoint ⟨⟨all.1, all.2.1⟩, all.2.2⟩), if_neg endpoint]
        exact ih _ hidIface d
    · rw [if_neg inside, if_neg inside]
      rfl

end

/-- Parsing ends, and it is right if and only if the descriptors fit. -/
theorem parseDesc_iff (d : Recorded) (buf : Mem) (totalLen : Nat) :
    (∀ more, parseLoop buf totalLen (totalLen + more) 0 false d = parseDesc d buf totalLen) ∧
      (ParsesRight buf totalLen (parseDesc d buf totalLen) ↔ ChainFits buf totalLen totalLen 0 false false) := by
  constructor
  · intro more
    induction more with
    | zero => rfl
    | succ more ih => rw [← ih, ← Nat.add_assoc, parseLoop_fuel (by omega)]
  · have start : Tracks buf false false none := ⟨fun none_ => absurd none_ (by decide), fun _ none_ => absurd none_ (by decide)⟩
    rw [← parseLoop_iff totalLen start]
    constructor
    · intro right
      exact ⟨right.reads, fun pos found => by rw [Option.or_none]; exact right.endpoint pos found⟩
    · intro right
      refine ⟨right.reads, fun pos found => ?_⟩
      have endpoint := right.endpoint pos found
      rw [Option.or_none] at endpoint
      exact endpoint

def bufferOf (bytes : List UInt8) : Mem := fun i => (bytes[i]?).getD 0

def configDescriptor (totalLen : UInt8) : List UInt8 := [9, 2, totalLen, 0, 1, 1, 0, 0x80, 50]

def recordedZero : Recorded := ⟨0, 0, 0, 0, 0, 0⟩

/-- A total length of 11 ends in the interface descriptor, but its class is read at 14. With a total length of 20,
an endpoint of which only two bytes have been sent is recorded from what the memory holds behind them. In the last
configuration the descriptor of an interface of another class is too short. -/
theorem parseDesc_outside :
    ¬ ParsesRight (bufferOf (configDescriptor 11 ++ [9, 4])) 11
      (parseDesc recordedZero (bufferOf (configDescriptor 11 ++ [9, 4])) 11) ∧
    ¬ ParsesRight (bufferOf (configDescriptor 20 ++ [9, 4, 0, 0, 1, 3, 1, 1, 0, 7, 5, 0x81, 3, 8, 0, 10])) 20
      (parseDesc recordedZero (bufferOf (configDescriptor 20 ++ [9, 4, 0, 0, 1, 3, 1, 1, 0, 7, 5, 0x81, 3, 8, 0, 10])) 20) ∧
    ¬ ParsesRight (bufferOf (configDescriptor 33 ++ [9, 4, 0, 0, 1, 3, 1, 1, 0, 8, 4, 1, 0, 1, 8, 6, 80, 7, 5, 0x81, 3, 8, 0, 10])) 33
      (parseDesc recordedZero
        (bufferOf (configDescriptor 33 ++ [9, 4, 0, 0, 1, 3, 1, 1, 0, 8, 4, 1, 0, 1, 8, 6, 80, 7, 5, 0x81, 3, 8, 0, 10])) 33) := by
  refine ⟨fun right => ?_, fun right => ?_, fun right => ?_⟩
  · exact absurd (right.reads 14 (by decide +kernel)) (by decide)
  · exact absurd (right.endpoint 18 (by decide +kernel)).2.2.1 (by decide +kernel)
  · obtain ⟨iface, last, hid⟩ := (right.endpoint 26 (by decide +kernel)).2.2.2.2
    have short : lastInterface (bufferOf (configDescriptor 33 ++ [9, 4, 0, 0, 1, 3, 1, 1, 0, 8, 4, 1, 0, 1, 8, 6, 80, 7, 5, 0x81, 3, 8, 0, 10]))
        (parseDesc recordedZero
          (bufferOf (configDescriptor 33 ++ [9, 4, 0, 0, 1, 3, 1, 1, 0, 8, 4, 1, 0, 1, 8, 6, 80, 7, 5, 0x81, 3, 8, 0, 10])) 33).seen =
        some 18 := by decide +kernel
    rw [short] at last
    cases last
    exact absurd hid.2.1 (by decide +kernel)

end RexOs.Drivers
