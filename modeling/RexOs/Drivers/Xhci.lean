import RexOs.Library.PhaseRing
import RexOs.Library.Run
import Mathlib.Algebra.Group.Nat.Defs

/-! The rings on which the xHCI driver hands out TRBs (`kernel/drivers/usb/xhci.c`).

The stores of a submission reach the memory one after the other, and the controller may
look at the ring between any two of them. Words are natural numbers below `2 ^ 32`; no
operation of the driver leaves this range.
-/

set_option autoImplicit false

namespace RexOs.Drivers

open RexOs.Library

def ringTrbCount : Nat := 256
def trbSize : Nat := 16
def trbLink : Nat := 6

structure Trb where
  paramLo : Nat
  paramHi : Nat
  status : Nat
  control : Nat
  deriving DecidableEq, Repr

def Trb.cycleBit (t : Trb) : Nat := t.control &&& 1

def Trb.type (t : Trb) : Nat := t.control >>> 10 &&& 0x3F

def Trb.bare (t : Trb) : Trb := { t with control := t.control - t.cycleBit }

/-- A command ring or transfer ring with `enqueue` and `cycle` of its owner. -/
structure Ring where
  phys : Nat
  trbs : Nat → Trb
  enqueue : Nat
  cycle : Nat

def linkControl : Nat := trbLink <<< 10 ||| 1 <<< 1

def linkTrb (phys : Nat) : Trb := ⟨phys &&& 0xFFFFFFFF, phys >>> 32, 0, linkControl⟩

def ringSetup (phys : Nat) : Ring :=
  { phys := phys, trbs := fun i => if i = ringTrbCount - 1 then linkTrb phys else ⟨0, 0, 0, 0⟩
    enqueue := 0, cycle := 1 }

inductive Store where
  | paramLo (i value : Nat)
  | paramHi (i value : Nat)
  | status (i value : Nat)
  | control (i value : Nat)
  deriving DecidableEq, Repr

def Store.apply (trbs : Nat → Trb) : Store → Nat → Trb
  | .paramLo i value => Function.update trbs i { trbs i with paramLo := value }
  | .paramHi i value => Function.update trbs i { trbs i with paramHi := value }
  | .status i value => Function.update trbs i { trbs i with status := value }
  | .control i value => Function.update trbs i { trbs i with control := value }

/-- What a submission writes, in this order; at the end of the ring it hands over the link too. -/
def Ring.stores (r : Ring) (p0 p1 st ctl : Nat) : List Store :=
  [.paramLo r.enqueue p0, .paramHi r.enqueue p1, .status r.enqueue st, .control r.enqueue (ctl ||| r.cycle)] ++
    if r.enqueue + 1 ≥ ringTrbCount - 1 then [.control (ringTrbCount - 1) (linkControl ||| r.cycle)] else []

def Ring.advance (r : Ring) : Ring :=
  if r.enqueue + 1 ≥ ringTrbCount - 1 then { r with enqueue := 0, cycle := r.cycle ^^^ 1 }
  else { r with enqueue := r.enqueue + 1 }

def Ring.submit (r : Ring) (p0 p1 st ctl : Nat) : Ring :=
  { r.advance with trbs := (r.stores p0 p1 st ctl).foldl Store.apply r.trbs }

structure Xhci where
  cmdRing : Ring
  dbells : List (Nat × Nat)

def cmdSubmit (x : Xhci) (p0 p1 st ctlTypeFlags : Nat) : Xhci :=
  { cmdRing := x.cmdRing.submit p0 p1 st ctlTypeFlags, dbells := x.dbells ++ [(0, 0)] }

structure UsbDevice where
  epRing : Ring

def ringSubmit (d : UsbDevice) (p0 p1 st ctlTypeFlags : Nat) : UsbDevice :=
  { epRing := d.epRing.submit p0 p1 st ctlTypeFlags }

structure Consumer where
  index : Nat
  state : Nat
  taken : List Trb

def Consumer.look (phys : Nat) (trbs : Nat → Trb) (c : Consumer) : Option Consumer :=
  let t := trbs c.index
  if t.cycleBit ≠ c.state then none
  else if t.type = trbLink then
    some { c with
      index := ((t.paramHi <<< 32 ||| t.paramLo) - phys) / trbSize
      state := if t.control &&& 2 ≠ 0 then c.state ^^^ 1 else c.state }
  else some { c with index := c.index + 1, taken := c.taken ++ [t.bare] }

/-- `pending` are the stores of the submission that is under way. -/
structure RingState where
  ring : Ring
  pending : List Store
  consumer : Consumer
  submitted : List Trb

inductive RingLabel where
  | submit (t : Trb)
  | store
  | look

def Trb.Allowed (t : Trb) : Prop := t.cycleBit = 0 ∧ t.type ≠ trbLink

instance (t : Trb) : Decidable t.Allowed := inferInstanceAs (Decidable (_ ∧ _))

inductive RingStep (s : RingState) : RingLabel → RingState → Prop where
  | submit {t : Trb} : s.pending = [] → t.Allowed →
      s.submitted.length + 1 < s.consumer.taken.length + (ringTrbCount - 1) →
      RingStep s (.submit t)
        { s with
          ring := s.ring.advance, pending := s.ring.stores t.paramLo t.paramHi t.status t.control
          submitted := s.submitted ++ [t] }
  | store {first : Store} {rest : List Store} : s.pending = first :: rest →
      RingStep s .store { s with ring := { s.ring with trbs := first.apply s.ring.trbs }, pending := rest }
  | look {c : Consumer} : s.consumer.look s.ring.phys s.ring.trbs = some c →
      RingStep s .look { s with consumer := c }

def ringStart (phys : Nat) : RingState := ⟨ringSetup phys, [], ⟨0, 1, []⟩, []⟩

section
variable {s s' : RingState}

theorem run_stores (trbs : Nat → Trb) {stores : List Store} (pending : s.pending = stores) (memory : s.ring.trbs = trbs) :
    ∃ s', Run RingStep s (List.replicate stores.length .store) s' ∧ s'.pending = [] ∧
      s'.ring = { s.ring with trbs := stores.foldl Store.apply trbs } ∧ s'.submitted = s.submitted := by
  induction stores generalizing s trbs with
  | nil =>
    subst memory
    exact ⟨s, Run.nil, pending, rfl, rfl⟩
  | cons first rest ih =>
    subst memory
    obtain ⟨s', run, done, ring, same⟩ := ih (first.apply s.ring.trbs)
      (s := { s with ring := { s.ring with trbs := first.apply s.ring.trbs }, pending := rest }) rfl rfl
    exact ⟨s', Run.cons (.store pending) run, done, ring, same⟩

end

/-! `Serves` is about the memory and the consumer, for the TRBs that were handed over so
far. `Stage` says how far the submission that is under way has come.
-/

def lapSize : Nat := 255

theorem Trb.cycleBit_eq (t : Trb) : t.cycleBit = t.control % 2 := Nat.and_one_is_mod _

theorem Trb.type_eq (t : Trb) : t.type = t.control / 1024 % 64 := by
  rw [Trb.type, Nat.shiftRight_eq_div_pow]
  exact Nat.and_two_pow_sub_one_eq_mod _ 6

theorem or_bit {x bit : Nat} (even : x % 2 = 0) (small : bit < 2) : x ||| bit = x + bit := by
  obtain ⟨y, rfl⟩ := Nat.dvd_of_mod_eq_zero even
  exact (Nat.two_pow_add_eq_or_of_lt (i := 1) small y).symm

theorem Trb.Allowed.control {t : Trb} (allowed : t.Allowed) {bit : Nat} (small : bit < 2) :
    (t.control ||| bit) % 2 = bit ∧ (t.control ||| bit) - bit = t.control := by
  have even := allowed.1
  rw [t.cycleBit_eq] at even
  rw [or_bit even small]
  omega

theorem Trb.bare_type (t : Trb) : t.bare.type = t.type := by
  rw [Trb.type_eq, Trb.type_eq, Trb.bare, t.cycleBit_eq]
  show (t.control - t.control % 2) / 1024 % 64 = t.control / 1024 % 64
  omega

/-- Where the producer stands after `n` submissions. -/
structure Owned (r : Ring) (n : Nat) : Prop where
  enqueue : r.enqueue = n % lapSize
  cycle : r.cycle = phaseOf lapSize n

theorem Owned.advance {r : Ring} {n : Nat} (owned : Owned r n) : Owned r.advance (n + 1) := by
  obtain ⟨enqueue, cycle⟩ := owned
  rw [Ring.advance]
  by_cases wrap : r.enqueue + 1 ≥ ringTrbCount - 1
  · have last : (n + 1) % lapSize = 0 := by
      simp only [lapSize, ringTrbCount] at *
      omega
    rw [if_pos wrap]
    constructor
    · exact last.symm
    · show r.cycle ^^^ 1 = phaseOf lapSize (n + 1)
      rw [phaseOf_succ, if_pos last, cycle]
  · have inside : (n + 1) % lapSize = n % lapSize + 1 := by
      simp only [lapSize, ringTrbCount] at *
      omega
    rw [if_neg wrap]
    constructor
    · show r.enqueue + 1 = (n + 1) % lapSize
      rw [inside, enqueue]
    · rw [phaseOf_succ, if_neg (by omega)]
      exact cycle

def linkStores (n : Nat) : List Store :=
  if n % lapSize + 1 ≥ lapSize then [.control lapSize (linkControl ||| phaseOf lapSize n)] else []

theorem Owned.stores {r : Ring} {n : Nat} (owned : Owned r n) (t : Trb) :
    r.stores t.paramLo t.paramHi t.status t.control =
      [.paramLo (n % lapSize) t.paramLo, .paramHi (n % lapSize) t.paramHi, .status (n % lapSize) t.status] ++
        .control (n % lapSize) (t.control ||| phaseOf lapSize n) :: linkStores n := by
  rw [Ring.stores, owned.enqueue, owned.cycle]
  rfl

/-- A store to a word of TRB `e` that is not its control word. -/
def Store.Field (e : Nat) : Store → Prop
  | .paramLo i _ => i = e
  | .paramHi i _ => i = e
  | .status i _ => i = e
  | .control _ _ => False

variable {trbs : Nat → Trb} {e i : Nat} {w : Store}

theorem Store.apply_control (trbs : Nat → Trb) (i value : Nat) :
    (Store.control i value).apply trbs i = { trbs i with control := value } := Function.update_self i _ _

theorem Store.Field.there (field : w.Field e) (other : i ≠ e) : w.apply trbs i = trbs i := by
  cases w with
  | control => exact absurd field id
  | paramLo =>
    obtain rfl := field
    exact Function.update_of_ne other _ _
  | paramHi =>
    obtain rfl := field
    exact Function.update_of_ne other _ _
  | status =>
    obtain rfl := field
    exact Function.update_of_ne other _ _

theorem Store.Field.control (field : w.Field e) (i : Nat) : (w.apply trbs i).control = (trbs i).control := by
  by_cases here : i = e
  · subst here
    cases w with
    | control => exact absurd field id
    | paramLo =>
      obtain rfl := field
      rw [Store.apply, Function.update_self]
    | paramHi =>
      obtain rfl := field
      rw [Store.apply, Function.update_self]
    | status =>
      obtain rfl := field
      rw [Store.apply, Function.update_self]
  · rw [field.there here]

/-- The stores fill in all words of TRB `e` but the control word. -/
structure Fills (trbs : Nat → Trb) (e : Nat) (t : Trb) (fields : List Store) : Prop where
  field : ∀ w ∈ fields, w.Field e
  same : { fields.foldl Store.apply trbs e with control := t.control } = t

theorem Fills.tail {t : Trb} {fields : List Store} (fills : Fills trbs e t (w :: fields)) :
    Fills (w.apply trbs) e t fields :=
  ⟨fun w member => fills.field w (List.mem_cons_of_mem _ member), fills.same⟩

theorem fills_all (trbs : Nat → Trb) (e : Nat) (t : Trb) :
    Fills trbs e t [.paramLo e t.paramLo, .paramHi e t.paramHi, .status e t.status] := by
  constructor
  · intro w member
    simp only [List.mem_cons, List.not_mem_nil, or_false] at member
    rcases member with rfl | rfl | rfl <;> rfl
  · simp [Store.apply]

/-- The memory holds the TRBs `log`, of which the consumer has taken the first ones. -/
structure Serves (s : RingState) (log : List Trb) (laps : Nat) : Prop where
  laid : Laid lapSize log (fun i => (s.ring.trbs i).bare) fun i => (s.ring.trbs i).cycleBit
  link : s.ring.trbs lapSize = { linkTrb s.ring.phys with control := linkControl ||| laps % 2 }
  allowed : ∀ t ∈ log, t.Allowed
  taken : s.consumer.taken <+: log
  near : log.length < s.consumer.taken.length + lapSize
  place : s.consumer.index = s.consumer.taken.length % lapSize ∧ s.consumer.state = phaseOf lapSize s.consumer.taken.length ∨
    s.consumer.index = lapSize ∧ s.consumer.taken.length % lapSize = 0 ∧ 0 < s.consumer.taken.length ∧
      s.consumer.state = phaseOf lapSize (s.consumer.taken.length - 1)

/-- How far the submission has come: none is under way, words of the next TRB are missing, or
only the link has to be handed over. -/
inductive Stage (s : RingState) (log : List Trb) (laps : Nat) : Prop where
  | idle : s.pending = [] → s.submitted = log → Owned s.ring log.length → laps = log.length / lapSize → Stage s log laps
  | filling {t : Trb} {fields : List Store} : s.submitted = log ++ [t] → t.Allowed → Owned s.ring (log.length + 1) →
      laps = log.length / lapSize → log.length + 1 < s.consumer.taken.length + lapSize →
      s.pending = fields ++ .control (log.length % lapSize) (t.control ||| phaseOf lapSize log.length) ::
        linkStores log.length → Fills s.ring.trbs (log.length % lapSize) t fields → Stage s log laps
  | linking : s.submitted = log → Owned s.ring log.length → 0 < log.length → log.length % lapSize = 0 →
      laps + 1 = log.length / lapSize →
      s.pending = [.control lapSize (linkControl ||| phaseOf lapSize (log.length - 1))] → Stage s log laps

def Delivers (s : RingState) : Prop := ∃ log laps, Serves s log laps ∧ Stage s log laps

theorem ringStart_delivers (phys : Nat) : Delivers (ringStart phys) := by
  refine ⟨[], 0, ?_, Stage.idle rfl rfl ⟨rfl, rfl⟩ rfl⟩
  have first : (1 : Nat) = phaseOf lapSize 0 := by decide
  have room : 0 < 0 + lapSize := by decide
  refine ⟨Laid.nil ?_, rfl, nofun, List.nil_prefix, room, Or.inl ⟨rfl, first⟩⟩
  intro i inside
  have notLink : i ≠ ringTrbCount - 1 := Nat.ne_of_lt inside
  simp [ringStart, ringSetup, notLink, Trb.cycleBit]

variable {s s' : RingState}

theorem Delivers.submit (delivers : Delivers s) {t : Trb} (idle : s.pending = []) (allowed : t.Allowed)
    (room : s.submitted.length + 1 < s.consumer.taken.length + (ringTrbCount - 1)) :
    Delivers { s with
      ring := s.ring.advance, pending := s.ring.stores t.paramLo t.paramHi t.status t.control
      submitted := s.submitted ++ [t] } := by
  obtain ⟨log, laps, serves, stage⟩ := delivers
  cases stage with
  | filling _ _ _ _ _ pending =>
    rw [idle] at pending
    exact absurd (congrArg List.length pending) (by simp)
  | linking _ _ _ _ _ pending =>
    rw [idle] at pending
    cases pending
  | idle _ same owned count =>
    have memory : s.ring.advance.trbs = s.ring.trbs ∧ s.ring.advance.phys = s.ring.phys := by
      rw [Ring.advance]
      split <;> exact ⟨rfl, rfl⟩
    refine ⟨log, laps, ?_, ?_⟩
    · obtain ⟨laid, link, inLog, taken, near, place⟩ := serves
      rw [← memory.1] at laid link
      rw [← memory.2] at link
      exact ⟨laid, link, inLog, taken, near, place⟩
    · rw [same] at room
      refine Stage.filling (congrArg (· ++ [t]) same) allowed owned.advance count room (owned.stores t) ?_
      show Fills s.ring.advance.trbs _ t _
      rw [memory.1]
      exact fills_all _ _ _

theorem Serves.field {log : List Trb} {laps : Nat} (serves : Serves s log laps) {w : Store}
    (field : w.Field (log.length % lapSize)) (rest : List Store) :
    Serves { s with ring := { s.ring with trbs := w.apply s.ring.trbs }, pending := rest } log laps := by
  obtain ⟨laid, link, allowed, taken, near, place⟩ := serves
  have small : log.length % lapSize < lapSize := Nat.mod_lt _ (by decide)
  refine ⟨?_, ?_, allowed, taken, near, place⟩
  · apply laid.scratch
    · intro i other
      exact congrArg Trb.bare (field.there other)
    · intro i _
      show (w.apply s.ring.trbs i).control &&& 1 = _
      rw [field.control]
      rfl
  · show w.apply s.ring.trbs lapSize = _
    rw [field.there (by omega)]
    exact link

theorem Serves.hand {log : List Trb} {laps : Nat} (serves : Serves s log laps) {t : Trb} (allowed : t.Allowed)
    (fills : Fills s.ring.trbs (log.length % lapSize) t [])
    (room : log.length + 1 < s.consumer.taken.length + lapSize) (rest : List Store) :
    Serves { s with
      ring := { s.ring with
        trbs := (Store.control (log.length % lapSize) (t.control ||| phaseOf lapSize log.length)).apply s.ring.trbs }
      pending := rest } (log ++ [t]) laps := by
  obtain ⟨laid, link, inLog, taken, near, place⟩ := serves
  have small : log.length % lapSize < lapSize := Nat.mod_lt _ (by decide)
  obtain ⟨bit, rest'⟩ := allowed.control (phaseOf_lt lapSize log.length)
  have same := fills.same
  simp only [List.foldl_nil] at same
  have here : (Store.control (log.length % lapSize) (t.control ||| phaseOf lapSize log.length)).apply s.ring.trbs
      (log.length % lapSize) = { t with control := t.control ||| phaseOf lapSize log.length } := by
    rw [Store.apply_control]
    conv_rhs => rw [← same]
  have there : ∀ i, i ≠ log.length % lapSize →
      (Store.control (log.length % lapSize) (t.control ||| phaseOf lapSize log.length)).apply s.ring.trbs i =
        s.ring.trbs i := fun i other => Function.update_of_ne other _ _
  refine ⟨?_, ?_, ?_, ?_, ?_, place⟩
  · apply laid.push (by decide)
    · show Trb.bare (Store.apply _ (Store.control _ _) _) = t
      rw [here, Trb.bare, Trb.cycleBit_eq]
      simp only [bit, rest']
    · intro i other
      exact congrArg Trb.bare (there i other)
    · show Trb.cycleBit (Store.apply _ (Store.control _ _) _) = _
      rw [here, Trb.cycleBit_eq]
      exact bit
    · intro i _ other
      exact congrArg Trb.cycleBit (there i other)
  · show Store.apply _ (Store.control _ _) lapSize = _
    rw [there lapSize (by omega)]
    exact link
  · intro x member
    rcases List.mem_append.mp member with old | new
    · exact inLog x old
    · rw [List.mem_singleton.mp new]
      exact allowed
  · exact taken.trans (List.prefix_append _ _)
  · rw [List.length_append]
    exact room

theorem Delivers.store (delivers : Delivers s) {first : Store} {rest : List Store} (pending : s.pending = first :: rest) :
    Delivers { s with ring := { s.ring with trbs := first.apply s.ring.trbs }, pending := rest } := by
  obtain ⟨log, laps, serves, stage⟩ := delivers
  cases stage with
  | idle none_ =>
    rw [pending] at none_
    cases none_
  | @filling t fields same allowed owned count room todo fills =>
    rw [pending] at todo
    cases fields with
    | cons w fields =>
      rw [List.cons_append] at todo
      obtain ⟨rfl, rfl⟩ := List.cons.inj todo
      exact ⟨log, laps, serves.field (fills.field _ List.mem_cons_self) _,
        Stage.filling same allowed ⟨owned.enqueue, owned.cycle⟩ count room rfl fills.tail⟩
    | nil =>
      rw [List.nil_append] at todo
      obtain ⟨rfl, rfl⟩ := List.cons.inj todo
      have length : (log ++ [t]).length = log.length + 1 := by simp
      refine ⟨log ++ [t], laps, serves.hand allowed fills room _, ?_⟩
      rw [linkStores]
      by_cases last : log.length % lapSize + 1 ≥ lapSize
      · rw [if_pos last]
        have lapEnd : 0 < log.length + 1 ∧ (log.length + 1) % lapSize = 0 ∧ laps + 1 = (log.length + 1) / lapSize := by
          simp only [lapSize] at *
          omega
        obtain ⟨some_, whole, next⟩ := lapEnd
        rw [← length] at some_ whole next owned
        refine Stage.linking same ⟨owned.enqueue, owned.cycle⟩ some_ whole next ?_
        rw [length]
        rfl
      · rw [if_neg last]
        have inside : laps = (log.length + 1) / lapSize := by
          simp only [lapSize] at *
          omega
        rw [← length] at inside owned
        exact Stage.idle rfl same ⟨owned.enqueue, owned.cycle⟩ inside
  | linking same owned some_ whole next todo =>
    rw [pending] at todo
    obtain ⟨rfl, rfl⟩ := List.cons.inj todo
    refine ⟨log, laps + 1, ?_, Stage.idle rfl same ⟨owned.enqueue, owned.cycle⟩ next⟩
    obtain ⟨laid, link, allowed, taken, near, place⟩ := serves
    have there : ∀ i, i ≠ lapSize → ∀ x, (Store.control lapSize x).apply s.ring.trbs i = s.ring.trbs i :=
      fun i other x => Function.update_of_ne other _ _
    have bit : phaseOf lapSize (log.length - 1) = (laps + 1) % 2 := by
      simp only [lapSize, phaseOf] at *
      omega
    refine ⟨?_, ?_, allowed, taken, near, place⟩
    · obtain ⟨value, phase⟩ := laid
      constructor
      · intro k x found recent
        show Trb.bare (Store.apply _ (Store.control _ _) _) = x
        rw [there _ (Nat.ne_of_lt (Nat.mod_lt _ (by decide)))]
        exact value k x found recent
      · intro i inside
        show Trb.cycleBit (Store.apply _ (Store.control _ _) _) = _
        rw [there _ (Nat.ne_of_lt inside)]
        exact phase i inside
    · apply Eq.trans (Store.apply_control s.ring.trbs lapSize _)
      rw [link, bit]

theorem prefix_snoc {α : Type} {taken log : List α} {x : α} (behind : taken <+: log) (next : log[taken.length]? = some x) :
    taken ++ [x] <+: log := by
  obtain ⟨rest, rfl⟩ := behind
  cases rest with
  | nil =>
    rw [List.append_nil, List.getElem?_length] at next
    cases next
  | cons y rest =>
    rw [List.getElem?_append_right (Nat.le_refl _), Nat.sub_self, List.getElem?_cons_zero] at next
    obtain rfl := Option.some.inj next
    exact ⟨rest, List.append_assoc _ _ _⟩

theorem link_type (laps : Nat) : (linkControl ||| laps % 2) >>> 10 &&& 0x3F = trbLink ∧
    (linkControl ||| laps % 2) &&& 2 ≠ 0 ∧ (linkControl ||| laps % 2) &&& 1 = laps % 2 := by
  have both : ∀ bit < 2, (linkControl ||| bit) >>> 10 &&& 0x3F = trbLink ∧
      (linkControl ||| bit) &&& 2 ≠ 0 ∧ (linkControl ||| bit) &&& 1 = bit := by decide
  exact both _ (Nat.mod_lt _ (by decide))

theorem link_target (phys : Nat) : (phys >>> 32) <<< 32 ||| phys &&& 0xFFFFFFFF = phys := by
  have low : phys &&& 0xFFFFFFFF = phys % 2 ^ 32 := Nat.and_two_pow_sub_one_eq_mod phys 32
  rw [low, Nat.shiftRight_eq_div_pow, Nat.shiftLeft_eq, Nat.mul_comm,
    ← Nat.two_pow_add_eq_or_of_lt (Nat.mod_lt _ (Nat.two_pow_pos 32)), Nat.div_add_mod]

theorem Stage.look {log : List Trb} {laps : Nat} (stage : Stage s log laps) {c : Consumer}
    (more : s.consumer.taken.length ≤ c.taken.length) : Stage { s with consumer := c } log laps := by
  cases stage with
  | idle pending same owned count => exact Stage.idle pending same owned count
  | filling same allowed owned count room pending fills =>
    exact Stage.filling same allowed owned count (Nat.lt_of_lt_of_le room (Nat.add_le_add_right more _)) pending fills
  | linking same owned some_ whole next pending => exact Stage.linking same owned some_ whole next pending

theorem Serves.look_lap {log : List Trb} {laps : Nat} (serves : Serves s log laps)
    (place : s.consumer.index = s.consumer.taken.length % lapSize)
    (state : s.consumer.state = phaseOf lapSize s.consumer.taken.length) :
    s.consumer.look s.ring.phys s.ring.trbs = log[s.consumer.taken.length]?.map fun t =>
      { s.consumer with index := s.consumer.index + 1, taken := s.consumer.taken ++ [t] } := by
  obtain ⟨laid, link, allowed, taken, near, _⟩ := serves
  have low := taken.length_le
  have new := laid.new_iff (by decide) low (Nat.le_of_lt near)
  rw [← state] at new
  rw [Consumer.look, place]
  by_cases behind : s.consumer.taken.length < log.length
  · have found := laid.read behind near
    have kind := (allowed _ (List.mem_of_getElem? found)).2
    rw [Trb.bare_type] at kind
    simp only [new.mpr behind, ne_eq, not_true_eq_false, if_false, kind, found, Option.map_some]
  · have old := mt new.mp behind
    rw [List.getElem?_eq_none (Nat.le_of_not_lt behind)]
    simp only [old, ne_eq, not_false_eq_true, if_true, Option.map_none]

theorem Serves.look_link {log : List Trb} {laps : Nat} (serves : Serves s log laps) (place : s.consumer.index = lapSize) :
    s.consumer.look s.ring.phys s.ring.trbs = if laps % 2 = s.consumer.state then
      some { s.consumer with index := 0, state := s.consumer.state ^^^ 1 } else none := by
  obtain ⟨type, toggle, bit⟩ := link_type laps
  rw [Consumer.look, place, serves.link]
  simp only [Trb.cycleBit, Trb.type, type, toggle, bit, linkTrb, link_target, ne_eq, if_true, not_false_eq_true,
    Nat.sub_self, Nat.zero_div, ite_not]

theorem Delivers.look (delivers : Delivers s) {c : Consumer} (look : s.consumer.look s.ring.phys s.ring.trbs = some c) :
    Delivers { s with consumer := c } := by
  obtain ⟨log, laps, serves, stage⟩ := delivers
  rcases serves.place with ⟨place, state⟩ | ⟨place, whole, some_, state⟩
  · rw [serves.look_lap place state] at look
    obtain ⟨t, found, rfl⟩ := Option.map_eq_some_iff.mp look
    have length : (s.consumer.taken ++ [t]).length = s.consumer.taken.length + 1 := by simp
    refine ⟨log, laps, ?_, stage.look (by simp)⟩
    refine ⟨serves.laid, serves.link, serves.allowed, ?_, ?_, ?_⟩
    · exact prefix_snoc serves.taken found
    · have near := serves.near
      rw [length]
      omega
    · show s.consumer.index + 1 = (s.consumer.taken ++ [t]).length % lapSize ∧
          s.consumer.state = phaseOf lapSize (s.consumer.taken ++ [t]).length ∨
        s.consumer.index + 1 = lapSize ∧ (s.consumer.taken ++ [t]).length % lapSize = 0 ∧
          0 < (s.consumer.taken ++ [t]).length ∧
            s.consumer.state = phaseOf lapSize ((s.consumer.taken ++ [t]).length - 1)
      rw [length, place, state]
      simp only [lapSize, phaseOf]
      omega
  · rw [serves.look_link place] at look
    split at look
    · obtain rfl := Option.some.inj look
      refine ⟨log, laps, ?_, stage.look (Nat.le_refl _)⟩
      refine ⟨serves.laid, serves.link, serves.allowed, serves.taken, serves.near, Or.inl ⟨?_, ?_⟩⟩
      · show 0 = s.consumer.taken.length % lapSize
        rw [whole]
      · have next := phaseOf_succ lapSize (s.consumer.taken.length - 1)
        rw [Nat.sub_add_cancel some_, if_pos whole, ← state] at next
        exact next.symm
    · cases look

theorem Delivers.step (delivers : Delivers s) {l : RingLabel} (step : RingStep s l s') : Delivers s' := by
  cases step with
  | submit idle allowed room => exact delivers.submit idle allowed room
  | store pending => exact delivers.store pending
  | look look => exact delivers.look look

theorem delivers_of_run {phys : Nat} {labels : List RingLabel} (run : Run RingStep (ringStart phys) labels s) : Delivers s :=
  run.invariant Delivers (ringStart_delivers phys) fun _ _ _ delivers step => delivers.step step

theorem Stage.submitted {log : List Trb} {laps : Nat} (stage : Stage s log laps) : log <+: s.submitted := by
  cases stage with
  | idle _ same => exact ⟨[], by rw [List.append_nil, same]⟩
  | filling same => exact ⟨_, same.symm⟩
  | linking same => exact ⟨[], by rw [List.append_nil, same]⟩

/-- The consumer takes what was submitted, in order and each TRB once. -/
theorem taken_isPrefix_submitted {phys : Nat} {labels : List RingLabel} (run : Run RingStep (ringStart phys) labels s) :
    s.consumer.taken <+: s.submitted := by
  obtain ⟨log, laps, serves, stage⟩ := delivers_of_run run
  exact serves.taken.trans stage.submitted

theorem noop_taken : ∃ s labels, Run RingStep (ringStart 4096) labels s ∧
    s.consumer.taken = [⟨1, 2, 3, 23 <<< 10⟩] ∧ s.consumer.taken <+: s.submitted := by
  have begun : RingStep (ringStart 4096) (.submit ⟨1, 2, 3, 23 <<< 10⟩) _ := .submit rfl (by decide) (by decide)
  have stored := (((Run.nil.snoc begun).snoc (.store rfl)).snoc (.store rfl)).snoc (.store rfl)
  have taken := (stored.snoc (.store rfl)).snoc (.look rfl)
  exact ⟨_, _, taken, rfl, taken_isPrefix_submitted taken⟩

theorem look_of_behind {phys : Nat} {labels : List RingLabel} (run : Run RingStep (ringStart phys) labels s)
    (idle : s.pending = []) (behind : s.consumer.taken.length < s.submitted.length) :
    ∃ c, s.consumer.look s.ring.phys s.ring.trbs = some c := by
  obtain ⟨log, laps, serves, stage⟩ := delivers_of_run run
  cases stage with
  | filling _ _ _ _ _ pending =>
    rw [idle] at pending
    exact absurd (congrArg List.length pending) (by simp)
  | linking _ _ _ _ _ pending =>
    rw [idle] at pending
    cases pending
  | idle _ same _ count =>
    rw [same] at behind
    rcases serves.place with ⟨place, state⟩ | ⟨place, whole, some_, state⟩
    · rw [serves.look_lap place state, List.getElem?_eq_getElem behind]
      exact ⟨_, rfl⟩
    · have near := serves.near
      have toggled : laps % 2 = s.consumer.state := by
        rw [state, count]
        simp only [lapSize, phaseOf] at *
        omega
      rw [serves.look_link place, if_pos toggled]
      exact ⟨_, rfl⟩

theorem look_of_behind_noop : ∃ s labels c, Run RingStep (ringStart 4096) labels s ∧
    s.consumer.look s.ring.phys s.ring.trbs = some c := by
  have begun : RingStep (ringStart 4096) (.submit ⟨1, 2, 3, 23 <<< 10⟩) _ := .submit rfl (by decide) (by decide)
  have stored := ((((Run.nil.snoc begun).snoc (.store rfl)).snoc (.store rfl)).snoc (.store rfl)).snoc (.store rfl)
  obtain ⟨c, found⟩ := look_of_behind stored rfl (by decide)
  exact ⟨_, _, c, stored, found⟩

end RexOs.Drivers
