import RexOs.Library.SlotRing
import RexOs.Library.Run
import Mathlib.Data.List.Nodup
import Mathlib.Data.List.Perm.Basic

/-! The e1000 network card (`kernel/drivers/net/e1000.c`).

The card and the driver take steps in any order; an access of the driver to a descriptor or to a
tail register is one step. The card fills receive descriptors from its head on and stops at the
tail, where it drops frames, and it sends what is between the head and the tail of the other
ring. A frame fits into one buffer. Finding, resetting and programming the card are left out.
-/

set_option autoImplicit false

namespace RexOs.Drivers.E1000

open RexOs.Library

def e1000NumRxDesc : Nat := 32
def e1000NumTxDesc : Nat := 8

/-- `e1000_rx_desc_t`; the checksum, the errors and the VLAN tag are not looked at. -/
structure RxDesc where
  addr : Nat
  length : UInt16
  status : UInt8

/-- The next step of `e1000_rx_drain`, which does not run while it is `idle`. -/
inductive RxPhase where
  | idle
  | test
  | receive
  | clear
  | tail
  | advance
  deriving DecidableEq

/-- `accepted` and `delivered` list the frames that the card has stored and those that
`net_receive_frame` was called for. A buffer is known by its address. -/
structure Rx where
  rxDescs : Nat → RxDesc
  rxBuffers : Nat → Nat
  memory : Nat → List UInt8
  rxCur : Nat
  rdh : Nat
  rdt : Nat
  phase : RxPhase
  accepted : List (List UInt8)
  delivered : List (List UInt8)

/-- `bufs` are the frames that `pmm_alloc_frames` gave for the buffers. -/
def e1000InitRx (bufs : Nat → Nat) (memory : Nat → List UInt8) : Rx where
  rxDescs i := ⟨bufs i, 0, 0⟩
  rxBuffers := bufs
  memory := memory
  rxCur := 0
  rdh := 0
  rdt := e1000NumRxDesc - 1
  phase := .idle
  accepted := []
  delivered := []

/-- A frame comes in; the status is `DD | EOP`. -/
def Rx.arrive (s : Rx) (frame : List UInt8) : Rx :=
  if s.rdh = s.rdt then s
  else
    let desc := s.rxDescs s.rdh
    { s with
      memory := Function.update s.memory desc.addr (frame ++ (s.memory desc.addr).drop frame.length)
      rxDescs := Function.update s.rxDescs s.rdh { desc with length := UInt16.ofNat frame.length, status := 3 }
      rdh := (s.rdh + 1) % e1000NumRxDesc
      accepted := s.accepted ++ [frame] }

/-- One step of `e1000_rx_drain`. It is called with interrupts disabled, so not twice at a time. -/
def Rx.e1000RxDrain (s : Rx) : Rx :=
  match s.phase with
  | .idle => { s with phase := .test }
  | .test => { s with phase := if (s.rxDescs s.rxCur).status &&& 1 ≠ 0 then .receive else .idle }
  | .receive =>
      let data := (s.memory (s.rxBuffers s.rxCur)).take (s.rxDescs s.rxCur).length.toNat
      { s with delivered := s.delivered ++ [data], phase := .clear }
  | .clear =>
      { s with rxDescs := Function.update s.rxDescs s.rxCur { s.rxDescs s.rxCur with status := 0 }, phase := .tail }
  | .tail => { s with rdt := s.rxCur, phase := .advance }
  | .advance => { s with rxCur := (s.rxCur + 1) % e1000NumRxDesc, phase := .test }

inductive RxEvent where
  | frame (bytes : List UInt8)
  | drain

def Rx.after (s : Rx) : RxEvent → Rx
  | .frame bytes => s.arrive bytes
  | .drain => s.e1000RxDrain

def RxEvent.Fits : RxEvent → Prop
  | .frame bytes => bytes.length ≤ 8192
  | .drain => True

def RxStep (s : Rx) (e : RxEvent) (next : Rx) : Prop := e.Fits ∧ next = s.after e

def Rx.found (s : Rx) (i : Nat) : Option (List UInt8) :=
  if (s.rxDescs i).status &&& 1 ≠ 0 then some ((s.memory (s.rxBuffers i)).take (s.rxDescs i).length.toNat) else none

def Rx.front (s : Rx) : Nat :=
  if s.phase = .tail ∨ s.phase = .advance then (s.rxCur + 1) % e1000NumRxDesc else s.rxCur

/-- How many frames fit before the card stops. Between clearing a descriptor and moving the tail it is one less. -/
def Rx.room (s : Rx) : Nat := if s.phase = .tail then 30 else 31

structure RxOk (bufs : Nat → Nat) (s : Rx) (queue : List (List UInt8)) : Prop where
  buffers : s.rxBuffers = bufs
  addrs : ∀ i, (s.rxDescs i).addr = bufs i
  inside : s.rxCur < e1000NumRxDesc
  holds : SlotRing.Holds e1000NumRxDesc ⟨s.found, s.rdh, s.front⟩ (queue.map some)
  free : ∀ k, queue.length ≤ k → k < e1000NumRxDesc → s.found ((s.front + k) % e1000NumRxDesc) = none
  tail : s.rdt = (s.front + s.room) % e1000NumRxDesc
  few : queue.length ≤ s.room
  busy : s.phase = .receive ∨ s.phase = .clear → queue ≠ []
  account : s.accepted = s.delivered ++ (if s.phase = .clear then queue.tail else queue)

section
variable {bufs : Nat → Nat} {memory : Nat → List UInt8} {s next : Rx} {queue : List (List UInt8)}

theorem Rx.room_le (s : Rx) : s.room ≤ 31 := by
  unfold Rx.room
  split <;> decide

theorem rxOk_init : RxOk bufs (e1000InitRx bufs memory) [] where
  buffers := rfl
  addrs _ := rfl
  inside := Nat.zero_lt_succ 31
  holds := ⟨Nat.zero_lt_succ 31, Nat.zero_lt_succ 31, rfl, by simp⟩
  free _ _ _ := by simp [Rx.found, e1000InitRx]
  tail := rfl
  few := Nat.zero_le _
  busy phase := by rcases phase with phase | phase <;> cases phase
  account := rfl

theorem RxOk.stops_iff (ok : RxOk bufs s queue) : s.rdh = s.rdt ↔ queue.length = s.room := by
  have room := s.room_le
  have few := ok.few
  have next := ok.holds.next
  simp only [List.length_map] at next
  rw [next, ok.tail]
  constructor
  · exact SlotRing.mod_inj (by unfold e1000NumRxDesc; omega) (by unfold e1000NumRxDesc; omega)
  · intro same
    rw [same]

theorem RxOk.arrive (distinct : ∀ i < e1000NumRxDesc, ∀ j < e1000NumRxDesc, bufs i = bufs j → i = j)
    (ok : RxOk bufs s queue) {frame : List UInt8} (fits : frame.length ≤ 8192) (more : s.rdh ≠ s.rdt) :
    RxOk bufs (s.arrive frame) (queue ++ [frame]) := by
  have few := ok.few
  have room := s.room_le
  have less := mt ok.stops_iff.mpr more
  have next := ok.holds.next
  simp only [List.length_map] at next
  have small : s.rdh < e1000NumRxDesc := by
    rw [next]
    exact Nat.mod_lt _ (by decide)
  have length : (UInt16.ofNat frame.length).toNat = frame.length := by
    rw [UInt16.toNat_ofNat']
    omega
  -- the card writes to the buffer of one descriptor only
  have found : ∀ i < e1000NumRxDesc, (s.arrive frame).found i = Function.update s.found s.rdh (some frame) i := by
    intro i inside
    unfold Rx.arrive Rx.found
    rw [if_neg more]
    by_cases here : i = s.rdh
    · subst here
      simp only [Function.update_self, ok.buffers, ok.addrs, length, List.take_left]
      rfl
    · have apart : s.rxBuffers i ≠ (s.rxDescs s.rdh).addr := by
        rw [ok.buffers, ok.addrs]
        exact fun same => here (distinct i inside _ small same)
      simp only [Function.update_of_ne here, Function.update_of_ne apart]
  have put := ok.holds.put (by simp only [List.length_map, e1000NumRxDesc]; omega) (some frame)
  unfold Rx.arrive at found ⊢
  rw [if_neg more] at found ⊢
  refine { ok with addrs := ?_, holds := ?_, free := ?_, few := ?_, busy := ?_, account := ?_ }
  · intro i
    by_cases here : i = s.rdh
    · subst here
      simp only [Function.update_self, ok.addrs]
    · simp only [Function.update_of_ne here, ok.addrs]
  · rw [List.map_append, List.map_singleton]
    exact put.congr found
  · intro k behind inside
    rw [List.length_append, List.length_singleton] at behind
    have apart : (s.front + k) % e1000NumRxDesc ≠ s.rdh := by
      rw [next]
      intro same
      have := SlotRing.mod_inj inside (by unfold e1000NumRxDesc; omega) same
      omega
    exact (found _ (Nat.mod_lt _ (by decide))).trans ((Function.update_of_ne apart _ _).trans (ok.free k (by omega) inside))
  · rw [List.length_append, List.length_singleton]
    exact Nat.lt_of_le_of_ne few less
  · intro _
    simp
  · dsimp only
    rw [ok.account, List.append_assoc]
    split
    · rename_i clearing
      rw [List.tail_append_of_ne_nil (ok.busy (Or.inr clearing))]
    · rfl

/-- Steps that leave the descriptors alone, and free no slot. -/
theorem RxOk.move (ok : RxOk bufs s queue) (phase : RxPhase) (cur tail : Nat) (frames : List (List UInt8))
    (front : Rx.front { s with phase := phase, rxCur := cur } = s.front) (inside : cur < e1000NumRxDesc)
    (right : tail = (s.front + Rx.room { s with phase := phase }) % e1000NumRxDesc) (few : queue.length ≤ Rx.room { s with phase := phase })
    (busy : phase = .receive ∨ phase = .clear → queue ≠ [])
    (account : s.accepted = frames ++ (if phase = .clear then queue.tail else queue)) :
    RxOk bufs { s with phase := phase, rxCur := cur, rdt := tail, delivered := frames } queue where
  buffers := ok.buffers
  addrs := ok.addrs
  inside := inside
  holds := front ▸ ok.holds
  free := front ▸ ok.free
  tail := front ▸ right
  few := few
  busy := busy
  account := account

theorem RxOk.clear (ok : RxOk bufs s queue) (phase : s.phase = .clear) : ∃ rest, RxOk bufs
    { s with rxDescs := Function.update s.rxDescs s.rxCur { s.rxDescs s.rxCur with status := 0 }, phase := .tail } rest := by
  have front : s.front = s.rxCur := by simp [Rx.front, phase]
  have tail := ok.tail
  have few := ok.few
  have account := ok.account
  simp only [Rx.room, phase] at tail few account
  obtain ⟨frame, rest, rfl⟩ := List.exists_cons_of_ne_nil (ok.busy (Or.inr phase))
  rw [List.length_cons] at few
  have inside := ok.inside
  have found : Rx.found { s with rxDescs := Function.update s.rxDescs s.rxCur { s.rxDescs s.rxCur with status := 0 }, phase := .tail } =
      Function.update s.found s.rxCur none := by
    funext i
    by_cases here : i = s.rxCur
    · subst here
      simp [Rx.found]
    · simp only [Rx.found, Function.update_of_ne here]
  have released := ok.holds.release none
  simp only [front] at released
  refine ⟨rest, ok.buffers, ?_, inside, ?_, ?_, ?_, ?_, by simp, by simpa using account⟩
  · intro i
    by_cases here : i = s.rxCur
    · subst here
      simp only [Function.update_self, ok.addrs]
    · simp only [Function.update_of_ne here, ok.addrs]
  · rw [found]
    exact released
  · intro k behind small
    rw [found]
    show Function.update s.found s.rxCur none (((s.rxCur + 1) % e1000NumRxDesc + k) % e1000NumRxDesc) = none
    rw [Nat.mod_add_mod, Nat.add_assoc, Nat.add_comm 1]
    by_cases last : k + 1 = e1000NumRxDesc
    · rw [last, Nat.add_mod_right, Nat.mod_eq_of_lt inside, Function.update_self]
    · have none_ := ok.free (k + 1) (by rw [List.length_cons]; omega) (by omega)
      rw [front] at none_
      rcases eq_or_ne ((s.rxCur + (k + 1)) % e1000NumRxDesc) s.rxCur with here | apart
      · rw [here, Function.update_self]
      · rw [Function.update_of_ne apart, none_]
  · show s.rdt = ((s.rxCur + 1) % e1000NumRxDesc + 30) % e1000NumRxDesc
    rw [tail, front, Nat.mod_add_mod, Nat.add_assoc]
    rfl
  · show rest.length ≤ 30
    simp at few
    omega

theorem RxOk.drain (ok : RxOk bufs s queue) : ∃ queue', RxOk bufs s.e1000RxDrain queue' := by
  have inside := ok.inside
  have tail := ok.tail
  have few := ok.few
  have account := ok.account
  unfold Rx.e1000RxDrain
  cases phase : s.phase <;> dsimp only
  case clear => exact ok.clear phase
  all_goals simp only [Rx.room, phase] at tail few account
  case idle => exact ⟨queue, ok.move .test _ _ _ (by simp [Rx.front, phase]) inside tail few (by simp) account⟩
  case test =>
    have front : s.front = s.rxCur := by simp [Rx.front, phase]
    refine ⟨queue, ?_⟩
    by_cases done : (s.rxDescs s.rxCur).status &&& 1 ≠ 0
    · -- only the descriptors of frames that wait have the bit
      have some_ : queue ≠ [] := by
        rintro rfl
        have none_ := ok.free 0 (Nat.le_refl 0) (Nat.zero_lt_succ 31)
        rw [Nat.add_zero, front, Nat.mod_eq_of_lt inside, Rx.found, if_pos done] at none_
        cases none_
      simp only [if_pos done]
      exact ok.move .receive _ _ _ (by simp [Rx.front, phase]) inside tail few (fun _ => some_) account
    · simp only [if_neg done]
      exact ok.move .idle _ _ _ (by simp [Rx.front, phase]) inside tail few (by simp) account
  case receive =>
    have front : s.front = s.rxCur := by simp [Rx.front, phase]
    obtain ⟨frame, rest, rfl⟩ := List.exists_cons_of_ne_nil (ok.busy (Or.inl phase))
    have first := ok.holds.first
    simp only [front, Rx.found] at first
    split at first
    · simp only [Option.some.injEq] at first
      exact ⟨_, ok.move .clear _ _ _ (by simp [Rx.front, phase]) inside tail few (by simp) (by simp [first, account])⟩
    · cases first
  case tail =>
    refine ⟨queue, ok.move .advance _ _ _ (by simp [Rx.front, phase]) inside ?_ (Nat.le_trans few (Nat.le_succ 30)) (by simp) account⟩
    simp only [Rx.front, phase, Rx.room, e1000NumRxDesc] at inside ⊢
    simp
    omega
  case advance =>
    exact ⟨queue, ok.move .test _ _ _ (by simp [Rx.front, phase]) (Nat.mod_lt _ (Nat.zero_lt_succ 31)) tail few (by simp) account⟩

theorem RxOk.after (distinct : ∀ i < e1000NumRxDesc, ∀ j < e1000NumRxDesc, bufs i = bufs j → i = j)
    (ok : RxOk bufs s queue) {e : RxEvent} (step : RxStep s e next) : ∃ queue', RxOk bufs next queue' := by
  obtain ⟨fits, rfl⟩ := step
  cases e with
  | frame bytes =>
    by_cases more : s.rdh = s.rdt
    · simp only [Rx.after, Rx.arrive, if_pos more]
      exact ⟨queue, ok⟩
    · exact ⟨_, ok.arrive distinct fits more⟩
  | drain => exact ok.drain

/-- In any order of the steps of the card and of the driver, the frames that the card has stored are
handed over once each, unchanged and in order. At most 31 of them wait, none does when
`e1000_rx_drain` returns, and the card drops a frame only while 30 wait. -/
theorem rx_in_order (distinct : ∀ i < e1000NumRxDesc, ∀ j < e1000NumRxDesc, bufs i = bufs j → i = j)
    {events : List RxEvent} (run : Run RxStep (e1000InitRx bufs memory) events s) :
    s.delivered <+: s.accepted ∧ s.accepted.length ≤ s.delivered.length + 31 ∧
      (s.phase = .test → s.e1000RxDrain.phase = .idle → s.delivered = s.accepted) ∧
      (s.rdh = s.rdt → s.delivered.length + 30 ≤ s.accepted.length) := by
  obtain ⟨queue, ok⟩ := run.invariant (fun s => ∃ queue, RxOk bufs s queue) ⟨[], rxOk_init⟩
    fun s e next ok step => ok.elim fun queue ok => ok.after distinct step
  have few := ok.few
  have room := s.room_le
  have account := ok.account
  have size := congrArg List.length account
  rw [List.length_append] at size
  refine ⟨account ▸ List.prefix_append _ _, ?_, ?_, ?_⟩
  · split at size
    · rw [List.length_tail] at size
      omega
    · omega
  · intro test idle
    -- the loop ends at a descriptor that the card has not filled
    have none_ : s.found s.rxCur = none := by
      simp only [Rx.e1000RxDrain, test] at idle
      by_cases done : (s.rxDescs s.rxCur).status &&& 1 ≠ 0
      · rw [if_pos done] at idle
        cases idle
      · rw [Rx.found, if_neg done]
    have front : s.front = s.rxCur := by simp [Rx.front, test]
    have empty : queue = [] := by
      cases queue with
      | nil => rfl
      | cons frame rest =>
        have first : s.found s.front = some frame := ok.holds.first
        rw [front, none_] at first
        cases first
    rw [account, empty]
    simp
  · intro full
    have all := ok.stops_iff.mp full
    have room : 30 ≤ s.room := by
      unfold Rx.room
      split <;> decide
    split at size
    · rename_i clear
      have room : s.room = 31 := by simp [Rx.room, clear]
      rw [List.length_tail] at size
      omega
    · omega

end

def oneFrame : Rx :=
  [.frame [1, 2], .drain, .drain, .drain].foldl Rx.after (e1000InitRx (fun i => 8192 * (i + 1)) fun _ => [])

theorem oneFrame_fits : Allowed (fun _ e => e.Fits) Rx.after (e1000InitRx (fun i => 8192 * (i + 1)) fun _ => [])
    [.frame [1, 2], .drain, .drain, .drain] :=
  ⟨Nat.le_of_ble_eq_true rfl, trivial, trivial, trivial, trivial⟩

theorem rx_in_order_oneFrame : oneFrame.delivered = [[1, 2]] ∧ oneFrame.delivered <+: oneFrame.accepted :=
  ⟨rfl, (rx_in_order (fun i _ j _ same => by omega) (Run.exec oneFrame_fits)).1⟩

structure TxDesc where
  addr : Nat
  length : UInt16
  cmd : UInt8
  status : UInt8

abbrev Bounce := Nat × List UInt8

/-- `prepared` are the senders that have filled their buffers, `waiting` is the one that has
interrupts disabled, with its `old_cur`. `published` and `wire` list what was put into the ring
and what the card has sent. -/
structure Tx where
  txDescs : Nat → TxDesc
  memory : Nat → List UInt8
  txCur : Nat
  tdh : Nat
  tdt : Nat
  prepared : List Bounce
  waiting : Option (Bounce × Nat)
  published : List (List UInt8)
  wire : List (List UInt8)

def e1000InitTx (memory : Nat → List UInt8) : Tx := ⟨fun _ => ⟨0, 0, 0, 0⟩, memory, 0, 0, 0, [], none, [], []⟩

/-- `e1000_send_frame` in four parts; `reuse` is a write to a frame of memory that no sender has. -/
inductive TxEvent where
  | prepare (phys : Nat) (data : List UInt8)
  | publish (k : Nat)
  | sent
  | timeout
  | card
  | reuse (phys : Nat) (bytes : List UInt8)
  deriving DecidableEq

def Tx.write (s : Tx) (phys : Nat) (bytes : List UInt8) : Tx :=
  { s with memory := Function.update s.memory phys (bytes ++ (s.memory phys).drop bytes.length) }

def Tx.after (s : Tx) : TxEvent → Tx
  | .prepare phys data => { s.write phys data with prepared := s.prepared ++ [(phys, data)] }
  | .publish k =>
      match s.prepared[k]? with
      | none => s
      | some bounce =>
          { s with
            txDescs := Function.update s.txDescs s.txCur ⟨bounce.1, UInt16.ofNat bounce.2.length, 0x0B, 0⟩
            txCur := (s.txCur + 1) % e1000NumTxDesc
            tdt := (s.txCur + 1) % e1000NumTxDesc
            prepared := s.prepared.eraseIdx k
            waiting := some (bounce, s.txCur)
            published := s.published ++ [bounce.2] }
  | .sent => { s with waiting := none }
  | .timeout => { s with waiting := none }
  | .card =>
      if s.tdh = s.tdt then s
      else
        let desc := s.txDescs s.tdh
        { s with
          wire := s.wire ++ [(s.memory desc.addr).take desc.length.toNat]
          txDescs := Function.update s.txDescs s.tdh { desc with status := 1 }
          tdh := (s.tdh + 1) % e1000NumTxDesc }
  | .reuse phys bytes => s.write phys bytes

def Tx.senders (s : Tx) : List Bounce := (s.waiting.map Prod.fst).toList ++ s.prepared

def Tx.held (s : Tx) : List Nat := s.senders.map Prod.fst

/-- `pmm_alloc_frames` gives a frame that nobody has, and only one sender at a time disables interrupts. -/
def TxEvent.Allowed (s : Tx) : TxEvent → Prop
  | .prepare phys data => data.length ≤ 4096 ∧ phys ∉ s.held
  | .publish k => s.waiting = none ∧ k < s.prepared.length
  | .sent => ∃ w, s.waiting = some w ∧ (s.txDescs w.2).status ≠ 0
  | .timeout => ∃ w, s.waiting = some w ∧ (s.txDescs w.2).status = 0
  | .card => True
  | .reuse phys _ => phys ∉ s.held

def TxStep (s : Tx) (e : TxEvent) (next : Tx) : Prop := e.Allowed s ∧ next = s.after e

def Tx.Filled (s : Tx) (bounce : Bounce) : Prop :=
  bounce.2.length ≤ 4096 ∧ (s.memory bounce.1).take bounce.2.length = bounce.2

/-- The descriptor of the sender that waits has been sent, or is the only one in the ring. -/
def Tx.Waits (s : Tx) : Prop :=
  match s.waiting with
  | none => s.tdh = s.txCur ∧ s.wire = s.published
  | some (bounce, old) => s.txCur = (old + 1) % e1000NumTxDesc ∧ old < e1000NumTxDesc ∧
      ((s.tdh = s.txCur ∧ s.wire = s.published) ∨
        s.tdh = old ∧ s.published = s.wire ++ [bounce.2] ∧
          s.txDescs old = ⟨bounce.1, UInt16.ofNat bounce.2.length, 0x0B, 0⟩)

structure TxOk (s : Tx) : Prop where
  inside : s.txCur < e1000NumTxDesc
  tail : s.tdt = s.txCur
  distinct : s.held.Nodup
  filled : ∀ bounce ∈ s.senders, s.Filled bounce
  waits : s.Waits

def CalmStep (s : Tx) (e : TxEvent) (next : Tx) : Prop := e ≠ .timeout ∧ TxStep s e next

section
variable {s next : Tx} {memory : Nat → List UInt8}

theorem txOk_init : TxOk (e1000InitTx memory) where
  inside := Nat.zero_lt_succ 7
  tail := rfl
  distinct := List.nodup_nil
  filled _ member := absurd member List.not_mem_nil
  waits := ⟨rfl, rfl⟩

theorem Tx.Filled.write {bounce : Bounce} (filled : s.Filled bounce) (phys : Nat) (bytes : List UInt8)
    (apart : bounce.1 ≠ phys) : (s.write phys bytes).Filled bounce := by
  refine ⟨filled.1, ?_⟩
  show (Function.update s.memory phys _ bounce.1).take bounce.2.length = bounce.2
  rw [Function.update_of_ne apart]
  exact filled.2

theorem Tx.held_of_mem {bounce : Bounce} (member : bounce ∈ s.senders) : bounce.1 ∈ s.held := List.mem_map_of_mem member

theorem TxOk.prepare (ok : TxOk s) {phys : Nat} {data : List UInt8} (small : data.length ≤ 4096) (unused : phys ∉ s.held) :
    TxOk (s.after (.prepare phys data)) := by
  have senders : (s.after (.prepare phys data)).senders = s.senders ++ [(phys, data)] := (List.append_assoc _ _ _).symm
  refine ⟨ok.inside, ok.tail, ?_, ?_, ok.waits⟩
  · unfold Tx.held
    rw [senders, List.map_append]
    exact List.nodup_append.mpr ⟨ok.distinct, List.nodup_singleton _, fun a member b last same => by
      simp only [List.map_singleton, List.mem_singleton] at last
      exact unused (last ▸ same ▸ member)⟩
  · intro bounce member
    rw [senders, List.mem_append, List.mem_singleton] at member
    rcases member with member | rfl
    · exact (ok.filled bounce member).write phys data fun same => unused (same ▸ Tx.held_of_mem member)
    · refine ⟨small, ?_⟩
      show (Function.update s.memory phys _ phys).take data.length = data
      rw [Function.update_self, List.take_left]

theorem TxOk.publish (ok : TxOk s) (quiet : s.waiting = none) {k : Nat} (inside : k < s.prepared.length) :
    TxOk (s.after (.publish k)) := by
  have waits := ok.waits
  simp only [Tx.Waits, quiet] at waits
  have distinct := ok.distinct
  have filled := ok.filled
  simp only [Tx.held, Tx.senders, quiet, Option.map_none, Option.toList_none, List.nil_append] at distinct filled
  have order := List.getElem_cons_eraseIdx_perm inside
  simp only [Tx.after, List.getElem?_eq_getElem inside]
  refine ⟨Nat.mod_lt _ (Nat.zero_lt_succ 7), rfl, ((order.map Prod.fst).nodup_iff).mpr distinct, ?_, ?_⟩
  · exact fun bounce member => filled bounce (order.mem_iff.mp member)
  · exact ⟨rfl, ok.inside, Or.inr ⟨waits.1, by rw [waits.2], Function.update_self _ _ _⟩⟩

theorem TxOk.sent (ok : TxOk s) {bounce : Bounce} {old : Nat} (waiting : s.waiting = some (bounce, old))
    (done : (s.txDescs old).status ≠ 0) : s.tdh = s.txCur ∧ s.wire = s.published := by
  have waits := ok.waits
  simp only [Tx.Waits, waiting] at waits
  rcases waits.2.2 with all | ⟨_, _, desc⟩
  · exact all
  · rw [desc] at done
    exact absurd rfl done

theorem TxOk.card (ok : TxOk s) : TxOk (s.after .card) := by
  by_cases stop : s.tdh = s.tdt
  · simp only [Tx.after, if_pos stop]
    exact ok
  have waits := ok.waits
  rw [ok.tail] at stop
  unfold Tx.Waits at waits
  split at waits
  · exact absurd waits.1 stop
  · rename_i bounce old waiting
    obtain ⟨cur, inside, ⟨same, _⟩ | ⟨head, published, desc⟩⟩ := waits
    · exact absurd same stop
    · have filled := ok.filled bounce (by simp [Tx.senders, waiting])
      have length : (UInt16.ofNat bounce.2.length).toNat = bounce.2.length := by
        have := filled.1
        rw [UInt16.toNat_ofNat']
        omega
      -- the buffer still belongs to the sender that waits
      have out : (s.memory bounce.1).take (UInt16.ofNat bounce.2.length).toNat = bounce.2 := by rw [length, filled.2]
      simp only [Tx.after, ok.tail, if_neg stop]
      refine ⟨ok.inside, rfl, ok.distinct, ok.filled, ?_⟩
      simp only [Tx.Waits, waiting, head, desc, out, ← cur, published, inside, true_and, true_or]

theorem TxOk.after (ok : TxOk s) {e : TxEvent} (step : CalmStep s e next) : TxOk next := by
  obtain ⟨calm, allowed, rfl⟩ := step
  cases e with
  | prepare phys data => exact ok.prepare allowed.1 allowed.2
  | publish k => exact ok.publish allowed.1 allowed.2
  | sent =>
    obtain ⟨w, waiting, done⟩ := allowed
    have all := ok.sent waiting done
    have fewer : (s.after .sent).senders.Sublist s.senders := List.sublist_append_right _ _
    exact ⟨ok.inside, ok.tail, ok.distinct.sublist (fewer.map Prod.fst), fun bounce member => ok.filled bounce (fewer.subset member), all⟩
  | timeout => exact absurd rfl calm
  | card => exact ok.card
  | reuse phys bytes =>
    refine ⟨ok.inside, ok.tail, ok.distinct, ?_, ok.waits⟩
    exact fun bounce member => (ok.filled bounce member).write phys bytes fun same => allowed (same ▸ Tx.held_of_mem member)

/-- As long as no call times out, the card sends the frames of all callers once each, unchanged and in the
order in which they were put into the ring, and a call returns 0 only after its frame was sent. -/
theorem tx_in_order {events : List TxEvent} (run : Run CalmStep (e1000InitTx memory) events s) :
    s.wire <+: s.published ∧ s.published.length ≤ s.wire.length + 1 ∧
      (s.waiting = none ∨ TxEvent.sent.Allowed s → s.wire = s.published) := by
  have ok := run.invariant TxOk txOk_init fun s e next ok step => ok.after step
  have waits := ok.waits
  unfold Tx.Waits at waits
  split at waits
  · exact ⟨waits.2 ▸ List.prefix_refl _, waits.2 ▸ Nat.le_succ _, fun _ => waits.2⟩
  · rename_i bounce old waiting
    refine ⟨?_, ?_, ?_⟩
    · rcases waits.2.2 with ⟨_, all⟩ | ⟨_, rest, _⟩
      · exact all ▸ List.prefix_refl _
      · exact rest ▸ List.prefix_append _ _
    · rcases waits.2.2 with ⟨_, all⟩ | ⟨_, rest, _⟩
      · exact all ▸ Nat.le_succ _
      · simp [rest]
    · rintro (none_ | ⟨w, same, done⟩)
      · rw [waiting] at none_
        cases none_
      · exact (ok.sent same done).2

def sentFrame : Tx := [.prepare 4096 [7], .publish 0, .card, .sent].foldl Tx.after (e1000InitTx fun _ => [])

theorem sentFrame_run : Run CalmStep (e1000InitTx fun _ => []) [.prepare 4096 [7], .publish 0, .card, .sent] sentFrame :=
  (((Run.nil.snoc ⟨TxEvent.noConfusion, ⟨Nat.le_of_ble_eq_true rfl, List.not_mem_nil⟩, rfl⟩).snoc
    ⟨TxEvent.noConfusion, ⟨rfl, Nat.zero_lt_one⟩, rfl⟩).snoc ⟨TxEvent.noConfusion, trivial, rfl⟩).snoc
    ⟨TxEvent.noConfusion, ⟨_, rfl, by decide⟩, rfl⟩

theorem tx_in_order_sentFrame : sentFrame.published = [[7]] ∧ sentFrame.wire = sentFrame.published :=
  ⟨rfl, (tx_in_order sentFrame_run).2.2 (Or.inl rfl)⟩

/-- A call that times out frees its buffer while the card still has the descriptor, so the card may send
whatever the next owner of that frame of memory writes there. -/
theorem timeout_sends_foreign (phys : Nat) (data foreign : List UInt8) (small : data.length ≤ 4096)
    (same : foreign.length = data.length) : ∃ events s, Run TxStep (e1000InitTx memory) events s ∧
      s.published = [data] ∧ s.wire = [foreign] := by
  have allowed : Allowed (fun s (e : TxEvent) => e.Allowed s) Tx.after (e1000InitTx memory)
      [.prepare phys data, .publish 0, .timeout, .reuse phys foreign, .card] :=
    ⟨⟨small, List.not_mem_nil⟩, ⟨rfl, Nat.zero_lt_one⟩, ⟨_, rfl, rfl⟩, List.not_mem_nil, trivial, trivial⟩
  refine ⟨_, _, Run.exec allowed, rfl, ?_⟩
  have length : (UInt16.ofNat data.length).toNat = foreign.length := by
    rw [UInt16.toNat_ofNat']
    omega
  have moves : ¬ 0 = (0 + 1) % e1000NumTxDesc := by decide
  simp [Tx.after, Tx.write, e1000InitTx, length, moves]

theorem timeout_sends_foreign_byte : ∃ events s, Run TxStep (e1000InitTx fun _ => []) events s ∧
    s.published = [[1]] ∧ s.wire = [[2]] :=
  timeout_sends_foreign 4096 [1] [2] (Nat.le_of_ble_eq_true rfl) rfl

end

end RexOs.Drivers.E1000
