import RexOs.Drivers.XhciHid

/-! What one look at the event ring does.

`Tracks` says that the driver finds the events in the order in which they were posted, `Shape` which
of the devices are present.
-/

set_option autoImplicit false

namespace RexOs.Drivers

open RexOs.Library

variable {s s' : HidState} {e : Event}

def Mode.addressed : Mode → Bool
  | .wait w _ => w.addressed
  | _ => false

def Wait.Configures : Wait → Trb → Prop
  | .configureEndpoint _, ev => ev.type = trbEventCmdCompletion ∧ ev.code = 1
  | _, _ => False

namespace HidState

structure Tracks (s : HidState) : Prop where
  laid : Laid ringTrbCount (s.posted.map (·.trb)) s.evtRing fun i => (s.evtRing i).cycleBit
  dequeue : s.evtDequeue = s.taken % ringTrbCount
  cycle : s.evtCycle = phaseOf ringTrbCount s.taken
  low : s.taken ≤ s.posted.length
  near : s.posted.length < s.taken + ringTrbCount
  reports : ∀ e ∈ s.posted, e.report = true → e.trb.type = trbEventTransfer

theorem start_tracks (cmdRingPhys : Nat) : (hidStart cmdRingPhys).Tracks := by
  have first : (1 : Nat) = phaseOf ringTrbCount 0 := by decide
  have room : 0 < 0 + ringTrbCount := by decide
  refine ⟨Laid.nil ?_, rfl, first, Nat.le_refl 0, room, ?_⟩
  · intro i _
    show 0 &&& 1 = 0
    decide
  · rintro e ⟨⟩

theorem Tracks.head (tracks : s.Tracks) : s.head = s.posted[s.taken]?.map (·.trb) := by
  obtain ⟨laid, dequeue, cycle, low, near, _⟩ := tracks
  have length : (s.posted.map (·.trb)).length = s.posted.length := List.length_map _
  have new := laid.new_iff (by decide) (length ▸ low) (length ▸ Nat.le_of_lt near)
  rw [← dequeue, ← cycle, length] at new
  rw [HidState.head]
  by_cases behind : s.taken < s.posted.length
  · have found := laid.read (length ▸ behind) (length ▸ near)
    rw [List.getElem?_map, ← dequeue] at found
    rw [found, if_neg (not_not.mpr (new.mpr behind))]
  · rw [List.getElem?_eq_none (Nat.le_of_not_lt behind), Option.map_none, if_pos (mt new.mp behind)]

theorem Tracks.post (tracks : s.Tracks) (may : s.MayPost e.trb)
    (report : e.report = true → e.trb.type = trbEventTransfer) : (s.post e).Tracks := by
  obtain ⟨laid, dequeue, cycle, low, near, reports⟩ := tracks
  obtain ⟨room, bit⟩ := may
  have length : (s.posted.map (·.trb)).length = s.posted.length := List.length_map _
  have here : (s.post e).evtRing (s.posted.length % ringTrbCount) = e.trb := Function.update_self _ _ _
  have there : ∀ i, i ≠ s.posted.length % ringTrbCount → (s.post e).evtRing i = s.evtRing i :=
    fun i other => Function.update_of_ne other _ _
  refine ⟨?_, dequeue, cycle, ?_, ?_, ?_⟩
  · show Laid ringTrbCount ((s.posted ++ [e]).map (·.trb)) _ _
    rw [List.map_append, List.map_singleton]
    apply laid.push (by decide)
    · rw [length, here]
    · intro i other
      exact there i (by rwa [length] at other)
    · rw [length, here, bit]
    · intro i _ other
      rw [there i (by rwa [length] at other)]
  · show s.taken ≤ (s.posted ++ [e]).length
    rw [List.length_append]
    exact Nat.le_add_right_of_le low
  · show (s.posted ++ [e]).length < s.taken + ringTrbCount
    rw [List.length_append]
    exact room
  · intro x member
    rcases List.mem_append.mp member with old | new
    · exact reports x old
    · rw [List.mem_singleton.mp new]
      exact report

theorem Tracks.consume (tracks : s.Tracks) (behind : s.taken < s.posted.length) : s.dequeue.Tracks := by
  obtain ⟨laid, place, cycle, low, near, reports⟩ := tracks
  have small : s.taken % ringTrbCount < ringTrbCount := Nat.mod_lt _ (by decide)
  have next : (s.taken + 1) % ringTrbCount = if s.evtDequeue + 1 ≥ ringTrbCount then 0 else s.evtDequeue + 1 := by
    rw [place, ← Nat.mod_add_mod]
    split
    · rw [show s.taken % ringTrbCount + 1 = ringTrbCount by omega, Nat.mod_self]
    · exact Nat.mod_eq_of_lt (by omega)
  refine ⟨laid, next.symm, ?_, behind, ?_, reports⟩
  · show (if s.evtDequeue + 1 ≥ ringTrbCount then s.evtCycle ^^^ 1 else s.evtCycle) = phaseOf ringTrbCount (s.taken + 1)
    rw [phaseOf_succ, next, ← cycle]
    by_cases last : s.evtDequeue + 1 ≥ ringTrbCount
    · rw [if_pos last, if_pos last, if_pos rfl]
    · rw [if_neg last, if_neg last, if_neg (Nat.succ_ne_zero _)]
  · show s.posted.length < s.taken + 1 + ringTrbCount
    omega

/-- A part of `enumerate_device`: only the device under enumeration changes, and the event ring stays. -/
structure Local (s s' : HidState) : Prop where
  ring : s'.evtRing = s.evtRing ∧ s'.evtDequeue = s.evtDequeue ∧ s'.evtCycle = s.evtCycle
  history : s'.posted = s.posted ∧ s'.taken = s.taken ∧ s'.outstanding = s.outstanding
  ndevs : s'.ndevs = s.ndevs
  devs : ∀ i, i ≠ s.ndevs → s'.devs i = s.devs i

namespace Local

theorem refl (s : HidState) : Local s s := ⟨⟨rfl, rfl, rfl⟩, ⟨rfl, rfl, rfl⟩, rfl, fun _ _ => rfl⟩

theorem mode (same : Local s s') (m : Mode) : Local s { s' with mode := m } := ⟨same.ring, same.history, same.ndevs, same.devs⟩

theorem setDev (same : Local s s') (f : HidDevice → HidDevice) : Local s (s'.setDev s'.ndevs f) := by
  refine ⟨same.ring, same.history, same.ndevs, ?_⟩
  intro i other
  rw [← same.ndevs] at other
  exact (Function.update_of_ne other _ _).trans (same.devs i (by rwa [same.ndevs] at other))

theorem ringDoorbell (same : Local s s') (slotId dci : Nat) : Local s (s'.ringDoorbell slotId dci) :=
  ⟨same.ring, same.history, same.ndevs, same.devs⟩

theorem submitContext (same : Local s s') (type : Nat) : Local s (s'.submitContext type) :=
  ⟨same.ring, same.history, same.ndevs, same.devs⟩

theorem controlIn (same : Local s s') (req value len bufPhys : Nat) : Local s (s'.controlIn req value len bufPhys) :=
  (same.setDev _).ringDoorbell _ _

end Local

section
variable (s) (i slotId dci type req value len bufPhys : Nat) (f : HidDevice → HidDevice) (w : Wait)

@[simp] theorem setDev_self : (s.setDev i f).devs i = f (s.devs i) := Function.update_self _ _ _

@[simp] theorem setDev_ndevs : (s.setDev i f).ndevs = s.ndevs := rfl

@[simp] theorem ringDoorbell_devs : (s.ringDoorbell slotId dci).devs = s.devs := rfl

@[simp] theorem submitContext_devs : (s.submitContext type).devs = s.devs := rfl

@[simp] theorem waitFor_devs : (s.waitFor w).devs = s.devs := rfl

@[simp] theorem controlIn_present : ((s.controlIn req value len bufPhys).devs s.ndevs).present = (s.devs s.ndevs).present := by
  rw [controlIn, ringDoorbell_devs, setDev_self]
  rfl

theorem queue_devs (j : Nat) : (s.hidQueueTransfer j).devs i = if i = j then (s.devs i).queueTransfer else s.devs i := by
  show Function.update s.devs j (s.devs j).queueTransfer i = _
  rw [Function.update_apply]
  split
  · rename_i same
    rw [same]
  · rfl

@[simp] theorem queue_present (j : Nat) : ((s.hidQueueTransfer j).devs i).present = (s.devs i).present := by
  rw [queue_devs]
  split <;> rfl

@[simp] theorem queue_key (j : Nat) : ((s.hidQueueTransfer j).devs i).key = (s.devs i).key := by
  rw [queue_devs]
  split <;> rfl

end

/-- `enumerate_device` ends, or goes on to wait. -/
inductive Goes (s s' : HidState) : Prop where
  | stops : Local s s' → s'.mode = .idle → (s'.devs s.ndevs).present = false → Goes s s'
  | waits {w : Wait} {looks : Nat} : Local s s' → s'.mode = .wait w looks → (s'.devs s.ndevs).present = w.addressed →
      Goes s s'

inductive Outcome (s s' : HidState) (w : Wait) (ev : Trb) : Prop where
  | goes : Goes s s' → ¬ w.Configures ev → Outcome s s' w ev
  | configured {s₁ : HidState} : w.Configures ev → Local s s₁ →
      (s₁.devs s.ndevs).key = (s.devs s.ndevs).key → (s₁.devs s.ndevs).present = true →
      s' = { s₁.hidQueueTransfer s₁.ndevs with mode := .idle, ndevs := s₁.ndevs + 1 } → Outcome s s' w ev

section
variable {w : Wait} {ev : Trb}

theorem Local.fails (same : Local s s') (present : w.addressed = false → (s'.devs s.ndevs).present = false) :
    Goes s (s'.enumerateFailed w) := by
  rw [enumerateFailed]
  split
  · refine Goes.stops ((same.setDev _).mode _) rfl ?_
    simp only [← same.ndevs, setDev_self]
  · rename_i unaddressed
    exact Goes.stops (same.mode _) rfl (present (Bool.eq_false_iff.mpr unaddressed))

theorem proceed_outcome (here : (s.devs s.ndevs).present = w.addressed) {slotId : Nat} (ends : w.Ends slotId ev)
    (dma : Mem) (frames : Nat → Nat) : Outcome s (s.proceed w ev dma frames) w ev := by
  have failed : Goes s (s.enumerateFailed w) := (Local.refl s).fails fun unaddressed => here.trans unaddressed
  cases w with
  | enableSlot =>
    rw [proceed]
    split
    · exact .goes failed id
    · dsimp only
      split
      · refine .goes (((Local.refl s).setDev _).fails ?_) id
        intro _
        simpa [Wait.addressed] using here
      · refine .goes (.waits (((((Local.refl s).setDev _).setDev _).submitContext _).mode _) rfl ?_) id
        simpa [Wait.addressed] using here
  | addressDevice =>
    rw [proceed]
    split
    · exact .goes failed id
    · refine .goes (.waits ((((Local.refl s).setDev _).controlIn _ _ _ _).mode _) rfl ?_) id
      rw [waitFor_devs]
      exact (controlIn_present (s.setDev s.ndevs _) _ _ _ _).trans (by rw [setDev_ndevs, setDev_self]; rfl)
  | deviceDescriptor bufPhys =>
    rw [proceed]
    split
    · exact .goes failed id
    · exact .goes (.waits (((Local.refl s).controlIn _ _ _ _).mode _) rfl (by simpa [Wait.addressed] using here)) id
  | configHeader bufPhys =>
    rw [proceed]
    split
    · exact .goes failed id
    · exact .goes (.waits (((Local.refl s).controlIn _ _ _ _).mode _) rfl (by simpa [Wait.addressed] using here)) id
  | configDescriptor totalLen configVal =>
    rw [proceed]
    split
    · exact .goes failed id
    · split
      · exact .goes failed id
      · refine .goes (.waits ((((Local.refl s).setDev _).ringDoorbell _ _).mode _) rfl ?_) id
        rw [waitFor_devs, ringDoorbell_devs, setDev_self]
        exact here
  | setConfiguration =>
    rw [proceed]
    split
    · exact .goes failed id
    · split
      · exact .goes failed id
      · exact .goes (.waits (((Local.refl s).submitContext _).mode _) rfl here) id
  | configureEndpoint ringPhys =>
    rw [proceed]
    split
    · rename_i code
      exact .goes failed fun configures => code configures.2
    · rename_i success
      refine .configured ⟨ends, not_not.mp success⟩ ((Local.refl s).setDev _) ?_ ?_ rfl
      · rw [setDev_self]
        rfl
      · rw [setDev_self]
        exact here

end

theorem lookWait_cases (tracks : s.Tracks) {w : Wait} (here : (s.devs s.ndevs).present = w.addressed) (looks : Nat)
    (dma : Mem) (frames : Nat → Nat) :
    Goes s (s.lookWait w looks dma frames) ∧ (looks = 0 ∨ s.posted[s.taken]? = none) ∨
      ∃ e l, looks = l + 1 ∧ s.posted[s.taken]? = some e ∧ Outcome s.dequeue (s.lookWait w looks dma frames) w e.trb := by
  cases looks with
  | zero => exact Or.inl ⟨(Local.refl s).fails fun unaddressed => here.trans unaddressed, Or.inl rfl⟩
  | succ l =>
    have head := tracks.head
    rw [lookWait]
    cases next : s.posted[s.taken]? with
    | none =>
      rw [next] at head
      rw [head]
      exact Or.inl ⟨.waits ((Local.refl s).mode _) rfl here, Or.inr rfl⟩
    | some e =>
      rw [next] at head
      rw [head]
      refine Or.inr ⟨e, l, rfl, rfl, ?_⟩
      dsimp only [Option.map_some]
      split
      · rename_i ends
        exact proceed_outcome (s := s.dequeue) here ends dma frames
      · rename_i others
        refine .goes (.waits ((Local.refl s.dequeue).mode _) rfl here) ?_
        cases w with
        | configureEndpoint => exact fun configures => others configures.1
        | _ => exact id

theorem lookPoll_cases (tracks : s.Tracks) (looks : Nat) :
    s.lookPoll looks = { s with mode := .idle } ∧ (looks = 0 ∨ s.posted[s.taken]? = none) ∨
      ∃ e l, looks = l + 1 ∧ s.posted[s.taken]? = some e ∧
        (s.owner e.trb = none ∧ s.lookPoll looks = { s.dequeue with mode := .poll l } ∨
          ∃ i, s.owner e.trb = some i ∧ s.lookPoll looks = { (s.hidQueueTransfer i).dequeue with mode := .poll l }) := by
  cases looks with
  | zero => exact Or.inl ⟨rfl, Or.inl rfl⟩
  | succ l =>
    have head := tracks.head
    rw [lookPoll]
    cases next : s.posted[s.taken]? with
    | none =>
      rw [next] at head
      rw [head]
      exact Or.inl ⟨rfl, Or.inr rfl⟩
    | some e =>
      rw [next] at head
      rw [head]
      refine Or.inr ⟨e, l, rfl, rfl, ?_⟩
      dsimp only [Option.map_some]
      cases owner : s.owner e.trb with
      | none => exact Or.inl ⟨rfl, rfl⟩
      | some i => exact Or.inr ⟨i, rfl, rfl⟩

/-- A device is present if it is configured, or it has its address and is being set up. -/
structure Shape (s : HidState) : Prop where
  few : s.ndevs ≤ maxUsbDevices
  room : ∀ w looks, s.mode = .wait w looks → s.ndevs < maxUsbDevices
  below : ∀ i < s.ndevs, (s.devs i).present = true
  here : (s.devs s.ndevs).present = s.mode.addressed
  above : ∀ i, s.ndevs < i → (s.devs i).present = false

theorem start_shape (cmdRingPhys : Nat) : (hidStart cmdRingPhys).Shape := by
  refine ⟨Nat.zero_le _, ?_, ?_, rfl, fun _ _ => rfl⟩
  · rintro w looks ⟨⟩
  · rintro i ⟨⟩

theorem Shape.waiting (shape : s.Shape) {w : Wait} {looks : Nat} (mode : s.mode = .wait w looks) :
    (s.devs s.ndevs).present = w.addressed := by
  have here := shape.here
  rwa [mode] at here

theorem Local.tracks (same : Local s s') (tracks : s.Tracks) : s'.Tracks := by
  obtain ⟨laid, dequeue, cycle, low, near, reports⟩ := tracks
  obtain ⟨⟨evtRing, evtDequeue, evtCycle⟩, ⟨posted, taken, _⟩, _, _⟩ := same
  constructor
  · rw [posted, evtRing]
    exact laid
  · rw [evtDequeue, taken]
    exact dequeue
  · rw [evtCycle, taken]
    exact cycle
  · rw [posted, taken]
    exact low
  · rw [posted, taken]
    exact near
  · rw [posted]
    exact reports

theorem Local.below (same : Local s s') {i : Nat} (small : i < s.ndevs) : s'.devs i = s.devs i :=
  same.devs i (Nat.ne_of_lt small)

theorem Goes.shape (goes : Goes s s') (shape : s.Shape) (room : s.ndevs < maxUsbDevices) : s'.Shape := by
  have few (same : Local s s') : s'.ndevs ≤ maxUsbDevices := by
    rw [same.ndevs]
    exact shape.few
  have below (same : Local s s') : ∀ i < s'.ndevs, (s'.devs i).present = true := by
    intro i small
    rw [same.ndevs] at small
    rw [same.below small]
    exact shape.below i small
  have above (same : Local s s') : ∀ i, s'.ndevs < i → (s'.devs i).present = false := by
    intro i large
    rw [same.ndevs] at large
    rw [same.devs i (Nat.ne_of_gt large)]
    exact shape.above i large
  cases goes with
  | stops same mode present =>
    refine ⟨few same, ?_, below same, ?_, above same⟩
    · intro w looks waits
      rw [mode] at waits
      cases waits
    · rw [mode, same.ndevs]
      exact present
  | waits same mode present =>
    refine ⟨few same, ?_, below same, ?_, above same⟩
    · intro _ _ _
      rw [same.ndevs]
      exact room
    · rw [mode, same.ndevs]
      exact present

theorem Goes.tracks (goes : Goes s s') (tracks : s.Tracks) : s'.Tracks := by
  cases goes with
  | stops same _ _ => exact same.tracks tracks
  | waits same _ _ => exact same.tracks tracks

theorem Outcome.shape {w : Wait} {ev : Trb} (outcome : Outcome s s' w ev) (shape : s.Shape) (room : s.ndevs < maxUsbDevices) :
    s'.Shape := by
  cases outcome with
  | goes goes _ => exact goes.shape shape room
  | @configured s₁ _ same _ present whole =>
    subst whole
    refine ⟨?_, ?_, ?_, ?_, ?_⟩
    · show s₁.ndevs + 1 ≤ maxUsbDevices
      rw [same.ndevs]
      exact room
    · rintro w looks ⟨⟩
    · intro i small
      rw [queue_present]
      rcases Nat.lt_succ_iff_lt_or_eq.mp small with old | new
      · rw [same.ndevs] at old
        rw [same.below old]
        exact shape.below i old
      · rw [new, same.ndevs]
        exact present
    · rw [queue_present]
      show (s₁.devs (s₁.ndevs + 1)).present = false
      rw [same.ndevs, same.devs _ (Nat.succ_ne_self _)]
      exact shape.above _ (Nat.lt_succ_self _)
    · intro i large
      have beyond : s.ndevs < i := by
        rw [← same.ndevs]
        exact Nat.lt_of_succ_lt large
      rw [queue_present, same.devs i (Nat.ne_of_gt beyond)]
      exact shape.above i beyond

theorem Outcome.tracks {w : Wait} {ev : Trb} (outcome : Outcome s s' w ev) (tracks : s.Tracks) : s'.Tracks := by
  cases outcome with
  | goes goes _ => exact goes.tracks tracks
  | configured _ same _ _ whole =>
    subst whole
    obtain ⟨laid, dequeue, cycle, low, near, reports⟩ := same.tracks tracks
    exact ⟨laid, dequeue, cycle, low, near, reports⟩

structure Inv (s : HidState) : Prop where
  tracks : s.Tracks
  shape : s.Shape

theorem inv_next (inv : s.Inv) (c : HidLabel) : (hidNext s c).Inv := by
  obtain ⟨tracks, shape⟩ := inv
  cases c with
  | post t =>
    rw [hidNext]
    split
    · rename_i may
      refine ⟨tracks.post (e := ⟨t, false⟩) may ?_, ⟨shape.few, shape.room, shape.below, shape.here, shape.above⟩⟩
      rintro ⟨⟩
    · exact ⟨tracks, shape⟩
  | report t =>
    rw [hidNext]
    dsimp only
    split
    · rename_i may
      obtain ⟨laid, dequeue, cycle, low, near, reports⟩ := tracks.post (e := ⟨t, true⟩) may.1 fun _ => may.2.1
      exact ⟨⟨laid, dequeue, cycle, low, near, reports⟩,
        ⟨shape.few, shape.room, shape.below, shape.here, shape.above⟩⟩
    · exact ⟨tracks, shape⟩
  | enumerate enabled =>
    rw [hidNext]
    split
    · rename_i may
      have same := (Local.refl s).setDev fun _ => HidDevice.zero
      have cleared : ((s.setDev s.ndevs fun _ => HidDevice.zero).devs s.ndevs).present = false := by
        rw [setDev_self]
        rfl
      have goes : Goes s (hidNext s (.enumerate enabled)) := by
        rw [hidNext, if_pos may]
        cases enabled with
        | false => exact .stops same may.1 cleared
        | true => exact .waits (⟨same.ring, same.history, same.ndevs, same.devs⟩) rfl cleared
      rw [hidNext, if_pos may] at goes
      exact ⟨goes.tracks tracks, goes.shape shape may.2⟩
    · exact ⟨tracks, shape⟩
  | poll =>
    rw [hidNext]
    split
    · rename_i mode
      have goes : (s.devs s.ndevs).present = false := by
        have here := shape.here
        rwa [mode] at here
      refine ⟨⟨tracks.laid, tracks.dequeue, tracks.cycle, tracks.low, tracks.near, tracks.reports⟩,
        ⟨shape.few, ?_, shape.below, goes, shape.above⟩⟩
      rintro w looks ⟨⟩
    · exact ⟨tracks, shape⟩
  | look dma frames =>
    rw [hidNext]
    cases mode : s.mode with
    | idle => exact ⟨tracks, shape⟩
    | wait w looks =>
      have room := shape.room w looks mode
      rcases lookWait_cases tracks (shape.waiting mode) looks dma frames with ⟨goes, _⟩ | ⟨e, l, _, found, outcome⟩
      · exact ⟨goes.tracks tracks, goes.shape shape room⟩
      · have consumed := tracks.consume (List.getElem?_eq_some_iff.mp found).1
        have shape' : s.dequeue.Shape := ⟨shape.few, shape.room, shape.below, shape.here, shape.above⟩
        exact ⟨outcome.tracks consumed, outcome.shape shape' room⟩
    | poll looks =>
      have absent : (s.devs s.ndevs).present = false := by
        have here := shape.here
        rwa [mode] at here
      rcases lookPoll_cases tracks looks with ⟨same, _⟩ | ⟨e, l, _, found, ⟨_, same⟩ | ⟨i, _, same⟩⟩
      · dsimp only
        rw [same]
        refine ⟨⟨tracks.laid, tracks.dequeue, tracks.cycle, tracks.low, tracks.near, tracks.reports⟩,
          ⟨shape.few, ?_, shape.below, absent, shape.above⟩⟩
        rintro w looks ⟨⟩
      · dsimp only
        rw [same]
        obtain ⟨laid, dequeue, cycle, low, near, reports⟩ := tracks.consume (List.getElem?_eq_some_iff.mp found).1
        refine ⟨⟨laid, dequeue, cycle, low, near, reports⟩, ⟨shape.few, ?_, shape.below, absent, shape.above⟩⟩
        rintro w looks ⟨⟩
      · dsimp only
        rw [same]
        obtain ⟨laid, dequeue, cycle, low, near, reports⟩ := tracks.consume (List.getElem?_eq_some_iff.mp found).1
        refine ⟨⟨laid, dequeue, cycle, low, near, reports⟩, ⟨shape.few, ?_, ?_, ?_, ?_⟩⟩
        · rintro w looks ⟨⟩
        · intro i' small
          exact (queue_present s i' i).trans (shape.below i' small)
        · exact (queue_present s s.ndevs i).trans absent
        · intro i' large
          exact (queue_present s i' i).trans (shape.above i' large)

end HidState

end RexOs.Drivers
