import RexOs.Drivers.XhciDevices

/-! Whether the HID devices stay alive.

A configured device is alive as long as one interrupt-IN transfer is outstanding or completed by an
event that was not consumed.
-/

set_option autoImplicit false

namespace RexOs.Drivers

open RexOs.Library

variable {s s' : HidState} {e : Event} {k : Key}

def Event.reports (e : Event) (k : Key) : Bool := e.report && e.key = k

namespace HidState

def pending (s : HidState) (k : Key) : Nat := (s.posted.drop s.taken).countP (·.reports k)

def transfers (s : HidState) (k : Key) : Nat := s.outstanding k + s.pending k

def Alive (s : HidState) : Prop := ∀ i < s.ndevs, s.transfers (s.devs i).key = 1

def Takes (s s' : HidState) (e : Event) : Prop := s.posted[s.taken]? = some e ∧ s'.taken = s.taken + 1

def Requeues (s s' : HidState) : Prop :=
  ∀ e, s.Takes s' e → e.report = true → ∀ i < s.ndevs, (s.devs i).key = e.key →
    s'.outstanding e.key = s.outstanding e.key + 1

def Keeps (s : HidState) (c : HidLabel) : Prop := (hidNext s c).Alive ∧ s.Requeues (hidNext s c)

def WaitFits (s : HidState) (w : Wait) (e : Event) : Prop :=
  (e.report = true → ∀ i < s.ndevs, (s.devs i).key ≠ e.key) ∧
    (w.Configures e.trb → s.transfers (s.devs s.ndevs).key = 0)

def Undisturbed (s : HidState) : HidLabel → Prop
  | .look _ _ =>
      match s.mode with
      | .wait w (_ + 1) => ∀ e, s.posted[s.taken]? = some e → s.WaitFits w e
      | .poll (_ + 1) => ∀ e, s.posted[s.taken]? = some e → ∀ i, s.owner e.trb = some i → e.report = true
      | _ => True
  | _ => True

theorem reports_iff : e.reports k = true ↔ e.report = true ∧ e.key = k := by
  rw [Event.reports, Bool.and_eq_true, decide_eq_true_iff]

theorem pending_taken (found : s.posted[s.taken]? = some e) (posted : s'.posted = s.posted) (taken : s'.taken = s.taken + 1)
    (k : Key) : s.pending k = s'.pending k + if e.reports k then 1 else 0 := by
  obtain ⟨inside, rfl⟩ := List.getElem?_eq_some_iff.mp found
  rw [pending, pending, posted, taken, List.drop_eq_getElem_cons inside, List.countP_cons]

theorem keeps_quiet (alive : s.Alive) (ndevs : s'.ndevs = s.ndevs) (keys : ∀ i < s.ndevs, (s'.devs i).key = (s.devs i).key)
    (transfers : ∀ k, s'.transfers k = s.transfers k) (taken : s'.taken = s.taken) : s'.Alive ∧ s.Requeues s' := by
  constructor
  · intro i small
    rw [ndevs] at small
    rw [keys i small, transfers]
    exact alive i small
  · rintro e ⟨_, more⟩
    omega

section
variable (found : s.posted[s.taken]? = some e) (posted : s'.posted = s.posted) (taken : s'.taken = s.taken + 1)
include found posted taken

theorem keeps_dropped (alive : s.Alive) (ndevs : s'.ndevs = s.ndevs)
    (keys : ∀ i < s.ndevs, (s'.devs i).key = (s.devs i).key) (outstanding : s'.outstanding = s.outstanding) :
    s'.Alive ∧ s.Requeues s' ↔ (e.report = true → ∀ i < s.ndevs, (s.devs i).key ≠ e.key) := by
  have count (k : Key) : s.transfers k = s'.transfers k + if e.reports k then 1 else 0 := by
    rw [transfers, transfers, outstanding, pending_taken found posted taken k, Nat.add_assoc]
  constructor
  · rintro ⟨alive', _⟩ report i small same
    have before := alive i small
    have after := alive' i (by rwa [ndevs])
    have hit : e.reports (s.devs i).key = true := reports_iff.mpr ⟨report, same.symm⟩
    rw [keys i small] at after
    rw [count, after, if_pos hit] at before
    omega
  · intro other
    constructor
    · intro i small
      rw [ndevs] at small
      have before := alive i small
      have miss : ¬ e.reports (s.devs i).key = true := fun hit =>
        other (reports_iff.mp hit).1 i small (reports_iff.mp hit).2.symm
      rw [count, if_neg miss] at before
      rw [keys i small]
      exact before
    · rintro e' ⟨found', _⟩ report i small same
      rw [found] at found'
      cases found'
      exact absurd same (other report i small)

theorem keeps_requeued (alive : s.Alive) (ndevs : s'.ndevs = s.ndevs)
    (keys : ∀ i < s.ndevs, (s'.devs i).key = (s.devs i).key) {j : Nat} (small : j < s.ndevs)
    (named : (s.devs j).key = e.key)
    (outstanding : s'.outstanding = Function.update s.outstanding (s.devs j).key (s.outstanding (s.devs j).key + 1)) :
    s'.Alive ∧ s.Requeues s' ↔ e.report = true := by
  have begun (k : Key) : s'.outstanding k = s.outstanding k + if e.key = k then 1 else 0 := by
    rw [outstanding, named, Function.update_apply]
    by_cases same : k = e.key
    · rw [if_pos same, if_pos same.symm, same]
    · rw [if_neg same, if_neg (Ne.symm same), Nat.add_zero]
  have count (k : Key) : s.transfers k + (if e.key = k then 1 else 0) = s'.transfers k + if e.reports k then 1 else 0 := by
    have := pending_taken found posted taken k
    rw [transfers, transfers, begun]
    omega
  constructor
  · rintro ⟨alive', _⟩
    have before := alive j small
    have after := alive' j (by rwa [ndevs])
    have both := count (s.devs j).key
    rw [keys j small] at after
    rw [if_pos named.symm, before, after] at both
    by_contra other
    rw [if_neg fun hit => other (reports_iff.mp hit).1] at both
    omega
  · intro report
    have kept (k : Key) : s'.transfers k = s.transfers k := by
      have both := count k
      by_cases same : e.key = k
      · rw [if_pos same, if_pos (reports_iff.mpr ⟨report, same⟩)] at both
        omega
      · rw [if_neg same, if_neg fun hit => same (reports_iff.mp hit).2] at both
        omega
    constructor
    · intro i small
      rw [ndevs] at small
      rw [keys i small, kept]
      exact alive i small
    · rintro e' ⟨found', _⟩ _ _ _ _
      rw [found] at found'
      cases found'
      rw [begun, if_pos rfl]

theorem keeps_configured (alive : s.Alive) (ndevs : s'.ndevs = s.ndevs + 1)
    (keys : ∀ i < s.ndevs + 1, (s'.devs i).key = (s.devs i).key) (other : e.report = false)
    (outstanding : s'.outstanding =
      Function.update s.outstanding (s.devs s.ndevs).key (s.outstanding (s.devs s.ndevs).key + 1)) :
    s'.Alive ∧ s.Requeues s' ↔ s.transfers (s.devs s.ndevs).key = 0 := by
  have count (k : Key) : s'.transfers k = s.transfers k + if (s.devs s.ndevs).key = k then 1 else 0 := by
    have miss : ¬ e.reports k = true := fun hit => absurd ((reports_iff.mp hit).1.symm.trans other) (by decide)
    have same := pending_taken found posted taken k
    rw [if_neg miss, Nat.add_zero] at same
    rw [transfers, transfers, outstanding, same, Function.update_apply]
    by_cases new : k = (s.devs s.ndevs).key
    · rw [if_pos new, if_pos new.symm, new]
      omega
    · rw [if_neg new, if_neg (Ne.symm new), Nat.add_zero]
  constructor
  · rintro ⟨alive', _⟩
    have after := alive' s.ndevs (by omega)
    rw [keys _ (Nat.lt_succ_self _), count, if_pos rfl] at after
    omega
  · intro none
    constructor
    · intro i small
      rw [ndevs] at small
      rw [keys i small, count]
      rcases Nat.lt_succ_iff_lt_or_eq.mp small with old | new
      · -- the endpoint of another device has a transfer
        have before := alive i old
        rw [if_neg fun same => by rw [same, before] at none; cases none]
        exact before
      · rw [new, none, if_pos rfl]
    · rintro e' ⟨found', _⟩ report _ _ _
      rw [found] at found'
      cases found'
      rw [other] at report
      cases report

end

theorem Local.quiet (same : Local s s') (alive : s.Alive) : s'.Alive ∧ s.Requeues s' := by
  have keys : ∀ i < s.ndevs, (s'.devs i).key = (s.devs i).key := by
    intro i small
    rw [same.below small]
  obtain ⟨_, ⟨posted, taken, outstanding⟩, ndevs, _⟩ := same
  refine keeps_quiet alive ndevs keys ?_ taken
  intro k
  rw [transfers, transfers, pending, pending, outstanding, posted, taken]

theorem Goes.local_ (goes : Goes s s') : Local s s' := by
  cases goes with
  | stops same _ _ => exact same
  | waits same _ _ => exact same

theorem post_transfers (low : s.taken ≤ s.posted.length) (e : Event) (k : Key) :
    (s.post e).pending k = s.pending k + if e.reports k then 1 else 0 := by
  show ((s.posted ++ [e]).drop s.taken).countP (·.reports k) = _
  rw [List.drop_append_of_le_length low, List.countP_append, List.countP_singleton]
  rfl

theorem keeps_wait (inv : s.Inv) (alive : s.Alive) {w : Wait} {looks : Nat} (mode : s.mode = .wait w looks) (dma : Mem)
    (frames : Nat → Nat) : s.Keeps (.look dma frames) ↔ s.Undisturbed (.look dma frames) := by
  have next : hidNext s (.look dma frames) = s.lookWait w looks dma frames := by rw [hidNext, mode]
  rw [Keeps, next, Undisturbed, mode]
  rcases lookWait_cases inv.tracks (inv.shape.waiting mode) looks dma frames with ⟨goes, last⟩ | ⟨e, l, rfl, found, outcome⟩
  · refine iff_of_true (goes.local_.quiet alive) ?_
    cases looks with
    | zero => exact trivial
    | succ l =>
      intro e found
      rw [last.resolve_left (Nat.succ_ne_zero l)] at found
      cases found
  · have event : (∀ e', s.posted[s.taken]? = some e' → s.WaitFits w e') ↔ s.WaitFits w e := by
      constructor
      · exact fun all => all e found
      · intro fits e' found'
        rw [found] at found'
        cases found'
        exact fits
    dsimp only
    rw [event, WaitFits]
    cases outcome with
    | goes goes other =>
      obtain ⟨_, ⟨posted, taken, outstanding⟩, ndevs, _⟩ := goes.local_
      have keys : ∀ i < s.ndevs, ((s.lookWait w (l + 1) dma frames).devs i).key = (s.devs i).key := by
        intro i small
        rw [goes.local_.below small]
        rfl
      rw [keeps_dropped found posted taken alive ndevs keys outstanding]
      exact (and_iff_left fun configures => absurd configures other).symm
    | @configured s₁ configures same key present whole =>
      have other : e.report = false := by
        cases report : e.report with
        | false => rfl
        | true =>
          have transfer := inv.tracks.reports e (List.mem_of_getElem? found) report
          cases w with
          | configureEndpoint => exact absurd (transfer.symm.trans configures.1) (by decide)
          | _ => exact configures.elim
      have keys : ∀ i < s.ndevs + 1, ((s.lookWait w (l + 1) dma frames).devs i).key = (s.devs i).key := by
        intro i small
        rw [whole, queue_key]
        rcases Nat.lt_succ_iff_lt_or_eq.mp small with old | new
        · rw [same.below old]
          rfl
        · rw [new]
          exact key
      obtain ⟨_, ⟨posted, taken, outstanding⟩, ndevs, _⟩ := same
      have queued : (s.lookWait w (l + 1) dma frames).outstanding =
          Function.update s.outstanding (s.devs s.ndevs).key (s.outstanding (s.devs s.ndevs).key + 1) := by
        rw [whole]
        show Function.update s₁.outstanding (s₁.devs s₁.ndevs).key (s₁.outstanding (s₁.devs s₁.ndevs).key + 1) = _
        rw [ndevs, outstanding]
        exact congrArg (fun k => Function.update s.outstanding k (s.outstanding k + 1)) key
      rw [keeps_configured found (by rw [whole]; exact posted) (by rw [whole]; exact taken) alive
        (by rw [whole]; exact congrArg (· + 1) ndevs) keys other queued]
      constructor
      · intro none
        refine ⟨fun report => ?_, fun _ => none⟩
        rw [other] at report
        cases report
      · exact fun fits => fits.2 configures

theorem owner_matches {ev : Trb} {i : Nat} (owner : s.owner ev = some i) : s.Matches ev i := by
  rw [HidState.owner] at owner
  split at owner
  · exact of_decide_eq_true (List.find?_some (p := fun i => decide (s.Matches ev i)) owner)
  · cases owner

theorem owner_none {ev : Trb} (transfer : ev.type = trbEventTransfer) (owner : s.owner ev = none) {i : Nat}
    (small : i < maxUsbDevices) : ¬ s.Matches ev i := by
  rw [HidState.owner, if_pos transfer] at owner
  have other := List.find?_eq_none.mp owner i (List.mem_range.mpr small)
  rwa [decide_eq_true_iff] at other

theorem Shape.configured (shape : s.Shape) {looks : Nat} (mode : s.mode = .poll looks) {i : Nat}
    (present : (s.devs i).present = true) : i < s.ndevs := by
  by_contra beyond
  rcases Nat.lt_or_eq_of_le (Nat.not_lt.mp beyond) with large | same
  · rw [shape.above i large] at present
    cases present
  · rw [← same, shape.here, mode] at present
    cases present

theorem keeps_poll (inv : s.Inv) (alive : s.Alive) {looks : Nat} (mode : s.mode = .poll looks) (dma : Mem)
    (frames : Nat → Nat) : s.Keeps (.look dma frames) ↔ s.Undisturbed (.look dma frames) := by
  have next : hidNext s (.look dma frames) = s.lookPoll looks := by rw [hidNext, mode]
  rw [Keeps, next, Undisturbed, mode]
  rcases lookPoll_cases inv.tracks looks with ⟨same, last⟩ | ⟨e, l, rfl, found, taken⟩
  · rw [same]
    refine iff_of_true (keeps_quiet alive rfl (fun _ _ => rfl) (fun _ => rfl) rfl) ?_
    cases looks with
    | zero => exact trivial
    | succ l =>
      intro e found
      rw [last.resolve_left (Nat.succ_ne_zero l)] at found
      cases found
  · have event : (∀ e', s.posted[s.taken]? = some e' → ∀ i, s.owner e'.trb = some i → e'.report = true) ↔
        ∀ i, s.owner e.trb = some i → e.report = true := by
      constructor
      · exact fun all => all e found
      · intro fits e' found'
        rw [found] at found'
        cases found'
        exact fits
    dsimp only
    rw [event]
    rcases taken with ⟨owner, same⟩ | ⟨i, owner, same⟩
    · rw [same, owner]
      refine Iff.trans (keeps_dropped found rfl rfl alive rfl (fun _ _ => rfl) rfl) ?_
      refine iff_of_true ?_ (by rintro i ⟨⟩)
      intro report i small key
      have transfer := inv.tracks.reports e (List.mem_of_getElem? found) report
      exact owner_none transfer owner (Nat.lt_of_lt_of_le small inv.shape.few) ⟨inv.shape.below i small, key⟩
    · obtain ⟨present, key⟩ := owner_matches owner
      have configured := inv.shape.configured mode present
      rw [same, owner]
      refine Iff.trans (keeps_requeued found rfl rfl alive rfl (fun i' _ => queue_key s i' i) configured key rfl) ?_
      constructor
      · exact fun report _ _ => report
      · exact fun all => all i rfl

theorem keeps_iff (inv : s.Inv) (alive : s.Alive) (c : HidLabel) : s.Keeps c ↔ s.Undisturbed c := by
  have same : s.Alive ∧ s.Requeues s := keeps_quiet alive rfl (fun _ _ => rfl) (fun _ => rfl) rfl
  cases c with
  | post t =>
    refine iff_of_true ?_ trivial
    rw [Keeps, hidNext]
    split
    · refine keeps_quiet alive rfl (fun _ _ => rfl) ?_ rfl
      intro k
      rw [transfers, post_transfers inv.tracks.low]
      rfl
    · exact same
  | report t =>
    refine iff_of_true ?_ trivial
    rw [Keeps, hidNext]
    dsimp only
    split
    · rename_i may
      refine keeps_quiet alive rfl (fun _ _ => rfl) ?_ rfl
      intro k
      have pending := post_transfers inv.tracks.low ⟨t, true⟩ k
      show Function.update s.outstanding (t.slot, t.endpoint) (s.outstanding (t.slot, t.endpoint) - 1) k +
        (s.post ⟨t, true⟩).pending k = s.transfers k
      rw [pending, transfers, Function.update_apply]
      have room := may.2.2
      by_cases here : k = (t.slot, t.endpoint)
      · have hit : Event.reports ⟨t, true⟩ k = true := reports_iff.mpr ⟨rfl, here.symm⟩
        rw [if_pos here, if_pos hit, here]
        omega
      · have miss : ¬ Event.reports ⟨t, true⟩ k = true := fun hit => here (reports_iff.mp hit).2.symm
        rw [if_neg here, if_neg miss, Nat.add_zero]
    · exact same
  | enumerate enabled =>
    refine iff_of_true ?_ trivial
    rw [Keeps, hidNext]
    split
    · have cleared := (Local.refl s).setDev fun _ => HidDevice.zero
      cases enabled with
      | false => exact cleared.quiet alive
      | true => exact Local.quiet ⟨cleared.ring, cleared.history, cleared.ndevs, cleared.devs⟩ alive
    · exact same
  | poll =>
    refine iff_of_true ?_ trivial
    rw [Keeps, hidNext]
    split
    · exact keeps_quiet alive rfl (fun _ _ => rfl) (fun _ => rfl) rfl
    · exact same
  | look dma frames =>
    cases mode : s.mode with
    | idle =>
      rw [Keeps, hidNext, Undisturbed, mode]
      exact iff_of_true same trivial
    | wait w looks => exact keeps_wait inv alive mode dma frames
    | poll looks => exact keeps_poll inv alive mode dma frames

end HidState

/-- In every run, the devices stay alive if and only if each event is for the loop that takes it. -/
theorem hid_stays_alive (cmdRingPhys : Nat) (labels : List HidLabel) :
    EachStep hidNext HidState.Keeps (hidStart cmdRingPhys) labels ↔
      EachStep hidNext HidState.Undisturbed (hidStart cmdRingPhys) labels := by
  apply eachStep_iff fun s => s.Inv ∧ s.Alive
  · exact fun s c both => HidState.keeps_iff both.1 both.2 c
  · exact fun s c both keeps => ⟨HidState.inv_next both.1 c, keeps.1⟩
  · refine ⟨⟨HidState.start_tracks cmdRingPhys, HidState.start_shape cmdRingPhys⟩, ?_⟩
    rintro i ⟨⟩

def commandDone : Trb := ⟨0, 0, 1 <<< 24, 1 <<< 24 ||| trbEventCmdCompletion <<< 10 ||| 1⟩

def transferDone (endpoint : Nat) : Trb := ⟨0, 0, 1 <<< 24, 1 <<< 24 ||| endpoint <<< 16 ||| trbEventTransfer <<< 10 ||| 1⟩

def keyboardConfig : Mem := fun a =>
  [9, 2, 25, 0, 1, 1, 0, 0, 0, 9, 4, 0, 0, 1, 3, 1, 1, 0, 7, 5, 0x81, 3, 8, 0, 10].getD a 0

def lookKeyboard : HidLabel := .look keyboardConfig fun i => 4096 * (i + 1)

/-- The keyboard is set up. A key is pressed while the next device waits for its slot. -/
def keyDuringSetup : List HidLabel :=
  .enumerate true :: ([commandDone, commandDone, transferDone 1, transferDone 1, transferDone 1, transferDone 1,
    commandDone].flatMap fun t => [.post t, lookKeyboard]) ++ [.enumerate true, .report (transferDone 3)]

theorem keyboard_lost : ¬ ∀ cmdRingPhys labels, EachStep hidNext HidState.Keeps (hidStart cmdRingPhys) labels := by
  intro all
  obtain ⟨alive, _⟩ := all 0 (keyDuringSetup ++ [lookKeyboard]) keyDuringSetup lookKeyboard [] rfl
  have lost : (hidNext (keyDuringSetup.foldl hidNext (hidStart 0)) lookKeyboard).ndevs = 1 ∧
      (hidNext (keyDuringSetup.foldl hidNext (hidStart 0)) lookKeyboard).transfers
        ((hidNext (keyDuringSetup.foldl hidNext (hidStart 0)) lookKeyboard).devs 0).key = 0 := by decide +kernel
  have one := alive 0 (by rw [lost.1]; decide)
  rw [lost.2] at one
  cases one

end RexOs.Drivers
