import RexOs.Library.RoundRobin
import RexOs.Sched.Histories

/-! The order in which tasks run.

Read from the running task on, the ring is a queue: a switch gives the turn to the next task and
puts the old one at its end, or drops it when it is dead.
-/

set_option autoImplicit false

namespace RexOs.Sched

open RexOs.Library

structure Transition where
  before : World
  event : Event
  after : World

def Follows (w : World) (tr : Transition) (next : World) : Prop :=
  tr.before = w ∧ tr.after = next ∧ Step w tr.event next

def Transition.Dispatches (tr : Transition) (t : Nat) : Prop :=
  ∃ rsp fuel newRsp, tr.event = .interrupt rsp ∧
    schedMaybeSwitch fuel tr.before.sched rsp = some (.switched newRsp tr.after.sched) ∧ tr.after.sched.current = t

def InRing (s : Scheduler) (t : Nat) : Prop := ∃ ring, Ring s.link s.head ring ∧ t ∈ ring

def Transition.turn (tr : Transition) : Option Nat :=
  if tr.after.sched.current = tr.before.sched.current then none else some tr.after.sched.current

section
variable {s : Scheduler} {ring dead q : List Nat} {exiting : Bool} {t : Nat}

theorem SchedOk.queue (ok : SchedOk s ring dead exiting) : ∃ q, Ring s.link s.current q ∧ q ~r ring := by
  obtain ⟨before, after, rfl⟩ := List.append_of_mem ok.current
  exact ⟨_, ok.cycle.rotate, List.isRotated_append⟩

theorem SchedOk.rotated (ok : SchedOk s ring dead exiting) (queue : Ring s.link s.current q) : q ~r ring := by
  obtain ⟨q', queue', rotated⟩ := ok.queue
  rw [queue.unique queue']
  exact rotated

theorem SchedOk.mem_queue (ok : SchedOk s ring dead exiting) (queue : Ring s.link s.current q) : t ∈ q ↔ t ∈ ring :=
  (ok.rotated queue).mem_iff

theorem SchedOk.inRing_iff (ok : SchedOk s ring dead exiting) : InRing s t ↔ t ∈ ring := by
  constructor
  · rintro ⟨ring', cycle, member⟩
    rw [ok.cycle.unique cycle]
    exact member
  · exact fun member => ⟨ring, ok.cycle, member⟩

theorem listInsert_turn (nonnull : s.head ≠ 0) (queue : Ring s.link s.current q) (inside : s.head ∈ q) (fresh : t ∉ q) :
    ∃ q', Ring (listInsert s t).link (listInsert s t).current q' ∧ Turn q none q' := by
  have linked : listInsert s t = (s.setNext t (s.link s.head)).setNext s.head t := by
    rw [listInsert, if_neg nonnull]
  have link : (listInsert s t).link = Function.update (Function.update s.link t (s.link s.head)) s.head t := by
    rw [linked]
    simp
  rw [link, linked]
  obtain ⟨before, after, rfl⟩ := List.append_of_mem inside
  have fresh' : t ∉ s.head :: (after ++ before) := by
    simp only [List.mem_append, List.mem_cons, not_or] at fresh ⊢
    exact ⟨fresh.2.1, fresh.2.2, fresh.1⟩
  have inserted := queue.rotate.insert fresh'
  cases before with
  | nil =>
    -- the running task is the head
    have here : s.current = s.head := queue.path.1
    refine ⟨s.head :: t :: after, ?_, ?_⟩
    · show Ring _ s.current _
      rw [here]
      simpa using inserted
    · have joined : Turn (s.head :: ([] ++ after)) none (s.head :: ([] ++ t :: after)) := .join (by simpa using fresh)
      exact joined
  | cons c before =>
    have here : s.current = c := queue.path.1
    subst here
    have rotated : Ring _ s.current (s.current :: before ++ (s.head :: t :: after)) := Ring.rotate inserted
    refine ⟨_, rotated, ?_⟩
    have joined : Turn (s.current :: ((before ++ [s.head]) ++ after)) none
        (s.current :: ((before ++ [s.head]) ++ t :: after)) := .join (by simpa using fresh)
    simpa using joined

theorem taskCreate_turn (ok : SchedOk s ring dead exiting) (queue : Ring s.link s.current q) (stack kernelCr3 : Nat)
    (fresh : t ≠ 0 → t ∉ ring) :
    ∃ q', Ring (taskCreate s t stack kernelCr3).link (taskCreate s t stack kernelCr3).current q' ∧ Turn q none q' := by
  unfold taskCreate
  split
  · exact ⟨q, queue, .idle⟩
  · rename_i some'
    have outside : t ∉ q := fun member => fresh (not_or.mp some').1 ((ok.mem_queue queue).mp member)
    apply listInsert_turn
    · exact ok.head_ne
    · rw [Scheduler.setTask_link]
      exact ⟨queue.nodup, queue.nonempty, queue.path.update outside⟩
    · exact (ok.mem_queue queue).mpr ok.cycle.head_mem
    · exact outside

theorem switch_turn (ok : SchedOk s ring dead exiting) (queue : Ring s.link s.current q) {fuel rsp newRsp : Nat}
    {next : Scheduler} (switched : schedMaybeSwitch fuel s rsp = some (.switched newRsp next)) :
    next.current ≠ s.current ∧ ∃ q', Ring next.link next.current q' ∧ Turn q (some next.current) q' := by
  rcases schedMaybeSwitch_inv ok switched with ⟨_, other⟩ | ⟨_, _, ⟨_, other⟩ | ⟨_, other⟩⟩ | ⟨_, others, _, left, same, way⟩
  · cases other
  · cases other
  · cases other
  cases same
  refine ⟨others, ?_⟩
  have link : (loadTask left s.current (s.link s.current)).link = left.link := Scheduler.setState_link left _ _
  rw [link]
  show ∃ q', Ring left.link (s.link s.current) q' ∧ Turn q (some (s.link s.current)) q'
  -- the queue has a second task, since the running one does not lead to itself
  obtain ⟨rest, rfl⟩ := queue.head_eq
  obtain ⟨first, last, rfl⟩ := (List.eq_nil_or_concat rest).resolve_left (by
    rintro rfl
    exact others queue.path.2)
  rw [List.concat_eq_append] at queue ⊢
  obtain ⟨n, rest, shape⟩ : ∃ n rest, first ++ [last] = n :: rest := List.exists_cons_of_ne_nil (by simp)
  have second : s.link s.current = n := by
    have path := queue.path.2
    rw [shape] at path
    exact path.1
  rcases way with ⟨_, rfl⟩ | ⟨_, buried⟩
  · rw [saveTask_link, second, shape]
    have queue' : Ring s.link s.current ([s.current] ++ n :: rest) := by
      rw [← shape]
      exact queue
    exact ⟨_, queue'.rotate, .next⟩
  · unfold buryTask at buried
    obtain ⟨mid, removed, rfl⟩ := Option.map_eq_some_iff.mp buried
    obtain ⟨p, _, member, apart, back, rfl, _⟩ := listRemove_current (ok.resched false) others removed
    have fields := (unlinkAfter_fields (s := { s with needResched := false }) apart others).1
    obtain rfl : p = last := by
      have inside : p ∈ (s.current :: first) ++ [last] := (ok.mem_queue queue).mpr member
      exact Ring.last_of_next queue inside back
    refine ⟨first ++ [p], ?_, ?_⟩
    · have removed := queue.remove_head 0
      show Ring ((unlinkAfter { s with needResched := false } p s.current).setNext s.current _).link _ _
      rw [Scheduler.setNext_link]
      apply removed.congr
      intro x inside
      have other : x ≠ s.current := by
        rintro rfl
        exact (List.nodup_cons.mp queue.nodup).1 inside
      rw [Function.update_of_ne other]
      exact congrFun fields x
    · rw [shape, second]
      exact .leave

end

section
variable {w next : World} {e : Event} {ring dead q : List Nat}

theorem step_turn (ok : WorldOk w ring dead) (queue : Ring w.sched.link w.sched.current q) (taken : Step w e next) :
    (∃ q', Ring next.sched.link next.sched.current q' ∧ Turn q (Transition.mk w e next).turn q') ∧
      ∀ t, (Transition.mk w e next).Dispatches t ↔ (Transition.mk w e next).turn = some t := by
  -- a step that leaves the running task alone, and is no switch
  have still : next.sched.current = w.sched.current →
      (∃ q', Ring next.sched.link next.sched.current q' ∧ Turn q none q') →
      (∀ rsp fuel newRsp, e = .interrupt rsp →
        schedMaybeSwitch fuel w.sched rsp ≠ some (.switched newRsp next.sched)) →
      (∃ q', Ring next.sched.link next.sched.current q' ∧ Turn q (Transition.mk w e next).turn q') ∧
        ∀ t, (Transition.mk w e next).Dispatches t ↔ (Transition.mk w e next).turn = some t := by
    intro same moved quiet
    have none' : (Transition.mk w e next).turn = none := if_pos same
    rw [none']
    refine ⟨moved, fun t => ⟨?_, nofun⟩⟩
    rintro ⟨rsp, fuel, newRsp, event, switched, _⟩
    exact absurd switched (quiet rsp fuel newRsp event)
  cases taken with
  | @create t stack kernelCr3 fresh =>
    apply still
    · unfold taskCreate listInsert
      split
      · rfl
      · split <;> rfl
    · exact taskCreate_turn ok.sched queue stack kernelCr3 fun _ member => fresh.1 ((ok.alive t).mp member)
    · exact fun _ _ _ event => nomatch event
  | @spawn t stack kernelCr3 userCr3 fresh =>
    have created := taskCreate_turn ok.sched queue stack kernelCr3 fun _ member => fresh.1 ((ok.alive t).mp member)
    have same : (taskCreate w.sched t stack kernelCr3).current = w.sched.current := by
      unfold taskCreate listInsert
      split
      · rfl
      · split <;> rfl
    have link : (taskSpawnUser w.sched t stack kernelCr3 userCr3).link = (taskCreate w.sched t stack kernelCr3).link ∧
        (taskSpawnUser w.sched t stack kernelCr3 userCr3).current = (taskCreate w.sched t stack kernelCr3).current := by
      unfold taskSpawnUser
      split
      · exact ⟨rfl, rfl⟩
      · refine ⟨?_, rfl⟩
        rw [Scheduler.setTask_link]
        exact Function.update_eq_self t (taskCreate w.sched t stack kernelCr3).link
    apply still
    · exact link.2.trans same
    · show ∃ q', Ring (taskSpawnUser w.sched t stack kernelCr3 userCr3).link
        (taskSpawnUser w.sched t stack kernelCr3 userCr3).current q' ∧ _
      rw [link.1, link.2]
      exact created
    · exact fun _ _ _ event => nomatch event
  | request => exact still rfl ⟨q, queue, .idle⟩ fun _ _ _ event => nomatch event
  | exit =>
    apply still rfl
    · refine ⟨q, ?_, .idle⟩
      show Ring (w.sched.setState w.sched.current .dead).link w.sched.current q
      rw [Scheduler.setState_link]
      exact queue
    · exact fun _ _ _ event => nomatch event
  | @stay rsp fuel s' kept =>
    have quiet : ∀ rsp' fuel' newRsp, Event.interrupt rsp = .interrupt rsp' →
        schedMaybeSwitch fuel' w.sched rsp' ≠ some (.switched newRsp s') := by
      intro rsp' fuel' newRsp event switched
      cases event
      rcases schedMaybeSwitch_inv ok.sched switched with ⟨_, other⟩ | ⟨_, _, ⟨_, other⟩ | ⟨_, other⟩⟩ | ⟨asked, others, _⟩
      · cases other
      · cases other
      · cases other
      rcases schedMaybeSwitch_inv ok.sched kept with ⟨notAsked, _⟩ | ⟨_, alone, _⟩ | ⟨_, _, _, _, other, _⟩
      · rw [asked] at notAsked
        cases notAsked
      · exact others alone
      · cases other
    rcases schedMaybeSwitch_cases ok.sched kept with
      ⟨_, same⟩ | ⟨_, _, same⟩ | ⟨_, _, other⟩ | ⟨_, _, _, _, _, other, _⟩
    · cases same
      exact still rfl ⟨q, queue, .idle⟩ quiet
    · cases same
      exact still rfl ⟨q, queue, .idle⟩ quiet
    · cases other
    · cases other
  | @switch rsp fuel newRsp s' switched =>
    have left : (w.leave s').sched = s' := by
      unfold World.leave
      dsimp only
      split <;> rfl
    obtain ⟨other, moved⟩ := switch_turn ok.sched queue switched
    have turn : (Transition.mk w (.interrupt rsp) (w.leave s')).turn = some s'.current := by
      rw [Transition.turn, left, if_neg other]
    rw [turn]
    refine ⟨by rw [left]; exact moved, fun t => ?_⟩
    constructor
    · rintro ⟨_, _, _, _, _, here⟩
      rw [← here]
      exact congrArg some (congrArg Scheduler.current left).symm
    · intro here
      cases here
      exact ⟨rsp, fuel, newRsp, rfl, by rw [left]; exact switched, congrArg Scheduler.current left⟩
  | pop =>
    have popped : (reaperPop w.sched).2.link = w.sched.link ∧ (reaperPop w.sched).2.current = w.sched.current := by
      unfold reaperPop
      split <;> exact ⟨rfl, rfl⟩
    apply still popped.2
    · show ∃ q', Ring (reaperPop w.sched).2.link (reaperPop w.sched).2.current q' ∧ _
      rw [popped.1, popped.2]
      exact ⟨q, queue, .idle⟩
    · exact fun _ _ _ event => nomatch event
  | @free t garbage held =>
    apply still rfl
    · refine ⟨q, ?_, .idle⟩
      show Ring (w.sched.setTask t garbage).link w.sched.current q
      have outside : t ∉ q := fun member => (ok.popped t held).1 ((ok.sched.mem_queue queue).mp member)
      rw [Scheduler.setTask_link]
      exact ⟨queue.nodup, queue.nonempty, queue.path.update outside⟩
    · exact fun _ _ _ event => nomatch event

end

section
variable {w w' : World} {trs : List Transition}

theorem run_ok (ok : ∃ ring dead, WorldOk w ring dead) (run : Run Follows w trs w') : ∃ ring dead, WorldOk w' ring dead := by
  refine run.invariant (fun w => ∃ ring dead, WorldOk w ring dead) ok ?_
  rintro state tr next ⟨ring, dead, ok⟩ ⟨_, _, taken⟩
  exact step_ok taken ok

theorem run_dispatches (ok : ∃ ring dead, WorldOk w ring dead) (run : Run Follows w trs w') {tr : Transition} (member : tr ∈ trs)
    (t : Nat) : tr.Dispatches t ↔ tr.turn = some t := by
  induction run with
  | nil => cases member
  | @snoc trs state next last before taken ih =>
    rcases List.mem_append.mp member with early | here
    · exact ih early
    · cases List.mem_singleton.mp here
      obtain ⟨ring, dead, okState⟩ := run_ok ok before
      obtain ⟨q, queue, _⟩ := okState.sched.queue
      obtain ⟨rfl, rfl, step⟩ := taken
      exact (step_turn okState queue step).2 t

theorem run_round {a x : Nat} (ok : ∃ ring dead, WorldOk w ring dead) (first : w.sched.current = a) (apart : x ≠ a)
    (inside : InRing w.sched x) (run : Run Follows w trs w') (quiet : ∀ tr ∈ trs, ¬ tr.Dispatches a)
    (stays : ∀ tr ∈ trs, InRing tr.after.sched a ∧ InRing tr.after.sched x) :
    ∃ q, Ring w'.sched.link w'.sched.current q ∧ Round a x q ((trs.map Transition.turn).count (some x)) := by
  induction run with
  | nil =>
    obtain ⟨ring, dead, ok⟩ := ok
    obtain ⟨q, queue, _⟩ := ok.sched.queue
    have member := (ok.sched.mem_queue queue).mpr (ok.sched.inRing_iff.mp inside)
    obtain ⟨rest, rfl⟩ := queue.head_eq
    refine ⟨_, queue, ?_⟩
    rw [first] at queue member ⊢
    exact .begin queue.nodup ((List.mem_cons.mp member).resolve_left apart)
  | @snoc trs state next tr before taken ih =>
    obtain ⟨q, queue, round⟩ := ih (fun tr member => quiet tr (List.mem_append_left _ member))
      fun tr member => stays tr (List.mem_append_left _ member)
    obtain ⟨ring, dead, okState⟩ := run_ok ok before
    obtain ⟨rfl, rfl, step⟩ := taken
    obtain ⟨⟨q', queue', turn⟩, dispatches⟩ := step_turn okState queue step
    obtain ⟨ring', dead', okNext⟩ := step_ok step okState
    have last : tr ∈ trs ++ [tr] := List.mem_append_right _ List.mem_cons_self
    have here := stays tr last
    refine ⟨q', queue', ?_⟩
    rw [List.map_append, List.count_append, List.map_singleton, List.count_singleton]
    have added : (if (tr.turn == some x) = true then 1 else 0) = counts x tr.turn := by
      simp [counts]
    rw [added]
    apply round.step apart turn
    · exact mt (dispatches a).mpr (quiet tr last)
    · exact (okNext.sched.mem_queue queue').mpr (okNext.sched.inRing_iff.mp here.1)
    · exact (okNext.sched.mem_queue queue').mpr (okNext.sched.inRing_iff.mp here.2)

theorem run_order {q : List Nat} (ok : ∃ ring dead, WorldOk w ring dead) (queue : Ring w.sched.link w.sched.current q)
    (run : Run Follows w trs w') (keep : Nat → Bool)
    (stays : ∀ x, keep x = true → InRing w.sched x ∧ ∀ tr ∈ trs, InRing tr.after.sched x) :
    ∃ q', Ring w'.sched.link w'.sched.current q' ∧ q'.filter keep ~r q.filter keep ∧
      ∀ x, keep x = true → InRing w'.sched x := by
  induction run with
  | nil => exact ⟨q, queue, List.IsRotated.refl _, fun x kept => (stays x kept).1⟩
  | @snoc trs state next tr before taken ih =>
    obtain ⟨q₁, queue₁, rotated, inside⟩ := ih fun x kept =>
      ⟨(stays x kept).1, fun tr member => (stays x kept).2 tr (List.mem_append_left _ member)⟩
    obtain ⟨ring, dead, okState⟩ := run_ok ok before
    obtain ⟨rfl, rfl, step⟩ := taken
    obtain ⟨⟨q', queue', turn⟩, _⟩ := step_turn okState queue₁ step
    obtain ⟨ring', dead', okNext⟩ := step_ok step okState
    have here : ∀ x, keep x = true → InRing tr.after.sched x := fun x kept =>
      (stays x kept).2 tr (List.mem_append_right _ List.mem_cons_self)
    refine ⟨q', queue', (turn.rotated queue₁.nodup keep ?_).trans rotated, here⟩
    intro x kept
    exact ⟨(okState.sched.mem_queue queue₁).mpr (okState.sched.inRing_iff.mp (inside x kept)),
      (okNext.sched.mem_queue queue').mpr (okNext.sched.inRing_iff.mp (here x kept))⟩

end

/-- Between two dispatches of a task every other task that stays is dispatched once, and the
tasks that stay keep their order round the ring. -/
theorem round_robin (memory : Nat → Task) (t0 stack0 reaper reaperStack kernelCr3 : Nat) (boot : t0 ≠ 0)
    (distinct : reaper ≠ t0) (past : List Transition) (w : World)
    (reached : Run Follows (initialWorld memory t0 stack0 reaper reaperStack kernelCr3) past w)
    (trs : List Transition) (w' : World) (run : Run Follows w trs w') :
    (∀ a first between second, trs = [first] ++ between ++ [second] →
      first.Dispatches a → second.Dispatches a → (∀ tr ∈ between, ¬ tr.Dispatches a) →
      (∀ tr ∈ between, InRing tr.after.sched a) →
      ∀ x, x ≠ a → InRing first.after.sched x → (∀ tr ∈ between, InRing tr.after.sched x) →
        ∃! i : Nat, ∃ tr, between[i]? = some tr ∧ tr.Dispatches x) ∧
    (∀ ring ring' keep, Ring w.sched.link w.sched.head ring → Ring w'.sched.link w'.sched.head ring' →
      (∀ x, keep x = true → InRing w.sched x ∧ ∀ tr ∈ trs, InRing tr.after.sched x) →
      ring'.filter keep ~r ring.filter keep) := by
  obtain ⟨ring₀, ok₀⟩ := initialWorld_ok memory t0 stack0 reaper reaperStack kernelCr3 boot distinct
  have ok := run_ok ⟨ring₀, [], ok₀⟩ reached
  constructor
  · rintro a first between second rfl dispatched again quiet staysA x apart inside staysX
    obtain ⟨w₂, early, late⟩ := run.split
    obtain ⟨w₁, start, mid⟩ := early.split
    have ok₁ := run_ok ok start
    obtain ⟨_, after, _⟩ := start.single
    have current : w₁.sched.current = a := by
      rw [← after]
      obtain ⟨_, _, _, _, _, here⟩ := dispatched
      exact here
    have insideX : InRing w₁.sched x := by
      rw [← after]
      exact inside
    obtain ⟨q, queue, round⟩ := run_round ok₁ current apart insideX mid quiet fun tr member => ⟨staysA tr member, staysX tr member⟩
    -- the second dispatch ends the round
    obtain ⟨ring₂, dead₂, ok₂⟩ := run_ok ok₁ mid
    obtain ⟨rfl, rfl, step⟩ := late.single
    obtain ⟨⟨q', _, turn⟩, dispatches⟩ := step_turn ok₂ queue step
    rw [(dispatches a).mp again] at turn
    obtain ⟨i, found, only⟩ := existsUnique_of_count (round.finish apart turn)
    have turns : ∀ i : Nat, (between.map Transition.turn)[i]? = some (some x) ↔ ∃ tr, between[i]? = some tr ∧ tr.Dispatches x := by
      intro i
      rw [List.getElem?_map, Option.map_eq_some_iff]
      constructor
      · rintro ⟨tr, here, turned⟩
        exact ⟨tr, here, (run_dispatches ok₁ mid (List.mem_of_getElem? here) x).mpr turned⟩
      · rintro ⟨tr, here, turned⟩
        exact ⟨tr, here, (run_dispatches ok₁ mid (List.mem_of_getElem? here) x).mp turned⟩
    exact ⟨i, (turns i).mp found, fun j here => only j ((turns j).mpr here)⟩
  · intro ring ring' keep cycle cycle' stays
    obtain ⟨ring₁, dead₁, okW⟩ := ok
    obtain ⟨ring₂, dead₂, okW'⟩ := run_ok ⟨ring₁, dead₁, okW⟩ run
    obtain ⟨q, queue, _⟩ := okW.sched.queue
    obtain ⟨q', queue', rotated, _⟩ := run_order ⟨ring₁, dead₁, okW⟩ queue run keep stays
    have left := isRotated_filter (okW'.sched.rotated queue') keep
    have right := isRotated_filter (okW.sched.rotated queue) keep
    rw [cycle.unique okW.sched.cycle, cycle'.unique okW'.sched.cycle]
    exact left.symm.trans (rotated.trans right)

def asked (w : World) : World := { w with sched := requestResched w.sched }

def switchedWorld (w : World) : World :=
  match schedMaybeSwitch 3 w.sched 0 with
  | some (.switched _ s) => w.leave s
  | _ => w

theorem asked_follows (w : World) : Follows w ⟨w, .request, asked w⟩ (asked w) := ⟨rfl, rfl, .request⟩

theorem switchedWorld_follows {w : World} {t : Nat} (moved : (switchedWorld w).sched.current = t) (other : w.sched.current ≠ t) :
    Follows w ⟨w, .interrupt 0, switchedWorld w⟩ (switchedWorld w) ∧
      (Transition.mk w (.interrupt 0) (switchedWorld w)).Dispatches t := by
  unfold switchedWorld at moved ⊢
  split at moved
  · rename_i newRsp s switched
    have left : (w.leave s).sched = s := by
      unfold World.leave
      dsimp only
      split <;> rfl
    refine ⟨⟨rfl, rfl, .switch switched⟩, 0, 3, newRsp, rfl, ?_, moved⟩
    show _ = some (SwitchResult.switched newRsp (w.leave s).sched)
    rw [left]
    exact switched
  · exact absurd moved other

/-- The boot task and the reaper, at 100 and 500, take turns. -/
theorem round_robin_two : ∃ first between second w w', Run Follows w ([first] ++ between ++ [second]) w' ∧
    first.Dispatches 500 ∧ second.Dispatches 500 ∧ ∃! i : Nat, ∃ tr, between[i]? = some tr ∧ tr.Dispatches 100 := by
  -- the states are named, so that only these facts about them are computed
  obtain ⟨w₁, here₁⟩ : ∃ w, w = asked bootWorld := ⟨_, rfl⟩
  obtain ⟨w₂, here₂⟩ : ∃ w, w = switchedWorld w₁ := ⟨_, rfl⟩
  obtain ⟨w₄, here₄⟩ : ∃ w, w = switchedWorld (asked w₂) := ⟨_, rfl⟩
  obtain ⟨w₆, here₆⟩ : ∃ w, w = switchedWorld (asked w₄) := ⟨_, rfl⟩
  have current₁ : w₁.sched.current = 100 := by rw [here₁]; decide +kernel
  have current₂ : w₂.sched.current = 500 := by rw [here₂, here₁]; decide +kernel
  have current₄ : w₄.sched.current = 100 := by rw [here₄, here₂, here₁]; decide +kernel
  have current₆ : w₆.sched.current = 500 := by rw [here₆, here₄, here₂, here₁]; decide +kernel
  have alive₂ : w₂.alive = {500, 100} := by rw [here₂, here₁]; decide +kernel
  have alive₄ : w₄.alive = {500, 100} := by rw [here₄, here₂, here₁]; decide +kernel
  have to500 := switchedWorld_follows (here₂ ▸ current₂) (by rw [current₁]; decide)
  have to100 := switchedWorld_follows (here₄ ▸ current₄) (show (asked w₂).sched.current ≠ 100 from current₂ ▸ by decide)
  have again := switchedWorld_follows (here₆ ▸ current₆) (show (asked w₄).sched.current ≠ 500 from current₄ ▸ by decide)
  rw [← here₂] at to500
  rw [← here₄] at to100
  rw [← here₆] at again
  have past : Run Follows bootWorld [⟨bootWorld, .request, w₁⟩] w₁ := by
    rw [here₁]
    exact Run.nil.snoc (asked_follows bootWorld)
  have first := Run.nil.snoc to500.1
  have second := first.snoc (asked_follows w₂)
  have third := second.snoc to100.1
  have fourth := third.snoc (asked_follows w₄)
  obtain ⟨ring₀, ok₀⟩ := initialWorld_ok (fun _ => newTask 0 0 0) 100 200 500 600 7 (by decide) (by decide)
  have ok : ∃ ring dead, WorldOk w₁ ring dead := run_ok ⟨ring₀, [], ok₀⟩ past
  -- both tasks stay
  have inside : ∀ {trs : List Transition} {w : World}, Run Follows w₁ trs w → w.alive = {500, 100} →
      InRing w.sched 500 ∧ InRing w.sched 100 := by
    intro trs w run both
    obtain ⟨ring, dead, okW⟩ := run_ok ok run
    exact ⟨okW.sched.inRing_iff.mpr ((okW.alive 500).mpr (by rw [both]; decide)),
      okW.sched.inRing_iff.mpr ((okW.alive 100).mpr (by rw [both]; decide))⟩
  have at₂ := inside first alive₂
  have at₃ := inside second alive₂
  have at₄ := inside third alive₄
  have at₅ := inside fourth alive₄
  have quiet : ∀ tr ∈ [Transition.mk w₂ .request (asked w₂), ⟨asked w₂, .interrupt 0, w₄⟩, ⟨w₄, .request, asked w₄⟩],
      ¬ tr.Dispatches 500 := by
    simp only [List.forall_mem_cons, List.not_mem_nil, false_implies, implies_true, and_true]
    refine ⟨?_, ?_, ?_⟩
    · rintro ⟨_, _, _, event, _⟩
      cases event
    · rintro ⟨_, _, _, _, _, here⟩
      rw [current₄] at here
      cases here
    · rintro ⟨_, _, _, event, _⟩
      cases event
  have once := (round_robin (fun _ => newTask 0 0 0) 100 200 500 600 7 (by decide) (by decide) _ _ past _ _
    (fourth.snoc again.1)).1 500 _ [⟨w₂, .request, asked w₂⟩, ⟨asked w₂, .interrupt 0, w₄⟩, ⟨w₄, .request, asked w₄⟩] _ rfl
    to500.2 again.2 quiet (by simpa using ⟨at₃.1, at₄.1, at₅.1⟩) 100 (by decide) at₂.2 (by simpa using ⟨at₃.2, at₄.2, at₅.2⟩)
  exact ⟨_, _, _, _, _, fourth.snoc again.1, to500.2, again.2, once⟩

end RexOs.Sched
