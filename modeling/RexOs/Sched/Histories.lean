import Mathlib.Data.Finset.Basic
import RexOs.Sched.Scheduler

/-! Scheduler histories: any interleaving of task creation, resched requests,
exits, interrupt exits and reaper steps after `schedInit`. -/

set_option autoImplicit false

namespace RexOs.Sched

open RexOs.Library

/-- The scheduler with the bookkeeping that its contract speaks about.
`alive` are the tasks created and not yet left for good, `buried` those left
while dead and not yet popped, `popped` those the reaper has taken and not yet
returned to the heap. `exiting` says that a `task_exit` has not yet met a
requested switch. -/
structure World where
  sched : Scheduler
  alive : Finset Nat
  buried : Finset Nat
  popped : Finset Nat
  exiting : Bool

inductive Event where
  | create (t stack kernelCr3 : Nat)
  | spawn (t stack kernelCr3 userCr3 : Nat)
  | request
  | exit
  | interrupt (rsp : Nat)
  | pop
  | free (t : Nat)

def World.Fresh (w : World) (t : Nat) : Prop := t ∉ w.alive ∧ t ∉ w.buried ∧ t ∉ w.popped

def World.addTask (w : World) (t stack : Nat) : Finset Nat :=
  if t = 0 ∨ stack = 0 then w.alive else insert t w.alive

/-- Leaving `prev` in a switch: a dead task is left for good. -/
def World.leave (w : World) (next : Scheduler) : World :=
  let prev := w.sched.current
  if (w.sched.task prev).state = .dead then
    { w with sched := next, alive := w.alive.erase prev, buried := insert prev w.buried, exiting := false }
  else { w with sched := next, exiting := false }

inductive Step : World → Event → World → Prop where
  | create {w : World} {t stack kernelCr3 : Nat} (fresh : w.Fresh t) :
      Step w (.create t stack kernelCr3)
        { w with sched := taskCreate w.sched t stack kernelCr3, alive := w.addTask t stack }
  | spawn {w : World} {t stack kernelCr3 userCr3 : Nat} (fresh : w.Fresh t) :
      Step w (.spawn t stack kernelCr3 userCr3)
        { w with sched := taskSpawnUser w.sched t stack kernelCr3 userCr3, alive := w.addTask t stack }
  | request {w : World} : Step w .request { w with sched := requestResched w.sched }
  | exit {w : World} : Step w .exit { w with sched := taskExit w.sched, exiting := true }
  | stay {w : World} {rsp fuel : Nat} {next : Scheduler}
      (kept : schedMaybeSwitch fuel w.sched rsp = some (.stay next)) :
      Step w (.interrupt rsp)
        { w with sched := next, exiting := w.exiting && !w.sched.needResched }
  | switch {w : World} {rsp fuel newRsp : Nat} {next : Scheduler}
      (switched : schedMaybeSwitch fuel w.sched rsp = some (.switched newRsp next)) :
      Step w (.interrupt rsp) (w.leave next)
  | pop {w : World} :
      Step w .pop
        { w with
          sched := (reaperPop w.sched).2
          buried := w.buried.erase (reaperPop w.sched).1
          popped := if (reaperPop w.sched).1 = 0 then w.popped else insert (reaperPop w.sched).1 w.popped }
  | free {w : World} {t : Nat} {garbage : Task} (held : t ∈ w.popped) :
      Step w (.free t) { w with sched := w.sched.setTask t garbage, popped := w.popped.erase t }

/-- The invariant with its two lists hidden behind the world's sets. -/
structure WorldOk (w : World) (ring dead : List Nat) : Prop where
  sched : SchedOk w.sched ring dead w.exiting
  alive : ∀ t, t ∈ ring ↔ t ∈ w.alive
  buried : ∀ t, t ∈ dead ↔ t ∈ w.buried
  popped : ∀ t ∈ w.popped, t ∉ ring ∧ t ∉ dead

section
variable {s : Scheduler} {ring dead : List Nat} {exiting : Bool}

theorem SchedOk.resched (ok : SchedOk s ring dead exiting) (needed : Bool) :
    SchedOk { s with needResched := needed } ring dead exiting :=
  ⟨⟨ok.cycle, ok.ringNonnull, ok.deadPath, ok.deadNodup, ok.deadNonnull, ok.apart⟩, ok.current,
    ok.ready, ok.running⟩

theorem setTask_ok (ok : SchedOk s ring dead exiting) {t : Nat} {value : Task}
    (same : (t ∉ ring ∧ t ∉ dead) ∨ value.next = s.link t ∧ value.state = (s.task t).state) :
    SchedOk (s.setTask t value) ring dead exiting := by
  have link (u : Nat) (member : u ∈ ring ∨ u ∈ dead) : (s.setTask t value).link u = s.link u := by
    rw [Scheduler.setTask_link]
    by_cases here : u = t
    · subst here
      rcases same with ⟨notRing, notDead⟩ | ⟨next, _⟩
      · exact absurd member (by simp [notRing, notDead])
      · simp [next]
    · simp [here]
  have state (u : Nat) (member : u ∈ ring) : ((s.setTask t value).task u).state = (s.task u).state := by
    by_cases here : u = t
    · subst here
      rcases same with ⟨notRing, _⟩ | ⟨_, state⟩
      · exact absurd member notRing
      · simp [state]
    · simp [here]
  refine ⟨⟨ok.cycle.congr fun u member => link u (Or.inl member), ok.ringNonnull,
    ok.deadPath.congr fun u member => link u (Or.inr member), ok.deadNodup, ok.deadNonnull, ok.apart⟩,
    ok.current, fun u member notCurrent => ?_, ?_⟩
  · rw [state u member]
    exact ok.ready u member notCurrent
  · have := state s.current ok.current
    simp only [Scheduler.setTask_current, this]
    exact ok.running

theorem listInsert_ok (ok : SchedOk s ring dead exiting) {t : Nat} (nonnull : t ≠ 0)
    (notRing : t ∉ ring) (notDead : t ∉ dead) (isReady : (s.task t).state = .ready) :
    ∃ ring', SchedOk (listInsert s t) ring' dead exiting ∧ ∀ u, u ∈ ring' ↔ u = t ∨ u ∈ ring := by
  obtain ⟨rest, shape⟩ := ok.cycle.head_eq
  subst shape
  have linked : listInsert s t = (s.setNext t (s.link s.head)).setNext s.head t := by
    rw [listInsert, if_neg ok.head_ne]
  have headNotDead : s.head ∉ dead := ok.apart s.head (by simp)
  rw [linked]
  refine ⟨s.head :: t :: rest, ⟨⟨?_, ?_, ?_, ok.deadNodup, ok.deadNonnull, ?_⟩, ?_, ?_, ?_⟩, ?_⟩
  · simpa using ok.cycle.insert notRing
  · simpa [nonnull.symm] using ok.ringNonnull
  · simpa using (ok.deadPath.update notDead).update headNotDead
  · intro u member
    rcases List.mem_cons.mp member with rfl | member
    · exact headNotDead
    · rcases List.mem_cons.mp member with rfl | member
      · exact notDead
      · exact ok.apart u (by simp [member])
  · rcases List.mem_cons.mp ok.current with same | member
    · simp [same]
    · simp [member]
  · intro u member notCurrent
    simp only [Scheduler.setNext_current] at notCurrent
    simp only [Scheduler.setNext_state]
    by_cases atNew : u = t
    · rw [atNew]
      exact isReady
    · exact ok.ready u (by simpa [atNew] using member) notCurrent
  · simpa using ok.running
  · intro u
    simp only [List.mem_cons]
    tauto

theorem taskCreate_ok (ok : SchedOk s ring dead exiting) {t stack : Nat} (kernelCr3 : Nat)
    (nonnull : t ≠ 0) (hasStack : stack ≠ 0) (notRing : t ∉ ring) (notDead : t ∉ dead) :
    ∃ ring', SchedOk (taskCreate s t stack kernelCr3) ring' dead exiting ∧
      ∀ u, u ∈ ring' ↔ u = t ∨ u ∈ ring := by
  have created : taskCreate s t stack kernelCr3 = listInsert
      ({ s with nextId := s.nextId + 1 }.setTask t (newTask s.nextId stack kernelCr3)) t := by
    rw [taskCreate, if_neg (by simp [nonnull, hasStack])]
  have counted : SchedOk { s with nextId := s.nextId + 1 } ring dead exiting :=
    ⟨⟨ok.cycle, ok.ringNonnull, ok.deadPath, ok.deadNodup, ok.deadNonnull, ok.apart⟩, ok.current,
      ok.ready, ok.running⟩
  rw [created]
  exact listInsert_ok (setTask_ok counted (Or.inl ⟨notRing, notDead⟩)) nonnull notRing notDead
    (by simp [newTask])

theorem taskExit_ok (ok : SchedOk s ring dead exiting) : SchedOk (taskExit s) ring dead true := by
  unfold taskExit
  refine ⟨⟨?_, ok.ringNonnull, ?_, ok.deadNodup, ok.deadNonnull, ok.apart⟩, ok.current, ?_, ?_⟩
  · simpa using ok.cycle
  · simpa using ok.deadPath
  · intro u member notCurrent
    simp only [Scheduler.setState_current] at notCurrent
    simpa [notCurrent] using ok.ready u member notCurrent
  · right
    simp

theorem loadTask_ok (lists : ListsOk s ring dead) {left next : Nat} (inRing : next ∈ ring)
    (states : ∀ u ∈ ring, u ≠ next → (s.task u).state = .ready) :
    SchedOk (loadTask s left next) ring dead false := by
  refine ⟨⟨?_, lists.ringNonnull, ?_, lists.deadNodup, lists.deadNonnull, lists.apart⟩, inRing, ?_, ?_⟩
  · show Ring (s.setState next .running).link s.head ring
    simpa using lists.cycle
  · show Path (s.setState next .running).link s.deadList dead 0
    simpa using lists.deadPath
  · intro u member notCurrent
    have notNext : u ≠ next := notCurrent
    show ((s.setState next .running).task u).state = _
    simpa [notNext] using states u member notNext
  · left
    show ((s.setState next .running).task next).state = _
    simp

theorem saveTask_link (s : Scheduler) (prev rsp : Nat) : (saveTask s prev rsp).link = s.link := by
  unfold saveTask
  rw [Scheduler.setTask_link]
  dsimp only
  split <;> exact Function.update_eq_self prev s.link

theorem saveTask_ok (ok : SchedOk s ring dead exiting) (alive : (s.task s.current).state = .running)
    (rsp : Nat) : ListsOk (saveTask s s.current rsp) ring dead ∧
      ∀ u ∈ ring, ((saveTask s s.current rsp).task u).state = .ready := by
  have link := saveTask_link s s.current rsp
  refine ⟨⟨?_, ok.ringNonnull, ?_, ok.deadNodup, ok.deadNonnull, ok.apart⟩, fun u member => ?_⟩
  · rw [link]
    exact ok.cycle
  · rw [link]
    exact ok.deadPath
  · by_cases here : u = s.current
    · simp [saveTask, here, alive]
    · simp [saveTask, here, ok.ready u member here]

theorem buryTask_ok (ok : SchedOk s ring dead exiting) (others : s.link s.current ≠ s.current)
    {fuel : Nat} {r : Scheduler} (done : buryTask fuel s s.current = some r) :
    ∃ ring', ListsOk r ring' (s.current :: dead) ∧ (∀ t, t ∈ ring' ↔ t ∈ ring ∧ t ≠ s.current) ∧
      ∀ u, (r.task u).state = (s.task u).state := by
  unfold buryTask at done
  obtain ⟨mid, removed, rfl⟩ := Option.map_eq_some_iff.mp done
  obtain ⟨q, ring', qRing, apart, _, rfl, cycle, members⟩ := listRemove_current ok others removed
  obtain ⟨link, _, deadList, _, states⟩ := unlinkAfter_fields apart others
  have notDead : s.current ∉ dead := ok.apart _ ok.current
  refine ⟨ring', ⟨?_, ?_, ⟨rfl, ?_⟩, ?_, ?_, ?_⟩, members, fun u => ?_⟩
  · refine cycle.congr fun u member => ?_
    have other := ((members u).mp member).2
    show ((unlinkAfter s q s.current).setNext s.current _).link u = _
    simp [other]
  · exact fun null => ok.ringNonnull ((members 0).mp null).1
  · show Path ((unlinkAfter s q s.current).setNext s.current _).link
      (((unlinkAfter s q s.current).setNext s.current _).link s.current) dead 0
    rw [Scheduler.setNext_link, Function.update_self, link, deadList]
    exact ((ok.deadPath.update (ok.apart q qRing)).update notDead).update notDead
  · exact List.nodup_cons.mpr ⟨notDead, ok.deadNodup⟩
  · simp [ok.current_ne.symm, ok.deadNonnull]
  · intro u member
    obtain ⟨inRing, other⟩ := (members u).mp member
    simp [other, ok.apart u inRing]
  · show (((unlinkAfter s q s.current).setNext s.current _).task u).state = _
    simp [states]

theorem schedMaybeSwitch_inv (ok : SchedOk s ring dead exiting) {fuel rsp : Nat} {r : SwitchResult}
    (done : schedMaybeSwitch fuel s rsp = some r) :
    (s.needResched = false ∧ r = .stay s) ∨
    (s.needResched = true ∧ s.link s.current = s.current ∧
      ((s.task s.current).state = .running ∧ r = .stay { s with needResched := false } ∨
       (s.task s.current).state = .dead ∧ r = .panicked)) ∨
    (s.needResched = true ∧ s.link s.current ≠ s.current ∧ ∃ newRsp left,
      r = .switched newRsp (loadTask left s.current (s.link s.current)) ∧
      ((s.task s.current).state = .running ∧ left = saveTask { s with needResched := false } s.current rsp ∨
       (s.task s.current).state = .dead ∧ buryTask fuel { s with needResched := false } s.current = some left)) := by
  unfold schedMaybeSwitch at done
  by_cases requested : s.needResched = true
  swap
  · left
    simp only [requested, Bool.not_false, if_true] at done
    exact ⟨by simpa using requested, (Option.some.inj done).symm⟩
  right
  simp only [requested, Bool.not_true, Bool.false_eq_true, if_false, ok.current_ne, true_and] at done ⊢
  obtain ⟨next, picked, done⟩ := Option.bind_eq_some_iff.mp done
  -- clearing the request touches neither the lists nor the states
  have chosen := pickNextReady_fuel (ok.resched false) picked
  change next = if s.link s.current = s.current then
    if (s.task s.current).state = .running then s.current else 0 else s.link s.current at chosen
  by_cases alone : s.link s.current = s.current
  · left
    refine ⟨alone, ?_⟩
    rw [if_pos alone] at chosen
    rcases ok.running with running | ⟨isDead, _⟩
    · rw [if_pos running] at chosen
      simp only [chosen, or_true, if_true, running, reduceCtorEq, if_false] at done
      exact Or.inl ⟨running, (Option.some.inj done).symm⟩
    · rw [if_neg (by simp [isDead])] at chosen
      simp only [chosen, true_or, if_true, isDead] at done
      exact Or.inr ⟨isDead, (Option.some.inj done).symm⟩
  · right
    refine ⟨alone, ?_⟩
    rw [if_neg alone] at chosen
    subst chosen
    simp only [ok.link_ne, alone, or_self, if_false] at done
    rcases ok.running with running | ⟨isDead, _⟩
    · simp only [running, ne_eq, reduceCtorEq, not_false_eq_true, if_true] at done
      exact ⟨_, _, (Option.some.inj done).symm, Or.inl ⟨running, rfl⟩⟩
    · simp only [isDead, ne_eq, not_true_eq_false, if_false] at done
      obtain ⟨mid, buried, rfl⟩ := Option.map_eq_some_iff.mp done
      exact ⟨_, mid, rfl, Or.inr ⟨isDead, buried⟩⟩

theorem schedMaybeSwitch_cases (ok : SchedOk s ring dead exiting) {fuel rsp : Nat} {r : SwitchResult}
    (done : schedMaybeSwitch fuel s rsp = some r) :
    (s.needResched = false ∧ r = .stay s) ∨
    (s.needResched = true ∧ (s.task s.current).state = .running ∧
      r = .stay { s with needResched := false }) ∨
    (s.needResched = true ∧ (s.task s.current).state = .dead ∧ r = .panicked) ∨
    (s.needResched = true ∧ ∃ newRsp next ring' dead', r = .switched newRsp next ∧
      SchedOk next ring' dead' false ∧
      ((s.task s.current).state = .running ∧ ring' = ring ∧ dead' = dead ∨
       (s.task s.current).state = .dead ∧ dead' = s.current :: dead ∧
        ∀ t, t ∈ ring' ↔ t ∈ ring ∧ t ≠ s.current)) := by
  have cleared := ok.resched false
  have inRing := ok.cycle.next_mem ok.current
  rcases schedMaybeSwitch_inv ok done with
    quiet | ⟨asked, _, ⟨running, same⟩ | ⟨isDead, same⟩⟩ | ⟨asked, others, newRsp, left, same, way⟩
  · exact Or.inl quiet
  · exact Or.inr (Or.inl ⟨asked, running, same⟩)
  · exact Or.inr (Or.inr (Or.inl ⟨asked, isDead, same⟩))
  · refine Or.inr (Or.inr (Or.inr ⟨asked, ?_⟩))
    rcases way with ⟨running, rfl⟩ | ⟨isDead, buried⟩
    · obtain ⟨lists, states⟩ := saveTask_ok cleared running rsp
      exact ⟨_, _, ring, dead, same, loadTask_ok lists inRing fun u member _ => states u member, Or.inl ⟨running, rfl, rfl⟩⟩
    · obtain ⟨ring', lists, members, states⟩ := buryTask_ok cleared others buried
      refine ⟨_, _, ring', s.current :: dead, same, loadTask_ok lists ?_ ?_, Or.inr ⟨isDead, rfl, members⟩⟩
      · exact (members _).mpr ⟨inRing, others⟩
      · intro u member _
        obtain ⟨inOld, other⟩ := (members u).mp member
        rw [states]
        exact ok.ready u inOld other

theorem listRemove_total (ok : SchedOk s ring dead exiting) (t : Nat) :
    ∃ r, listRemove (ring.length + 1) s t = some r := by
  obtain ⟨r, done⟩ := listRemoveLoop_total (t := t) ok.cycle.nonempty ok.cycle.path
  exact ⟨r, by rw [listRemove, if_neg ok.head_ne]; exact listRemoveLoop_mono done 1⟩

theorem schedTaskAlive_total (ok : SchedOk s ring dead exiting) (pid : Nat) :
    ∃ r, schedTaskAlive ring.length s pid = some r := by
  obtain ⟨r, done⟩ := aliveLoop_total pid ok.cycle.nonempty ok.cycle.path
  exact ⟨r, by rw [schedTaskAlive, if_neg ok.head_ne]; exact done⟩

theorem schedMaybeSwitch_total (ok : SchedOk s ring dead exiting) (rsp : Nat) :
    ∃ r, schedMaybeSwitch (ring.length + 1) s rsp = some r := by
  unfold schedMaybeSwitch
  split
  · exact ⟨_, rfl⟩
  have cleared := ok.resched false
  obtain ⟨r, removed⟩ := listRemove_total cleared s.current
  obtain ⟨next, picked⟩ : ∃ next, pickNextReady (ring.length + 1) { s with needResched := false } s.current =
      some next := ⟨_, pickNextReady_eq cleared ring.length⟩
  dsimp only
  rw [if_neg ok.current_ne, picked, Option.bind_some]
  split
  · split <;> exact ⟨_, rfl⟩
  · split
    · exact ⟨_, rfl⟩
    · rw [buryTask, removed]
      exact ⟨_, rfl⟩

end

theorem create_ok {w : World} {ring dead : List Nat} {t : Nat} (stack : Nat) (ok : WorldOk w ring dead)
    (fresh : w.Fresh t) {next : Scheduler}
    (made : t ≠ 0 → stack ≠ 0 → t ∉ ring → t ∉ dead →
      ∃ ring', SchedOk next ring' dead w.exiting ∧ ∀ u, u ∈ ring' ↔ u = t ∨ u ∈ ring)
    (failed : t = 0 ∨ stack = 0 → next = w.sched) :
    ∃ ring', WorldOk { w with sched := next, alive := w.addTask t stack } ring' dead := by
  obtain ⟨notAlive, notBuried, notPopped⟩ := fresh
  by_cases null : t = 0 ∨ stack = 0
  · rw [failed null, World.addTask, if_pos null]
    exact ⟨ring, ok⟩
  · obtain ⟨nonnull, hasStack⟩ := not_or.mp null
    obtain ⟨ring', sched, members⟩ := made nonnull hasStack
      (fun member => notAlive ((ok.alive t).mp member)) (fun member => notBuried ((ok.buried t).mp member))
    refine ⟨ring', sched, fun u => ?_, ok.buried, fun u held => ⟨fun member => ?_, (ok.popped u held).2⟩⟩
    · simp only [World.addTask, if_neg null, Finset.mem_insert, members, ok.alive]
    · rcases (members u).mp member with rfl | old
      · exact notPopped held
      · exact (ok.popped u held).1 old

theorem spawn_ok {s : Scheduler} {ring dead : List Nat} {exiting : Bool} (ok : SchedOk s ring dead exiting)
    {t stack kernelCr3 userCr3 : Nat} (nonnull : t ≠ 0) (hasStack : stack ≠ 0) (notRing : t ∉ ring)
    (notDead : t ∉ dead) :
    ∃ ring', SchedOk (taskSpawnUser s t stack kernelCr3 userCr3) ring' dead exiting ∧
      ∀ u, u ∈ ring' ↔ u = t ∨ u ∈ ring := by
  obtain ⟨ring', created, members⟩ :=
    taskCreate_ok ok kernelCr3 nonnull hasStack notRing notDead
  refine ⟨ring', ?_, members⟩
  rw [taskSpawnUser, if_neg (by simp [nonnull, hasStack])]
  exact setTask_ok created (Or.inr ⟨rfl, rfl⟩)

theorem leave_ok {w : World} {ring dead ring' dead' : List Nat} (ok : WorldOk w ring dead)
    {next : Scheduler} (sched : SchedOk next ring' dead' false)
    (moved : (w.sched.task w.sched.current).state = .running ∧ ring' = ring ∧ dead' = dead ∨
      (w.sched.task w.sched.current).state = .dead ∧ dead' = w.sched.current :: dead ∧
        ∀ t, t ∈ ring' ↔ t ∈ ring ∧ t ≠ w.sched.current) :
    WorldOk (w.leave next) ring' dead' := by
  rcases moved with ⟨running, rfl, rfl⟩ | ⟨isDead, rfl, members⟩
  · rw [World.leave, if_neg (by simp [running])]
    exact ⟨sched, ok.alive, ok.buried, ok.popped⟩
  · rw [World.leave, if_pos isDead]
    refine ⟨sched, fun u => ?_, fun u => ?_, fun u held => ⟨fun member => ?_, ?_⟩⟩
    · simp only [members, Finset.mem_erase, ok.alive, and_comm, ne_eq]
    · simp only [List.mem_cons, Finset.mem_insert, ok.buried]
    · exact (ok.popped u held).1 ((members u).mp member).1
    · rw [List.mem_cons, not_or]
      refine ⟨?_, (ok.popped u held).2⟩
      rintro rfl
      exact (ok.popped _ held).1 ok.sched.current

theorem pop_ok {w : World} {ring dead : List Nat} (ok : WorldOk w ring dead) :
    ∃ dead', WorldOk { w with
      sched := (reaperPop w.sched).2
      buried := w.buried.erase (reaperPop w.sched).1
      popped := if (reaperPop w.sched).1 = 0 then w.popped else insert (reaperPop w.sched).1 w.popped }
      ring dead' := by
  cases dead with
  | nil =>
    have null : w.sched.deadList = 0 := ok.sched.deadPath
    have absent : 0 ∉ w.buried := fun member => by simpa using (ok.buried 0).mpr member
    refine ⟨[], ?_⟩
    simp only [reaperPop, null, if_true, Finset.erase_eq_of_notMem absent]
    exact ok
  | cons top rest =>
    obtain ⟨here, tail⟩ := ok.sched.deadPath
    have nodup := List.nodup_cons.mp ok.sched.deadNodup
    have nonnull : top ≠ 0 := fun null => ok.sched.deadNonnull (by simp [null])
    have popped : reaperPop w.sched = (top, { w.sched with deadList := w.sched.link top }) := by
      rw [reaperPop, if_neg (here ▸ nonnull), here]
    have notRing : top ∉ ring := fun member => ok.sched.apart top member (by simp)
    refine ⟨rest, ?_⟩
    rw [popped]
    refine ⟨⟨⟨ok.sched.cycle, ok.sched.ringNonnull, tail, nodup.2,
      fun null => ok.sched.deadNonnull (by simp [null]),
      fun t member inRest => ok.sched.apart t member (by simp [inRest])⟩,
      ok.sched.current, ok.sched.ready, ok.sched.running⟩, ok.alive, fun u => ?_, fun u held => ?_⟩
    · simp only [Finset.mem_erase, ← ok.buried, List.mem_cons]
      constructor
      · intro member
        refine ⟨?_, Or.inr member⟩
        rintro rfl
        exact nodup.1 member
      · rintro ⟨other, same | member⟩
        · exact absurd same other
        · exact member
    · simp only [nonnull, if_false, Finset.mem_insert] at held
      rcases held with rfl | held
      · exact ⟨notRing, nodup.1⟩
      · exact ⟨(ok.popped u held).1, fun member => (ok.popped u held).2 (by simp [member])⟩

theorem step_ok {w next : World} {e : Event} (taken : Step w e next) {ring dead : List Nat}
    (ok : WorldOk w ring dead) : ∃ ring' dead', WorldOk next ring' dead' := by
  cases taken with
  | @create t stack kernelCr3 fresh =>
    obtain ⟨ring', kept⟩ := create_ok stack ok fresh (taskCreate_ok ok.sched kernelCr3)
      (fun null => by rw [taskCreate, if_pos null])
    exact ⟨ring', dead, kept⟩
  | @spawn t stack kernelCr3 userCr3 fresh =>
    obtain ⟨ring', kept⟩ := create_ok stack ok fresh (spawn_ok ok.sched)
      (fun null => by rw [taskSpawnUser, if_pos null, taskCreate, if_pos null])
    exact ⟨ring', dead, kept⟩
  | request => exact ⟨ring, dead, ok.sched.resched true, ok.alive, ok.buried, ok.popped⟩
  | exit => exact ⟨ring, dead, taskExit_ok ok.sched, ok.alive, ok.buried, ok.popped⟩
  | stay kept =>
    refine ⟨ring, dead, ?_, ok.alive, ok.buried, ok.popped⟩
    rcases schedMaybeSwitch_cases ok.sched kept with
      ⟨quiet, same⟩ | ⟨asked, running, same⟩ | ⟨_, _, other⟩ | ⟨_, _, _, _, _, other, _⟩
    · cases same
      simpa [quiet] using ok.sched
    · cases same
      exact { ok.sched.resched false with running := Or.inl running }
    · cases other
    · cases other
  | switch switched =>
    rcases schedMaybeSwitch_cases ok.sched switched with
      ⟨_, other⟩ | ⟨_, _, other⟩ | ⟨_, _, other⟩ | ⟨_, _, _, ring', dead', same, sched, moved⟩
    · cases other
    · cases other
    · cases other
    · cases same
      exact ⟨ring', dead', leave_ok ok sched moved⟩
  | pop =>
    obtain ⟨dead', kept⟩ := pop_ok ok
    exact ⟨ring, dead', kept⟩
  | @free t _ held =>
    have outside := ok.popped t held
    exact ⟨ring, dead, setTask_ok ok.sched (Or.inl outside), ok.alive, ok.buried,
      fun u member => ok.popped u (Finset.mem_of_mem_erase member)⟩

/-- The world that `schedInit` leaves: the boot task, and the reaper if the
heap had room for it. -/
def initialWorld (memory : Nat → Task) (t0 stack0 reaper reaperStack kernelCr3 : Nat) : World where
  sched := schedInit memory t0 stack0 reaper reaperStack kernelCr3
  alive := if reaper = 0 ∨ reaperStack = 0 then {t0} else {reaper, t0}
  buried := ∅
  popped := ∅
  exiting := false

theorem initialWorld_ok (memory : Nat → Task) (t0 stack0 reaper reaperStack kernelCr3 : Nat)
    (boot : t0 ≠ 0) (distinct : reaper ≠ t0) :
    ∃ ring, WorldOk (initialWorld memory t0 stack0 reaper reaperStack kernelCr3) ring [] := by
  let adopted : Scheduler := { listInsert
    { task := Function.update memory t0
        { fpu := fpuInit, rsp := 0, stackBase := stack0, cr3 := kernelCr3, id := 0, state := .running, next := 0 }
      current := 0, head := 0, nextId := 1, deadList := 0, needResched := false
      kernelRsp := stack0 + taskStackSize, cr3 := kernelCr3, fpu := 0 } t0 with current := t0 }
  have alone : SchedOk adopted [t0] [] false := by
    have loop : adopted.link t0 = t0 := by
      simp [adopted, listInsert, Scheduler.link, Scheduler.setNext]
    refine ⟨⟨?_, by simpa using boot.symm, rfl, by simp, by simp, by simp⟩, List.mem_singleton.mpr rfl,
      fun u member other => absurd (List.mem_singleton.mp member) other, Or.inl ?_⟩
    · exact Ring.singleton loop
    · simp [adopted, listInsert, Scheduler.setNext]
  let world : World := ⟨adopted, {t0}, ∅, ∅, false⟩
  have first : WorldOk world [t0] [] := ⟨alone, by simp [world], by simp [world], by simp [world]⟩
  have fresh : world.Fresh reaper := ⟨by simpa [world] using distinct, by simp [world], by simp [world]⟩
  obtain ⟨ring, kept⟩ := create_ok reaperStack first fresh (taskCreate_ok alone kernelCr3)
    (fun null => by rw [taskCreate, if_pos null])
  exact ⟨ring, kept⟩

/-- The ring, the dead list and the loops in every state of every history. -/
theorem scheduler_histories (memory : Nat → Task) (t0 stack0 reaper reaperStack kernelCr3 : Nat)
    (boot : t0 ≠ 0) (distinct : reaper ≠ t0) (events : List Event) (w : World)
    (run : Run Step (initialWorld memory t0 stack0 reaper reaperStack kernelCr3) events w) :
    (∃ ring, Ring w.sched.link w.sched.head ring ∧ ∀ t, t ∈ ring ↔ t ∈ w.alive) ∧
    (∃ dead, Path w.sched.link w.sched.deadList dead 0 ∧ dead.Nodup ∧ ∀ t, t ∈ dead ↔ t ∈ w.buried) ∧
    Disjoint w.alive w.buried ∧ Disjoint w.alive w.popped ∧
    w.sched.current ∈ w.alive ∧
    (∀ t ∈ w.alive, t ≠ w.sched.current → (w.sched.task t).state = .ready) ∧
    ((w.sched.task w.sched.current).state = .running ∨
      (w.sched.task w.sched.current).state = .dead ∧ w.exiting = true) ∧
    (∀ t, ∃ fuel r, listRemove fuel w.sched t = some r) ∧
    (∃ fuel r, pickNextReady fuel w.sched w.sched.current = some r) ∧
    (∀ pid, ∃ fuel r, schedTaskAlive fuel w.sched pid = some r) ∧
    (∀ rsp, ∃ fuel r, schedMaybeSwitch fuel w.sched rsp = some r) := by
  have inv : ∃ ring dead, WorldOk w ring dead := by
    refine run.invariant (fun w => ∃ ring dead, WorldOk w ring dead) ?_ ?_
    · obtain ⟨ring, ok⟩ := initialWorld_ok memory t0 stack0 reaper reaperStack kernelCr3 boot distinct
      exact ⟨ring, [], ok⟩
    · rintro state label next ⟨ring, dead, ok⟩ taken
      exact step_ok taken ok
  obtain ⟨ring, dead, ok⟩ := inv
  refine ⟨⟨ring, ok.sched.cycle, ok.alive⟩, ⟨dead, ok.sched.deadPath, ok.sched.deadNodup, ok.buried⟩,
    ?_, ?_, (ok.alive _).mp ok.sched.current, fun t member => ok.sched.ready t ((ok.alive t).mpr member),
    ok.sched.running, fun t => ⟨_, listRemove_total ok.sched t⟩, ⟨_, _, pickNextReady_eq ok.sched 0⟩,
    fun pid => ⟨_, schedTaskAlive_total ok.sched pid⟩, fun rsp => ⟨_, schedMaybeSwitch_total ok.sched rsp⟩⟩
  · rw [Finset.disjoint_left]
    intro t alive buried
    exact ok.sched.apart t ((ok.alive t).mpr alive) ((ok.buried t).mpr buried)
  · rw [Finset.disjoint_left]
    intro t alive popped
    exact (ok.popped t popped).1 ((ok.alive t).mpr alive)

def bootExit : List Event := [.create 300 400 7, .exit, .request, .interrupt 0]

def bootWorld : World := initialWorld (fun _ => newTask 0 0 0) 100 200 500 600 7

theorem scheduler_histories_bootExit :
    ∃ w, Run Step bootWorld bootExit w ∧ w.buried = {100} ∧
      ∃ dead, Path w.sched.link w.sched.deadList dead 0 ∧ dead.Nodup ∧ ∀ t, t ∈ dead ↔ t ∈ w.buried := by
  have fresh : bootWorld.Fresh 300 := by
    unfold World.Fresh
    decide
  have start : Run Step bootWorld [] bootWorld := .nil
  have run := (((start.snoc (@Step.create _ 300 400 7 fresh)).snoc .exit).snoc .request).snoc
    (@Step.switch _ 0 3 _ _ rfl)
  exact ⟨_, run, by decide, (scheduler_histories _ 100 200 500 600 7 (by decide) (by decide) _ _ run).2.1⟩

end RexOs.Sched
