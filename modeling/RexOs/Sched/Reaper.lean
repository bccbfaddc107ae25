import RexOs.Sched.RoundRobin

/-! The reaper (`reaper_task_entry`).

The reaper takes a dead task off its list and frees the task's page tables, its stack and its
descriptor, one after the other. It can be interrupted at any point, but it is the only task that
does this, and it never exits. The heap and the frame allocator keep their contracts: what they give
out is not in use.
-/

set_option autoImplicit false

namespace RexOs.Sched

open RexOs.Library

inductive Resource where
  | tables
  | stack
  | descriptor
  deriving DecidableEq, Repr

def allResources : List Resource := [.tables, .stack, .descriptor]

def resourceOf (s : Scheduler) (t : Nat) : Resource → Nat
  | .tables => (s.task t).cr3
  | .stack => (s.task t).stackBase
  | .descriptor => t

/-- The reaper frees it: `dead->cr3 && dead->cr3 != vmm_kernel_pml4_phys()`, `dead->stack_base`. -/
def isOwn (kernelCr3 : Nat) (s : Scheduler) (t : Nat) : Resource → Bool
  | .tables => (s.task t).cr3 ≠ 0 ∧ (s.task t).cr3 ≠ kernelCr3
  | .stack => (s.task t).stackBase ≠ 0
  | .descriptor => true

structure ReaperWorld where
  world : World
  /-- The local variable `dead`, with what is still to be freed of it. -/
  held : Option (Nat × List Resource)
  /-- What was freed of which task, by its id. -/
  log : List (Nat × Resource)

namespace ReaperWorld

variable (w : ReaperWorld)

def sched : Scheduler := w.world.sched

def InUse (r : Resource) (t : Nat) : Prop :=
  t ∈ w.world.alive ∨ t ∈ w.world.buried ∨ ∃ todo, w.held = some (t, todo) ∧ r ∈ todo

def logAfter (kernelCr3 d : Nat) (r : Resource) : List (Nat × Resource) :=
  if isOwn kernelCr3 w.sched d r then w.log ++ [((w.sched.task d).id, r)] else w.log

end ReaperWorld

inductive ReaperEvent where
  /-- A call of some task, or an interrupt. -/
  | call (e : Event)
  /-- The reaper frees the next resource. -/
  | reap

section
variable (reaper kernelCr3 : Nat)

inductive ReaperStep : ReaperWorld → ReaperEvent → ReaperWorld → Prop where
  | create {w : ReaperWorld} {t stack : Nat} {next : World}
      (newStack : stack ≠ 0 → ∀ u, w.InUse .stack u → (w.sched.task u).stackBase ≠ stack)
      (step : Step w.world (.create t stack kernelCr3) next) :
      ReaperStep w (.call (.create t stack kernelCr3)) { w with world := next }
  | spawn {w : ReaperWorld} {t stack userCr3 : Nat} {next : World}
      (newStack : stack ≠ 0 → ∀ u, w.InUse .stack u → (w.sched.task u).stackBase ≠ stack)
      (newTables : userCr3 ≠ 0 ∧ userCr3 ≠ kernelCr3 ∧ ∀ u, w.InUse .tables u → (w.sched.task u).cr3 ≠ userCr3)
      (step : Step w.world (.spawn t stack kernelCr3 userCr3) next) :
      ReaperStep w (.call (.spawn t stack kernelCr3 userCr3)) { w with world := next }
  | request {w : ReaperWorld} {next : World} (step : Step w.world .request next) :
      ReaperStep w (.call .request) { w with world := next }
  | interrupt {w : ReaperWorld} {rsp : Nat} {next : World} (step : Step w.world (.interrupt rsp) next) :
      ReaperStep w (.call (.interrupt rsp)) { w with world := next }
  | exit {w : ReaperWorld} {next : World} (other : w.sched.current ≠ reaper) (step : Step w.world .exit next) :
      ReaperStep w (.call .exit) { w with world := next }
  | pop {w : ReaperWorld} {next : World} (turn : w.sched.current = reaper) (idle : w.held = none)
      (step : Step w.world .pop next) :
      ReaperStep w (.call .pop) { w with
        world := next
        held := if (reaperPop w.sched).1 = 0 then none else some ((reaperPop w.sched).1, allResources) }
  | free {w : ReaperWorld} {d : Nat} {r : Resource} {next : Resource} {rest : List Resource} (turn : w.sched.current = reaper)
      (held : w.held = some (d, r :: next :: rest)) :
      ReaperStep w .reap { w with held := some (d, next :: rest), log := w.logAfter kernelCr3 d r }
  | freeLast {w : ReaperWorld} {d : Nat} {r : Resource} {next : World} (turn : w.sched.current = reaper)
      (held : w.held = some (d, [r])) (step : Step w.world (.free d) next) :
      ReaperStep w .reap { world := next, held := none, log := w.logAfter kernelCr3 d r }

end

def Scheduler.static (s : Scheduler) (t : Nat) : Nat × Nat × Nat := ((s.task t).id, (s.task t).stackBase, (s.task t).cr3)

section
variable {s : Scheduler} {t : Nat}

theorem setTask_static {value : Task} (same : (value.id, value.stackBase, value.cr3) = s.static t) :
    (s.setTask t value).static = s.static := by
  funext u
  by_cases here : u = t
  · rw [here, ← same]
    simp [Scheduler.static]
  · simp [Scheduler.static, here]

theorem setNext_static (s : Scheduler) (t next : Nat) : (s.setNext t next).static = s.static := setTask_static rfl

theorem setState_static (s : Scheduler) (t : Nat) (state : TaskState) : (s.setState t state).static = s.static :=
  setTask_static rfl

theorem unlinkAfter_static (s : Scheduler) (p t : Nat) : (unlinkAfter s p t).static = s.static ∧ (unlinkAfter s p t).nextId = s.nextId ∧
    (unlinkAfter s p t).cr3 = s.cr3 := by
  unfold unlinkAfter
  dsimp only
  rw [setNext_static]
  split <;> exact ⟨setNext_static s p (s.link t), rfl, rfl⟩

theorem saveTask_static (s : Scheduler) (prev rsp : Nat) : (saveTask s prev rsp).static = s.static := by
  unfold saveTask
  apply setTask_static
  split <;> rfl

theorem buryTask_static {ring dead : List Nat} {exiting : Bool} (ok : SchedOk s ring dead exiting) (others : s.link s.current ≠ s.current)
    {fuel : Nat} {r : Scheduler} (done : buryTask fuel s s.current = some r) :
    r.static = s.static ∧ r.nextId = s.nextId ∧ r.cr3 = s.cr3 := by
  unfold buryTask at done
  obtain ⟨mid, removed, rfl⟩ := Option.map_eq_some_iff.mp done
  obtain ⟨q, _, _, _, _, rfl, _⟩ := listRemove_current ok others removed
  obtain ⟨static, nextId, cr3⟩ := unlinkAfter_static s q s.current
  refine ⟨?_, nextId, cr3⟩
  rw [← static]
  exact setNext_static _ _ _

theorem listInsert_static (s : Scheduler) (t : Nat) : (listInsert s t).static = s.static := by
  unfold listInsert
  split
  · exact setNext_static { s with head := t } t t
  · rw [setNext_static, setNext_static]

theorem switch_static {ring dead : List Nat} {exiting : Bool} (ok : SchedOk s ring dead exiting) {fuel rsp newRsp : Nat} {next : Scheduler}
    (switched : schedMaybeSwitch fuel s rsp = some (.switched newRsp next)) :
    next.static = s.static ∧ next.nextId = s.nextId ∧
      (s.cr3 = (s.task s.current).cr3 → next.cr3 = (next.task next.current).cr3) := by
  rcases schedMaybeSwitch_inv ok switched with ⟨_, other⟩ | ⟨_, _, ⟨_, other⟩ | ⟨_, other⟩⟩ | ⟨_, others, _, left, same, way⟩
  · cases other
  · cases other
  · cases other
  cases same
  have leftSame : left.static = s.static ∧ left.nextId = s.nextId ∧ left.cr3 = s.cr3 := by
    rcases way with ⟨_, rfl⟩ | ⟨_, buried⟩
    · exact ⟨saveTask_static _ _ _, rfl, rfl⟩
    · exact buryTask_static (ok.resched false) others buried
  have loaded : (loadTask left s.current (s.link s.current)).static = left.static := setState_static left _ _
  refine ⟨loaded.trans leftSame.1, leftSame.2.1, ?_⟩
  intro here
  have tables : ∀ t, (left.task t).cr3 = (s.task t).cr3 ∧
      ((left.setState (s.link s.current) .running).task t).cr3 = (s.task t).cr3 := by
    intro t
    have first := congrFun leftSame.1 t
    have second := congrFun ((setState_static left (s.link s.current) .running).trans leftSame.1) t
    exact ⟨congrArg (fun f => f.2.2) first, congrArg (fun f => f.2.2) second⟩
  unfold loadTask
  dsimp only
  rw [(tables _).2, (tables _).2]
  split
  · rfl
  · rename_i same
    show left.cr3 = _
    rw [leftSame.2.2, here]
    exact not_not.mp same

end

structure Account (kernelCr3 : Nat) (s : Scheduler) (InUse : Resource → Nat → Prop) (log : List (Nat × Resource)) : Prop where
  known : ∀ r t, InUse r t → InUse .descriptor t
  distinct : ∀ r t u, InUse r t → InUse r u → isOwn kernelCr3 s t r = true → resourceOf s t r = resourceOf s u r → t = u
  ids : ∀ t u, InUse .descriptor t → InUse .descriptor u → (s.task t).id = (s.task u).id → t = u
  bound : ∀ t, InUse .descriptor t → (s.task t).id < s.nextId
  once : log.Nodup
  gone : ∀ i r, (i, r) ∈ log → i < s.nextId ∧ ∀ t, InUse r t → (s.task t).id ≠ i

section
variable {kernelCr3 : Nat} {s s' : Scheduler} {InUse InUse' : Resource → Nat → Prop} {log : List (Nat × Resource)}

theorem static_fields (kernelCr3 : Nat) {t : Nat} (same : s'.static t = s.static t) (r : Resource) :
    (s'.task t).id = (s.task t).id ∧ resourceOf s' t r = resourceOf s t r ∧ isOwn kernelCr3 s' t r = isOwn kernelCr3 s t r := by
  obtain ⟨id, rest⟩ := Prod.mk.inj same
  obtain ⟨stack, cr3⟩ := Prod.mk.inj rest
  cases r with
  | tables => exact ⟨id, cr3, by simp only [isOwn, cr3]⟩
  | stack => exact ⟨id, stack, by simp only [isOwn, stack]⟩
  | descriptor => exact ⟨id, rfl, rfl⟩

theorem Account.mono (ok : Account kernelCr3 s InUse log) (static : ∀ t, InUse' .descriptor t → s'.static t = s.static t)
    (nextId : s'.nextId = s.nextId) (fewer : ∀ r t, InUse' r t → InUse r t) (known : ∀ r t, InUse' r t → InUse' .descriptor t) :
    Account kernelCr3 s' InUse' log := by
  have same : ∀ r t, InUse' r t → ∀ r', (s'.task t).id = (s.task t).id ∧ resourceOf s' t r' = resourceOf s t r' ∧
      isOwn kernelCr3 s' t r' = isOwn kernelCr3 s t r' := fun r t used r' => static_fields kernelCr3 (static t (known r t used)) r'
  constructor
  case known => exact known
  case distinct =>
    intro r t u usedT usedU own equal
    rw [(same r t usedT r).2.1, (same r u usedU r).2.1] at equal
    rw [(same r t usedT r).2.2] at own
    exact ok.distinct r t u (fewer r t usedT) (fewer r u usedU) own equal
  case ids =>
    intro t u usedT usedU equal
    rw [(same _ t usedT .descriptor).1, (same _ u usedU .descriptor).1] at equal
    exact ok.ids t u (fewer _ t usedT) (fewer _ u usedU) equal
  case bound =>
    intro t used
    rw [(same _ t used .descriptor).1, nextId]
    exact ok.bound t (fewer _ t used)
  case once => exact ok.once
  case gone =>
    intro i r member
    obtain ⟨old, others⟩ := ok.gone i r member
    rw [nextId]
    refine ⟨old, ?_⟩
    intro t used
    rw [(same r t used r).1]
    exact others t (fewer r t used)

theorem Account.create {t : Nat} (ok : Account kernelCr3 s InUse log) (static : ∀ u, u ≠ t → s'.static u = s.static u)
    (id : (s'.task t).id = s.nextId) (nextId : s'.nextId = s.nextId + 1) (fresh : ∀ r, ¬ InUse r t)
    (stack : ∀ u, InUse .stack u → (s.task u).stackBase ≠ (s'.task t).stackBase)
    (tables : (s'.task t).cr3 = kernelCr3 ∨ ∀ u, InUse .tables u → (s.task u).cr3 ≠ (s'.task t).cr3)
    (more : ∀ r u, InUse' r u ↔ u = t ∨ InUse r u) : Account kernelCr3 s' InUse' log := by
  have other : ∀ r u, InUse r u → u ≠ t := fun r u used here => fresh r (here ▸ used)
  have same : ∀ r u, InUse r u → ∀ r', (s'.task u).id = (s.task u).id ∧ resourceOf s' u r' = resourceOf s u r' ∧
      isOwn kernelCr3 s' u r' = isOwn kernelCr3 s u r' := fun r u used r' => static_fields kernelCr3 (static u (other r u used)) r'
  -- what the new task has is not in use
  have new : ∀ r u, InUse r u → isOwn kernelCr3 s' t r = true → resourceOf s u r ≠ resourceOf s' t r := by
    intro r u used own
    cases r with
    | tables =>
      rcases tables with kernel | apart
      · simp [isOwn, kernel] at own
      · exact apart u used
    | stack => exact stack u used
    | descriptor => exact other .descriptor u used
  constructor
  case known =>
    intro r u used
    rcases (more r u).mp used with here | old
    · exact (more _ u).mpr (Or.inl here)
    · exact (more _ u).mpr (Or.inr (ok.known r u old))
  case distinct =>
    intro r u v usedU usedV own equal
    rcases (more r u).mp usedU with rfl | oldU <;> rcases (more r v).mp usedV with rfl | oldV
    · rfl
    · rw [(same r v oldV r).2.1] at equal
      exact absurd equal.symm (new r v oldV own)
    · -- the same resource, so it is one that the reaper frees for both
      have own' : isOwn kernelCr3 s' v r = true := by
        cases r with
        | tables => simpa [isOwn, resourceOf, ← show (s'.task u).cr3 = (s'.task v).cr3 from equal] using own
        | stack => simpa [isOwn, resourceOf, ← show (s'.task u).stackBase = (s'.task v).stackBase from equal] using own
        | descriptor => rfl
      rw [(same r u oldU r).2.1] at equal
      exact absurd equal (new r u oldU own')
    · rw [(same r u oldU r).2.1, (same r v oldV r).2.1] at equal
      rw [(same r u oldU r).2.2] at own
      exact ok.distinct r u v oldU oldV own equal
  case ids =>
    intro u v usedU usedV equal
    rcases (more _ u).mp usedU with rfl | oldU <;> rcases (more _ v).mp usedV with rfl | oldV
    · rfl
    · have := ok.bound v oldV
      rw [(same _ v oldV .descriptor).1, id] at equal
      omega
    · have := ok.bound u oldU
      rw [(same _ u oldU .descriptor).1, id] at equal
      omega
    · rw [(same _ u oldU .descriptor).1, (same _ v oldV .descriptor).1] at equal
      exact ok.ids u v oldU oldV equal
  case bound =>
    intro u used
    rw [nextId]
    rcases (more _ u).mp used with rfl | old
    · omega
    · have := ok.bound u old
      rw [(same _ u old .descriptor).1]
      omega
  case once => exact ok.once
  case gone =>
    intro i r member
    obtain ⟨before, others⟩ := ok.gone i r member
    refine ⟨by omega, ?_⟩
    intro u used
    rcases (more r u).mp used with rfl | old
    · omega
    · rw [(same r u old r).1]
      exact others u old

theorem Account.freed {d : Nat} {r : Resource} (ok : Account kernelCr3 s InUse log) (used : InUse r d)
    (static : ∀ t, InUse' .descriptor t → s'.static t = s.static t)
    (nextId : s'.nextId = s.nextId) (fewer : ∀ r t, InUse' r t → InUse r t) (known : ∀ r t, InUse' r t → InUse' .descriptor t)
    (free : ¬ InUse' r d) : Account kernelCr3 s' InUse' (log ++ [((s.task d).id, r)]) := by
  have less := ok.mono static nextId fewer known
  refine { less with once := ?_, gone := ?_ }
  · apply List.Nodup.append ok.once (List.nodup_singleton _)
    intro entry member here
    cases List.mem_singleton.mp here
    exact (ok.gone _ r member).2 d used rfl
  · intro i r' member
    rcases List.mem_append.mp member with old | new
    · exact less.gone i r' old
    · cases List.mem_singleton.mp new
      rw [nextId]
      refine ⟨ok.bound d (ok.known r d used), ?_⟩
      intro t still equal
      have sameId := (static_fields kernelCr3 (static t (known r t still)) r).1
      rw [sameId] at equal
      obtain rfl := ok.ids t d (ok.known r t (fewer r t still)) (ok.known r d used) equal
      exact free still

end

section
variable {w next : World} {e : Event} {ring dead : List Nat} {reaper : Nat}

theorem leave_sched (w : World) (s : Scheduler) : (w.leave s).sched = s := by
  unfold World.leave
  dsimp only
  split <;> rfl

theorem taskCreate_other {s : Scheduler} {t u : Nat} (stack kernelCr3 : Nat) (other : u ≠ t) :
    ((taskCreate s t stack kernelCr3).task u).state = (s.task u).state ∧
      (taskCreate s t stack kernelCr3).static u = s.static u := by
  unfold taskCreate
  split
  · exact ⟨rfl, rfl⟩
  · constructor
    · unfold listInsert
      split <;> simp [other]
    · rw [listInsert_static]
      simp [Scheduler.static, other]

theorem taskCreate_registers (s : Scheduler) (t stack kernelCr3 : Nat) :
    (taskCreate s t stack kernelCr3).current = s.current ∧ (taskCreate s t stack kernelCr3).cr3 = s.cr3 := by
  unfold taskCreate listInsert
  split
  · exact ⟨rfl, rfl⟩
  · split <;> exact ⟨rfl, rfl⟩

theorem taskCreate_static (s : Scheduler) {t stack : Nat} (kernelCr3 : Nat) (some' : ¬ (t = 0 ∨ stack = 0)) :
    (taskCreate s t stack kernelCr3).static t = (s.nextId, stack, kernelCr3) ∧
      (taskCreate s t stack kernelCr3).nextId = s.nextId + 1 := by
  rw [taskCreate, if_neg some']
  constructor
  · rw [listInsert_static]
    simp [Scheduler.static, newTask]
  · unfold listInsert
    split <;> rfl

theorem taskSpawnUser_registers (s : Scheduler) (t stack kernelCr3 userCr3 : Nat) :
    (taskSpawnUser s t stack kernelCr3 userCr3).current = s.current ∧
      (taskSpawnUser s t stack kernelCr3 userCr3).cr3 = s.cr3 := by
  have created := taskCreate_registers s t stack kernelCr3
  unfold taskSpawnUser
  split <;> exact created

theorem taskSpawnUser_static (s : Scheduler) {t stack : Nat} (kernelCr3 userCr3 : Nat) (some' : ¬ (t = 0 ∨ stack = 0)) :
    (taskSpawnUser s t stack kernelCr3 userCr3).static t = (s.nextId, stack, userCr3) ∧
      (taskSpawnUser s t stack kernelCr3 userCr3).nextId = s.nextId + 1 := by
  obtain ⟨static, nextId⟩ := taskCreate_static s kernelCr3 some'
  rw [taskSpawnUser, if_neg some']
  refine ⟨?_, nextId⟩
  obtain ⟨id, rest⟩ := Prod.mk.inj static
  simp [Scheduler.static, id, (Prod.mk.inj rest).1]

theorem taskSpawnUser_other {s : Scheduler} {t u : Nat} (stack kernelCr3 userCr3 : Nat) (other : u ≠ t) :
    ((taskSpawnUser s t stack kernelCr3 userCr3).task u).state = (s.task u).state ∧
      (taskSpawnUser s t stack kernelCr3 userCr3).static u = s.static u := by
  have created := taskCreate_other (s := s) stack kernelCr3 other
  unfold taskSpawnUser
  split
  · exact created
  · constructor
    · rw [Scheduler.setTask_task, Function.update_of_ne other]
      exact created.1
    · rw [← created.2]
      simp [Scheduler.static, other]

theorem step_reaper (ok : WorldOk w ring dead) (alive : reaper ∈ w.alive) (lives : (w.sched.task reaper).state ≠ .dead)
    (taken : Step w e next) (other : e = .exit → w.sched.current ≠ reaper) :
    reaper ∈ next.alive ∧ (next.sched.task reaper).state ≠ .dead := by
  have grows : ∀ t stack, reaper ∈ w.addTask t stack := by
    intro t stack
    unfold World.addTask
    split
    · exact alive
    · exact Finset.mem_insert_of_mem alive
  have switches := taken
  cases taken with
  | @create t stack kernelCr3 fresh =>
    have apart : reaper ≠ t := fun same => fresh.1 (same ▸ alive)
    refine ⟨grows t stack, ?_⟩
    rw [(taskCreate_other stack kernelCr3 apart).1]
    exact lives
  | @spawn t stack kernelCr3 userCr3 fresh =>
    have apart : reaper ≠ t := fun same => fresh.1 (same ▸ alive)
    refine ⟨grows t stack, ?_⟩
    rw [(taskSpawnUser_other stack kernelCr3 userCr3 apart).1]
    exact lives
  | request => exact ⟨alive, lives⟩
  | exit =>
    refine ⟨alive, ?_⟩
    show ((w.sched.setState w.sched.current .dead).task reaper).state ≠ _
    rw [Scheduler.setState_state, if_neg (Ne.symm (other rfl))]
    exact lives
  | stay kept =>
    refine ⟨alive, ?_⟩
    rcases schedMaybeSwitch_cases ok.sched kept with
      ⟨_, same⟩ | ⟨_, _, same⟩ | ⟨_, _, none⟩ | ⟨_, _, _, _, _, none, _⟩
    · cases same
      exact lives
    · cases same
      exact lives
    · cases none
    · cases none
  | @switch rsp fuel newRsp s' switched =>
    have still : reaper ∈ (w.leave s').alive := by
      unfold World.leave
      dsimp only
      split
      · rename_i isDead
        refine Finset.mem_erase.mpr ⟨?_, alive⟩
        rintro rfl
        exact lives isDead
      · exact alive
    refine ⟨still, ?_⟩
    -- now every task of the ring is ready, or runs
    obtain ⟨ring', dead', ok'⟩ := step_ok switches ok
    have quiet : (w.leave s').exiting = false := by
      unfold World.leave
      dsimp only
      split <;> rfl
    by_cases here : (w.leave s').sched.current = reaper
    · have running := ok'.sched.running
      rw [here, quiet] at running
      rcases running with runs | ⟨_, exiting⟩
      · rw [runs]
        nofun
      · cases exiting
    · rw [ok'.sched.ready reaper ((ok'.alive reaper).mpr still) (Ne.symm here)]
      nofun
  | pop =>
    refine ⟨alive, ?_⟩
    show ((reaperPop w.sched).2.task reaper).state ≠ _
    unfold reaperPop
    split <;> exact lives
  | @free t garbage held =>
    refine ⟨alive, ?_⟩
    have apart : reaper ≠ t := by
      rintro rfl
      exact (ok.popped reaper held).1 ((ok.alive reaper).mpr alive)
    show ((w.sched.setTask t garbage).task reaper).state ≠ _
    rw [Scheduler.setTask_task, Function.update_of_ne apart]
    exact lives

theorem step_static (ok : WorldOk w ring dead) (cr3 : w.sched.cr3 = (w.sched.task w.sched.current).cr3) (taken : Step w e next)
    (quiet : e = .request ∨ e = .exit ∨ e = .pop ∨ ∃ rsp, e = .interrupt rsp) :
    next.sched.static = w.sched.static ∧ next.sched.nextId = w.sched.nextId ∧
      next.sched.cr3 = (next.sched.task next.sched.current).cr3 := by
  cases taken with
  | create _ => rcases quiet with other | other | other | ⟨_, other⟩ <;> cases other
  | spawn _ => rcases quiet with other | other | other | ⟨_, other⟩ <;> cases other
  | free _ => rcases quiet with other | other | other | ⟨_, other⟩ <;> cases other
  | request => exact ⟨rfl, rfl, cr3⟩
  | exit =>
    refine ⟨setState_static _ _ _, rfl, ?_⟩
    have same := congrFun (setState_static w.sched w.sched.current .dead) w.sched.current
    exact cr3.trans (congrArg (fun f => f.2.2) same).symm
  | stay kept =>
    rcases schedMaybeSwitch_cases ok.sched kept with
      ⟨_, same⟩ | ⟨_, _, same⟩ | ⟨_, _, none⟩ | ⟨_, _, _, _, _, none, _⟩
    · cases same
      exact ⟨rfl, rfl, cr3⟩
    · cases same
      exact ⟨rfl, rfl, cr3⟩
    · cases none
    · cases none
  | switch switched =>
    rw [leave_sched]
    obtain ⟨static, nextId, loaded⟩ := switch_static ok.sched switched
    exact ⟨static, nextId, loaded cr3⟩
  | pop =>
    show (reaperPop w.sched).2.static = _ ∧ (reaperPop w.sched).2.nextId = _ ∧ (reaperPop w.sched).2.cr3 = _
    unfold reaperPop
    split <;> exact ⟨rfl, rfl, cr3⟩

end

structure ReaperOk (reaper kernelCr3 : Nat) (w : ReaperWorld) (ring dead : List Nat) : Prop where
  world : WorldOk w.world ring dead
  alive : reaper ∈ w.world.alive
  lives : (w.sched.task reaper).state ≠ .dead
  cr3 : w.sched.cr3 = (w.sched.task w.sched.current).cr3
  held : ∀ d todo, w.held = some (d, todo) → d ∈ w.world.popped ∧ ∃ done, done ++ todo = allResources
  account : Account kernelCr3 w.sched w.InUse w.log

section
variable {reaper kernelCr3 : Nat} {w : ReaperWorld} {ring dead : List Nat}

theorem descriptor_last {done todo : List Resource} (whole : done ++ todo = allResources) (some' : todo ≠ []) : .descriptor ∈ todo := by
  have last := congrArg List.getLast? whole
  rw [List.getLast?_append_of_ne_nil _ some'] at last
  exact List.mem_of_getLast? last

theorem inUse_known (held : ∀ d todo, w.held = some (d, todo) → ∃ done, done ++ todo = allResources) (r : Resource) (t : Nat)
    (used : w.InUse r t) : w.InUse .descriptor t := by
  rcases used with alive | buried | ⟨todo, holds, inside⟩
  · exact Or.inl alive
  · exact Or.inr (Or.inl buried)
  · obtain ⟨done, whole⟩ := held t todo holds
    exact Or.inr (Or.inr ⟨todo, holds, descriptor_last whole (List.ne_nil_of_mem inside)⟩)

theorem ReaperOk.held_apart (ok : ReaperOk reaper kernelCr3 w ring dead) {d : Nat} {todo : List Resource}
    (held : w.held = some (d, todo)) : d ∉ w.world.alive ∧ d ∉ w.world.buried ∧ w.sched.current ≠ d := by
  have outside := ok.world.popped d (ok.held d todo held).1
  refine ⟨fun alive => outside.1 ((ok.world.alive d).mpr alive), fun buried => outside.2 ((ok.world.buried d).mpr buried), ?_⟩
  rintro rfl
  exact outside.1 ok.world.sched.current

theorem ReaperOk.quiet (ok : ReaperOk reaper kernelCr3 w ring dead) {e : Event} {next : World} (taken : Step w.world e next)
    (kind : e = .request ∨ e = .exit ∨ ∃ rsp, e = .interrupt rsp) (other : e = .exit → w.sched.current ≠ reaper)
    (fewer : ∀ t, t ∈ next.alive ∨ t ∈ next.buried → t ∈ w.world.alive ∨ t ∈ w.world.buried) (popped : next.popped = w.world.popped) :
    ∃ ring' dead', ReaperOk reaper kernelCr3 { w with world := next } ring' dead' := by
  obtain ⟨ring', dead', world⟩ := step_ok taken ok.world
  obtain ⟨alive, lives⟩ := step_reaper ok.world ok.alive ok.lives taken other
  obtain ⟨static, nextId, cr3⟩ := step_static ok.world ok.cr3 taken (by
    rcases kind with rfl | rfl | interrupt
    · exact Or.inl rfl
    · exact Or.inr (Or.inl rfl)
    · exact Or.inr (Or.inr (Or.inr interrupt)))
  have held : ∀ d todo, w.held = some (d, todo) → d ∈ next.popped ∧ ∃ done, done ++ todo = allResources := by
    rw [popped]
    exact ok.held
  refine ⟨ring', dead', world, alive, lives, cr3, held, ?_⟩
  apply ok.account.mono
  · exact fun t _ => congrFun static t
  · exact nextId
  · rintro r t (alive | buried | holds)
    · exact (fewer t (Or.inl alive)).imp_right Or.inl
    · exact (fewer t (Or.inr buried)).imp_right Or.inl
    · exact Or.inr (Or.inr holds)
  · exact inUse_known fun d todo holds => (held d todo holds).2

theorem ReaperOk.create (ok : ReaperOk reaper kernelCr3 w ring dead) {e : Event} {t stack cr3 : Nat} {s : Scheduler}
    (taken : Step w.world e { w.world with sched := s, alive := w.world.addTask t stack }) (notExit : e ≠ .exit)
    (fresh : w.world.Fresh t) (failed : t = 0 ∨ stack = 0 → s = w.sched)
    (others : ∀ u, u ≠ t → s.static u = w.sched.static u) (registers : s.current = w.sched.current ∧ s.cr3 = w.sched.cr3)
    (made : ¬ (t = 0 ∨ stack = 0) → s.static t = (w.sched.nextId, stack, cr3) ∧ s.nextId = w.sched.nextId + 1)
    (newStack : stack ≠ 0 → ∀ u, w.InUse .stack u → (w.sched.task u).stackBase ≠ stack)
    (newTables : cr3 = kernelCr3 ∨ ∀ u, w.InUse .tables u → (w.sched.task u).cr3 ≠ cr3) :
    ∃ ring' dead', ReaperOk reaper kernelCr3
      { w with world := { w.world with sched := s, alive := w.world.addTask t stack } } ring' dead' := by
  obtain ⟨ring', dead', world⟩ := step_ok taken ok.world
  obtain ⟨alive, lives⟩ := step_reaper ok.world ok.alive ok.lives taken fun exit => absurd exit notExit
  have current : w.sched.current ≠ t := by
    rintro rfl
    exact fresh.1 ((ok.world.alive _).mp ok.world.sched.current)
  have loaded : s.cr3 = (s.task s.current).cr3 := by
    rw [registers.1, registers.2, ok.cr3]
    exact (congrArg (fun f => f.2.2) (others _ current)).symm
  refine ⟨ring', dead', world, alive, lives, loaded, ok.held, ?_⟩
  by_cases none' : t = 0 ∨ stack = 0
  · -- the heap had no room
    have same : w.world.addTask t stack = w.world.alive := if_pos none'
    rw [failed none', same]
    exact ok.account
  · obtain ⟨static, nextId⟩ := made none'
    obtain ⟨id, rest⟩ := Prod.mk.inj static
    obtain ⟨stackBase, tables⟩ := Prod.mk.inj rest
    apply ok.account.create others id nextId
    · rintro r (alive | buried | ⟨todo, holds, _⟩)
      · exact fresh.1 alive
      · exact fresh.2.1 buried
      · exact fresh.2.2 (ok.held t todo holds).1
    · rw [stackBase]
      exact newStack (not_or.mp none').2
    · rw [tables]
      exact newTables
    · intro r u
      unfold ReaperWorld.InUse
      dsimp only
      rw [World.addTask, if_neg none', Finset.mem_insert, or_assoc]

theorem ReaperOk.pop (ok : ReaperOk reaper kernelCr3 w ring dead) {next : World}
    (taken : Step w.world .pop next) :
    ∃ ring' dead', ReaperOk reaper kernelCr3 { w with
      world := next
      held := if (reaperPop w.sched).1 = 0 then none else some ((reaperPop w.sched).1, allResources) } ring' dead' := by
  obtain ⟨ring', dead', world⟩ := step_ok taken ok.world
  obtain ⟨alive, lives⟩ := step_reaper ok.world ok.alive ok.lives taken nofun
  obtain ⟨static, nextId, cr3⟩ := step_static ok.world ok.cr3 taken (Or.inr (Or.inr (Or.inl rfl)))
  have top : (reaperPop w.sched).1 ≠ 0 → (reaperPop w.sched).1 ∈ w.world.buried := by
    intro some'
    apply (ok.world.buried _).mp
    have path := ok.world.sched.deadPath
    unfold reaperPop at some' ⊢
    split
    · rename_i null
      rw [if_pos null] at some'
      exact absurd rfl some'
    · rename_i full
      cases dead with
      | nil => exact absurd path full
      | cons d rest =>
        have here : w.sched.deadList = d := path.1
        rw [here]
        exact List.mem_cons_self
  cases taken
  have held : ∀ d todo, (if (reaperPop w.sched).1 = 0 then none else some ((reaperPop w.sched).1, allResources)) = some (d, todo) →
      (d = (reaperPop w.sched).1 ∧ d ≠ 0) ∧ todo = allResources := by
    intro d todo holds
    split at holds
    · cases holds
    · cases holds
      exact ⟨⟨rfl, ‹_›⟩, rfl⟩
  refine ⟨ring', dead', world, alive, lives, cr3, ?_, ?_⟩
  · intro d todo holds
    obtain ⟨⟨rfl, some'⟩, rfl⟩ := held d todo holds
    exact ⟨by simp [show ¬ (reaperPop w.world.sched).1 = 0 from some', ReaperWorld.sched], [], rfl⟩
  · apply ok.account.mono
    · exact fun t _ => congrFun static t
    · exact nextId
    · rintro r t (alive | buried | ⟨todo, holds, _⟩)
      · exact Or.inl alive
      · exact Or.inr (Or.inl (Finset.mem_of_mem_erase buried))
      · obtain ⟨⟨rfl, some'⟩, _⟩ := held t todo holds
        exact Or.inr (Or.inl (top some'))
    · apply inUse_known
      intro d todo holds
      obtain ⟨_, rfl⟩ := held d todo holds
      exact ⟨[], rfl⟩

theorem ReaperOk.freed (ok : ReaperOk reaper kernelCr3 w ring dead) {d : Nat} {r : Resource} {rest : List Resource}
    (held : w.held = some (d, r :: rest)) {next : ReaperWorld} (static : ∀ t, t ≠ d ∨ rest ≠ [] → next.sched.static t = w.sched.static t)
    (nextId : next.sched.nextId = w.sched.nextId) (alive : next.world.alive = w.world.alive)
    (buried : next.world.buried = w.world.buried) (holds : ∀ t todo, next.held = some (t, todo) → t = d ∧ todo = rest ∧ rest ≠ []) :
    Account kernelCr3 next.sched next.InUse (w.logAfter kernelCr3 d r) := by
  obtain ⟨popped, done, whole⟩ := ok.held d _ held
  obtain ⟨notAlive, notBuried, _⟩ := ok.held_apart held
  have used : w.InUse r d := Or.inr (Or.inr ⟨_, held, List.mem_cons_self⟩)
  have distinct : (done ++ r :: rest).Nodup := by
    rw [whole]
    decide
  have apart : r ∉ rest := (List.nodup_cons.mp (List.nodup_append.mp distinct).2.1).1
  have fewer : ∀ r' t, next.InUse r' t → w.InUse r' t ∧ (t ≠ d ∨ rest ≠ []) := by
    rintro r' t (here | here | ⟨todo, here, inside⟩)
    · rw [alive] at here
      exact ⟨Or.inl here, Or.inl fun same => notAlive (same ▸ here)⟩
    · rw [buried] at here
      exact ⟨Or.inr (Or.inl here), Or.inl fun same => notBuried (same ▸ here)⟩
    · obtain ⟨rfl, rfl, some'⟩ := holds t todo here
      exact ⟨Or.inr (Or.inr ⟨_, held, List.mem_cons_of_mem _ inside⟩), Or.inr some'⟩
  have known : ∀ r' t, next.InUse r' t → next.InUse .descriptor t := by
    apply inUse_known
    intro t todo here
    obtain ⟨_, rfl, _⟩ := holds t todo here
    exact ⟨done ++ [r], by rw [List.append_assoc]; exact whole⟩
  have free : ¬ next.InUse r d := by
    rintro (here | here | ⟨todo, here, inside⟩)
    · exact notAlive (alive ▸ here)
    · exact notBuried (buried ▸ here)
    · obtain ⟨_, rfl, _⟩ := holds d todo here
      exact apart inside
  have same : ∀ t, next.InUse .descriptor t → next.sched.static t = w.sched.static t := fun t here => static t (fewer _ t here).2
  unfold ReaperWorld.logAfter
  split
  · exact ok.account.freed used same nextId (fun r' t here => (fewer r' t here).1) known free
  · exact ok.account.mono same nextId (fun r' t here => (fewer r' t here).1) known

theorem ReaperOk.freeLast (ok : ReaperOk reaper kernelCr3 w ring dead) {d : Nat} {r : Resource} (held : w.held = some (d, [r]))
    {next : World} (taken : Step w.world (.free d) next) :
    ∃ ring' dead', ReaperOk reaper kernelCr3 { world := next, held := none, log := w.logAfter kernelCr3 d r } ring' dead' := by
  obtain ⟨ring', dead', world⟩ := step_ok taken ok.world
  obtain ⟨alive, lives⟩ := step_reaper ok.world ok.alive ok.lives taken nofun
  obtain ⟨_, _, notCurrent⟩ := ok.held_apart held
  cases taken with
  | @free _ garbage inPopped =>
    have other : ∀ t, t ≠ d → (w.world.sched.setTask d garbage).static t = w.world.sched.static t := by
      intro t apart
      simp [Scheduler.static, apart]
    have cr3 : (w.world.sched.setTask d garbage).cr3 = ((w.world.sched.setTask d garbage).task w.world.sched.current).cr3 :=
      ok.cr3.trans (congrArg (fun f => f.2.2) (other _ notCurrent)).symm
    refine ⟨ring', dead', world, alive, lives, cr3, nofun, ?_⟩
    apply ok.freed held
    · rintro t (apart | some')
      · exact other t apart
      · exact absurd rfl some'
    · rfl
    · rfl
    · rfl
    · exact nofun

theorem reaper_step (ok : ReaperOk reaper kernelCr3 w ring dead) {e : ReaperEvent} {next : ReaperWorld}
    (taken : ReaperStep reaper kernelCr3 w e next) : ∃ ring' dead', ReaperOk reaper kernelCr3 next ring' dead' := by
  cases taken with
  | @create t stack _ newStack step =>
    have created := step
    cases step with
    | create fresh =>
      apply ok.create created (by rintro ⟨⟩) fresh
      · intro none'
        rw [taskCreate, if_pos none']
        rfl
      · exact fun u other => (taskCreate_other stack kernelCr3 other).2
      · exact taskCreate_registers w.sched t stack kernelCr3
      · exact taskCreate_static w.sched kernelCr3
      · exact newStack
      · exact Or.inl rfl
  | @spawn t stack userCr3 _ newStack newTables step =>
    have created := step
    cases step with
    | spawn fresh =>
      apply ok.create created (by rintro ⟨⟩) fresh
      · intro none'
        rw [taskSpawnUser, if_pos none', taskCreate, if_pos none']
        rfl
      · exact fun u other => (taskSpawnUser_other stack kernelCr3 userCr3 other).2
      · exact taskSpawnUser_registers w.sched t stack kernelCr3 userCr3
      · exact taskSpawnUser_static w.sched kernelCr3 userCr3
      · exact newStack
      · exact Or.inr newTables.2.2
  | request step =>
    have requested := step
    cases step
    exact ok.quiet requested (Or.inl rfl) (by rintro ⟨⟩) (fun _ here => here) rfl
  | exit other step =>
    have exited := step
    cases step
    exact ok.quiet exited (Or.inr (Or.inl rfl)) (fun _ => other) (fun _ here => here) rfl
  | interrupt step =>
    have interrupted := step
    cases step with
    | stay kept => exact ok.quiet interrupted (Or.inr (Or.inr ⟨_, rfl⟩)) (by rintro ⟨⟩) (fun _ here => here) rfl
    | @switch _ _ _ s switched =>
      apply ok.quiet interrupted (Or.inr (Or.inr ⟨_, rfl⟩)) (by rintro ⟨⟩)
      · intro t here
        unfold World.leave at here
        dsimp only at here
        split at here
        · rcases here with alive | buried
          · exact Or.inl (Finset.mem_of_mem_erase alive)
          · rcases Finset.mem_insert.mp buried with rfl | old
            · exact Or.inl ((ok.world.alive _).mp ok.world.sched.current)
            · exact Or.inr old
        · exact here
      · unfold World.leave
        dsimp only
        split <;> rfl
  | pop turn idle step => exact ok.pop step
  | @free d r r' rest turn held =>
    obtain ⟨popped, done, whole⟩ := ok.held d _ held
    refine ⟨ring, dead, ok.world, ok.alive, ok.lives, ok.cr3, ?_, ?_⟩
    · intro t todo here
      cases here
      exact ⟨popped, done ++ [r], by rw [List.append_assoc]; exact whole⟩
    · apply ok.freed held
      · exact fun _ _ => rfl
      · rfl
      · rfl
      · rfl
      · intro t todo here
        cases here
        exact ⟨rfl, rfl, List.cons_ne_nil _ _⟩
  | freeLast turn held step => exact ok.freeLast held step

end

/-- `sched_init` has created the boot task and the reaper. -/
def initialReaper (memory : Nat → Task) (t0 stack0 reaper reaperStack kernelCr3 : Nat) : ReaperWorld where
  world := initialWorld memory t0 stack0 reaper reaperStack kernelCr3
  held := none
  log := []

section
variable {memory : Nat → Task} {t0 stack0 reaper reaperStack kernelCr3 : Nat}

theorem schedInit_static (memory : Nat → Task) (stack0 kernelCr3 : Nat) (made : ¬ (reaper = 0 ∨ reaperStack = 0))
    (distinct : t0 ≠ reaper) :
    (schedInit memory t0 stack0 reaper reaperStack kernelCr3).static t0 = (0, stack0, kernelCr3) ∧
    (schedInit memory t0 stack0 reaper reaperStack kernelCr3).static reaper = (1, reaperStack, kernelCr3) ∧
    (schedInit memory t0 stack0 reaper reaperStack kernelCr3).nextId = 2 ∧
    (schedInit memory t0 stack0 reaper reaperStack kernelCr3).current = t0 ∧
    (schedInit memory t0 stack0 reaper reaperStack kernelCr3).cr3 = kernelCr3 := by
  unfold schedInit
  dsimp only
  obtain ⟨static, nextId⟩ := taskCreate_static _ kernelCr3 made
  rw [static, nextId, (taskCreate_other reaperStack kernelCr3 distinct).2, (taskCreate_registers _ _ _ _).1,
    (taskCreate_registers _ _ _ _).2]
  refine ⟨?_, rfl, rfl, rfl, rfl⟩
  rw [listInsert, if_pos rfl]
  simp [Scheduler.static, Scheduler.setNext]

theorem initialReaper_ok (memory : Nat → Task) (kernelCr3 : Nat) (boot : t0 ≠ 0) (made : ¬ (reaper = 0 ∨ reaperStack = 0))
    (distinct : reaper ≠ t0) (apartStacks : reaperStack ≠ stack0) :
    ∃ ring dead, ReaperOk reaper kernelCr3 (initialReaper memory t0 stack0 reaper reaperStack kernelCr3) ring dead := by
  obtain ⟨ring, world⟩ := initialWorld_ok memory t0 stack0 reaper reaperStack kernelCr3 boot distinct
  obtain ⟨first, second, nextId, current, cr3⟩ := schedInit_static memory stack0 kernelCr3 made distinct.symm
  have alive : (initialWorld memory t0 stack0 reaper reaperStack kernelCr3).alive = {reaper, t0} := if_neg made
  have member : reaper ∈ (initialWorld memory t0 stack0 reaper reaperStack kernelCr3).alive := by
    rw [alive]
    exact Finset.mem_insert_self _ _
  have tasks : ∀ r t, (initialReaper memory t0 stack0 reaper reaperStack kernelCr3).InUse r t → t = reaper ∨ t = t0 := by
    rintro r t (here | here | ⟨_, held, _⟩)
    · have listed : t ∈ (initialWorld memory t0 stack0 reaper reaperStack kernelCr3).alive := here
      rw [alive, Finset.mem_insert, Finset.mem_singleton] at listed
      exact listed
    · cases here
    · cases held
  obtain ⟨id0, rest0⟩ := Prod.mk.inj first
  obtain ⟨stackBase0, cr30⟩ := Prod.mk.inj rest0
  obtain ⟨id1, rest1⟩ := Prod.mk.inj second
  obtain ⟨stackBase1, cr31⟩ := Prod.mk.inj rest1
  refine ⟨ring, [], world, member, ?_, ?_, nofun, ?_⟩
  · -- the boot task runs, so the reaper is ready
    have other : reaper ≠ (initialWorld memory t0 stack0 reaper reaperStack kernelCr3).sched.current := by
      show reaper ≠ (schedInit memory t0 stack0 reaper reaperStack kernelCr3).current
      rw [current]
      exact distinct
    show ((initialWorld memory t0 stack0 reaper reaperStack kernelCr3).sched.task reaper).state ≠ _
    rw [world.sched.ready reaper ((world.alive reaper).mpr member) other]
    nofun
  · show (schedInit memory t0 stack0 reaper reaperStack kernelCr3).cr3 = _
    rw [cr3]
    show _ = ((schedInit memory t0 stack0 reaper reaperStack kernelCr3).task
      (schedInit memory t0 stack0 reaper reaperStack kernelCr3).current).cr3
    rw [current, cr30]
  · constructor
    case known => exact inUse_known nofun
    case distinct =>
      intro r t u usedT usedU own equal
      rcases tasks r t usedT with rfl | rfl <;> rcases tasks r u usedU with rfl | rfl
      · rfl
      · cases r with
        | tables => simp [isOwn, ReaperWorld.sched, initialReaper, initialWorld, cr31] at own
        | stack => exact absurd (stackBase1.symm.trans (equal.trans stackBase0)) apartStacks
        | descriptor => exact equal
      · cases r with
        | tables => simp [isOwn, ReaperWorld.sched, initialReaper, initialWorld, cr30] at own
        | stack => exact absurd (stackBase1.symm.trans (equal.symm.trans stackBase0)) apartStacks
        | descriptor => exact equal
      · rfl
    case ids =>
      intro t u usedT usedU equal
      rcases tasks _ t usedT with rfl | rfl <;> rcases tasks _ u usedU with rfl | rfl
      · rfl
      · exact absurd (id1.symm.trans (equal.trans id0)) (by decide)
      · exact absurd (id1.symm.trans (equal.symm.trans id0)) (by decide)
      · rfl
    case bound =>
      intro t used
      show ((schedInit memory t0 stack0 reaper reaperStack kernelCr3).task t).id < _
      rcases tasks _ t used with rfl | rfl
      · rw [id1]
        exact nextId ▸ by decide
      · rw [id0]
        exact nextId ▸ by decide
    case once => exact List.nodup_nil
    case gone => exact nofun

theorem ReaperOk.no_panic {w : ReaperWorld} {ring dead : List Nat} (ok : ReaperOk reaper kernelCr3 w ring dead) (fuel rsp : Nat) :
    schedMaybeSwitch fuel w.sched rsp ≠ some .panicked := by
  intro panicked
  rcases schedMaybeSwitch_inv ok.world.sched panicked with
    ⟨_, other⟩ | ⟨_, alone, ⟨_, other⟩ | ⟨isDead, _⟩⟩ | ⟨_, _, _, _, other, _⟩
  · cases other
  · cases other
  · obtain ⟨q, queue, _⟩ := ok.world.sched.queue
    have member := (ok.world.sched.mem_queue queue).mpr ((ok.world.alive reaper).mpr ok.alive)
    obtain ⟨rest, rfl⟩ := queue.head_eq
    cases rest with
    | nil =>
      rw [← List.mem_singleton.mp member] at isDead
      exact ok.lives isDead
    | cons n rest =>
      have second : w.world.sched.link w.world.sched.current = n := queue.path.2.1
      rw [alone] at second
      exact (List.nodup_cons.mp queue.nodup).1 (by rw [second]; exact List.mem_cons_self)
  · cases other

end

/-- The reaper in every history: no panic, the address space of the running task is loaded, and
nothing is freed that is in use, or twice. -/
theorem reaper_safe (memory : Nat → Task) (t0 stack0 reaper reaperStack kernelCr3 : Nat) (boot : t0 ≠ 0)
    (made : ¬ (reaper = 0 ∨ reaperStack = 0)) (distinct : reaper ≠ t0) (apartStacks : reaperStack ≠ stack0)
    (events : List ReaperEvent) (w : ReaperWorld)
    (run : Run (ReaperStep reaper kernelCr3) (initialReaper memory t0 stack0 reaper reaperStack kernelCr3) events w) :
    (∀ fuel rsp, schedMaybeSwitch fuel w.sched rsp ≠ some .panicked) ∧
    w.sched.cr3 = (w.sched.task w.sched.current).cr3 ∧
    (∀ d r rest, w.held = some (d, r :: rest) → ∀ t, InRing w.sched t ∨ t = w.sched.current →
      t ≠ d ∧ (isOwn kernelCr3 w.sched d r = true → resourceOf w.sched t r ≠ resourceOf w.sched d r)) ∧
    w.log.Nodup ∧
    ∀ i r, (i, r) ∈ w.log → ∀ t, InRing w.sched t ∨ t = w.sched.current → (w.sched.task t).id ≠ i := by
  obtain ⟨ring, dead, ok⟩ := run.invariant (fun w => ∃ ring dead, ReaperOk reaper kernelCr3 w ring dead)
    (initialReaper_ok memory kernelCr3 boot made distinct apartStacks) (by
      rintro state label next ⟨ring, dead, ok⟩ taken
      exact reaper_step ok taken)
  have alive : ∀ t, InRing w.sched t ∨ t = w.sched.current → t ∈ w.world.alive := by
    rintro t (inside | rfl)
    · exact (ok.world.alive t).mp (ok.world.sched.inRing_iff.mp inside)
    · exact (ok.world.alive _).mp ok.world.sched.current
  refine ⟨ok.no_panic, ok.cr3, ?_, ok.account.once, ?_⟩
  · intro d r rest held t inside
    have apart : t ≠ d := by
      rintro rfl
      exact (ok.held_apart held).1 (alive t inside)
    refine ⟨apart, fun own same => ?_⟩
    have used : w.InUse r d := Or.inr (Or.inr ⟨_, held, List.mem_cons_self⟩)
    exact apart (ok.account.distinct r d t used (Or.inl (alive t inside)) own same.symm).symm
  · intro i r logged t inside
    exact (ok.account.gone i r logged).2 t (Or.inl (alive t inside))

/-- The boot task exits, and the reaper frees its stack and its descriptor. -/
theorem reaper_safe_boot : ∃ events w,
    Run (ReaperStep 500 7) (initialReaper (fun _ => newTask 0 0 0) 100 200 500 600 7) events w ∧
      w.log = [(0, .stack), (0, .descriptor)] ∧ w.log.Nodup := by
  have start : Run (ReaperStep 500 7) (initialReaper (fun _ => newTask 0 0 0) 100 200 500 600 7) [] _ := .nil
  have left := ((start.snoc (.exit (by decide +kernel) .exit)).snoc (.request .request)).snoc
    (.interrupt (@Step.switch _ 0 3 _ _ rfl))
  have popped := left.snoc (.pop (by decide +kernel) rfl .pop)
  have tables := popped.snoc (@ReaperStep.free 500 7 _ 100 .tables .stack [.descriptor] (by decide +kernel) (by decide +kernel))
  have stack := tables.snoc (@ReaperStep.free 500 7 _ 100 .stack .descriptor [] (by decide +kernel) rfl)
  have done := stack.snoc (@ReaperStep.freeLast 500 7 _ 100 .descriptor _ (by decide +kernel) rfl
    (@Step.free _ 100 (newTask 0 0 0) (by decide +kernel)))
  exact ⟨_, _, done, by decide +kernel,
    (reaper_safe (fun _ => newTask 0 0 0) 100 200 500 600 7 (by decide) (by decide) (by decide) (by decide) _ _ done).2.2.2.1⟩

end RexOs.Sched
