import RexOs.Library.Path
import RexOs.Library.Run
import Mathlib.Algebra.Group.Nat.Defs

/-! The preemptive round-robin scheduler (`kernel/sched/sched.c`).

Tasks live on the kernel heap and are named by their addresses; address 0 is
the null pointer. The `next` field links both the ring of runnable tasks and
the list of dead ones, as in the source. Loops over the links take a fuel
argument and return `none` when it runs out.
-/

set_option autoImplicit false

namespace RexOs.Sched

inductive TaskState where
  | ready
  | running
  | dead
  deriving DecidableEq, Repr

/-- The fields of `task_t` that the scheduler reads or writes. `fpu` is the
saved FXSAVE image. -/
structure Task where
  fpu : Nat
  rsp : Nat
  stackBase : Nat
  cr3 : Nat
  id : Nat
  state : TaskState
  next : Nat
  deriving DecidableEq, Repr

def taskStackSize : Nat := 16 * 1024

/-- The scheduler's static variables, the task memory, and the processor
registers that a switch loads. -/
structure Scheduler where
  task : Nat → Task
  current : Nat
  head : Nat
  nextId : Nat
  deadList : Nat
  needResched : Bool
  kernelRsp : Nat
  cr3 : Nat
  fpu : Nat

namespace Scheduler

def setTask (s : Scheduler) (t : Nat) (value : Task) : Scheduler :=
  { s with task := Function.update s.task t value }

def setNext (s : Scheduler) (t next : Nat) : Scheduler := s.setTask t { s.task t with next := next }

def setState (s : Scheduler) (t : Nat) (state : TaskState) : Scheduler :=
  s.setTask t { s.task t with state := state }

def link (s : Scheduler) (t : Nat) : Nat := (s.task t).next

end Scheduler

def listInsert (s : Scheduler) (t : Nat) : Scheduler :=
  if s.head = 0 then { s with head := t }.setNext t t
  else (s.setNext t (s.link s.head)).setNext s.head t

/-- The body of `list_remove` once the predecessor `p` of `t` is found. -/
def unlinkAfter (s : Scheduler) (p t : Nat) : Scheduler :=
  let s := s.setNext p (s.link t)
  let s := if s.head = t then { s with head := if s.link t = t then 0 else s.link t } else s
  s.setNext t 0

/-- The do-while loop of `list_remove`, entered with `p`. -/
def listRemoveLoop (s : Scheduler) (t p : Nat) : Nat → Option Scheduler
  | 0 => none
  | fuel + 1 =>
      if s.link p = t then some (unlinkAfter s p t)
      else
        let p := s.link p
        if p = s.head then some s else listRemoveLoop s t p fuel

def listRemove (fuel : Nat) (s : Scheduler) (t : Nat) : Option Scheduler :=
  if s.head = 0 then some s else listRemoveLoop s t s.head fuel

/-- The while loop of `pick_next_ready`, entered with `p`. `some none` is the
exit through the loop condition. -/
def pickLoop (s : Scheduler) (origin p : Nat) : Nat → Option (Option Nat)
  | 0 => none
  | fuel + 1 =>
      if p = origin then some none
      else if (s.task p).state = .ready then some (some p)
      else pickLoop s origin (s.link p) fuel

/-- The next ready task after `origin`, else `origin` itself if it can run,
else the null pointer. -/
def pickNextReady (fuel : Nat) (s : Scheduler) (origin : Nat) : Option Nat :=
  if origin = 0 ∨ s.link origin = 0 then some origin
  else
    (pickLoop s origin (s.link origin) fuel).map fun found =>
      match found with
      | some p => p
      | none =>
          if (s.task origin).state = .ready ∨ (s.task origin).state = .running then origin else 0

/-- The do-while loop of `sched_task_alive`, entered with `p`. -/
def aliveLoop (s : Scheduler) (pid p : Nat) : Nat → Option Bool
  | 0 => none
  | fuel + 1 =>
      if (s.task p).id = pid ∧ (s.task p).state ≠ .dead then some true
      else
        let p := s.link p
        if p = s.head then some false else aliveLoop s pid p fuel

def schedTaskAlive (fuel : Nat) (s : Scheduler) (pid : Nat) : Option Bool :=
  if s.head = 0 then some false else aliveLoop s pid s.head fuel

/-- `fpu_state_init` of a zeroed save area: control word 0x037F at offset 0,
MXCSR 0x1F80 at offset 24. -/
def fpuInit : Nat := 0x037F + 0x1F80 * 2 ^ (8 * 24)

/-- The saved stack pointer of a new task: a synthetic interrupt frame of 22
words below the return address at the aligned stack top. -/
def initialRsp (stack : Nat) : Nat :=
  let top := stack + taskStackSize
  (top - top % 16) - 8 - 8 * 22

def newTask (id stack kernelCr3 : Nat) : Task :=
  { fpu := fpuInit, rsp := initialRsp stack, stackBase := stack, cr3 := kernelCr3
    id := id, state := .ready, next := 0 }

/-- `t` and `stack` are what the heap returned for the task and for its stack;
0 is failure. `kernelCr3` is the kernel's page table root. -/
def taskCreate (s : Scheduler) (t stack kernelCr3 : Nat) : Scheduler :=
  if t = 0 ∨ stack = 0 then s
  else listInsert ({ s with nextId := s.nextId + 1 }.setTask t (newTask s.nextId stack kernelCr3)) t

/-- The part of `task_spawn_user` behind its `cli`: the new task is given its
own address space before it can be scheduled. -/
def taskSpawnUser (s : Scheduler) (t stack kernelCr3 userCr3 : Nat) : Scheduler :=
  let created := taskCreate s t stack kernelCr3
  if t = 0 ∨ stack = 0 then created
  else created.setTask t { created.task t with cr3 := userCr3 }

/-- `memory` is whatever the kernel heap held; `t0` and `stack0` are the boot
task and its stack, `reaper` and `reaperStack` those of the reaper. -/
def schedInit (memory : Nat → Task) (t0 stack0 reaper reaperStack kernelCr3 : Nat) : Scheduler :=
  let boot : Task :=
    { fpu := fpuInit, rsp := 0, stackBase := stack0, cr3 := kernelCr3
      id := 0, state := .running, next := 0 }
  let s : Scheduler :=
    { task := Function.update memory t0 boot, current := 0, head := 0, nextId := 1, deadList := 0
      needResched := false, kernelRsp := stack0 + taskStackSize, cr3 := kernelCr3, fpu := 0 }
  taskCreate { listInsert s t0 with current := t0 } reaper reaperStack kernelCr3

/-- `task_exit` up to its software interrupt, which is a separate step. -/
def taskExit (s : Scheduler) : Scheduler := s.setState s.current .dead

/-- A timer tick that ends a quantum, or the request of `task_yield`. -/
def requestResched (s : Scheduler) : Scheduler := { s with needResched := true }

def reaperPop (s : Scheduler) : Nat × Scheduler :=
  if s.deadList = 0 then (0, s) else (s.deadList, { s with deadList := s.link s.deadList })

inductive SwitchResult where
  | stay (s : Scheduler)
  | switched (rsp : Nat) (s : Scheduler)
  | panicked

def loadTask (s : Scheduler) (prev next : Nat) : Scheduler :=
  let s := s.setState next .running
  { s with
    current := next
    fpu := (s.task next).fpu
    kernelRsp := (s.task next).stackBase + taskStackSize
    cr3 := if (s.task prev).cr3 ≠ (s.task next).cr3 then (s.task next).cr3 else s.cr3 }

/-- Leaving a live task: save its stack pointer and FPU image, make it ready. -/
def saveTask (s : Scheduler) (prev rsp : Nat) : Scheduler :=
  let saved := { s.task prev with rsp := rsp, fpu := s.fpu }
  s.setTask prev (if saved.state = .running then { saved with state := .ready } else saved)

def buryTask (fuel : Nat) (s : Scheduler) (prev : Nat) : Option Scheduler :=
  (listRemove fuel s prev).map fun s => { s.setNext prev s.deadList with deadList := prev }

def schedMaybeSwitch (fuel : Nat) (s : Scheduler) (rsp : Nat) : Option SwitchResult :=
  if !s.needResched then some (.stay s)
  else
    let s := { s with needResched := false }
    if s.current = 0 then some (.stay s)
    else
      let prev := s.current
      (pickNextReady fuel s prev).bind fun next =>
        if next = 0 ∨ next = prev then
          if (s.task prev).state = .dead then some .panicked else some (.stay s)
        else if (s.task prev).state ≠ .dead then
          let s := loadTask (saveTask s prev rsp) prev next
          some (.switched (s.task next).rsp s)
        else
          (buryTask fuel s prev).map fun s =>
            let s := loadTask s prev next
            .switched (s.task next).rsp s

/-! The world adds to the scheduler which tasks were created and not yet left for
good, which of these wait for the reaper, and which the reaper holds. Steps are
the scheduler calls, each atomic, and heap results are inputs constrained only
by the heap's own contract: a new task is none of the tasks still in use.
-/

open RexOs.Library

namespace Scheduler

variable (s : Scheduler) (t u : Nat)

@[simp] theorem setTask_link (value : Task) :
    (s.setTask t value).link = Function.update s.link t value.next := by
  funext x
  by_cases same : x = t
  · subst same; simp [link, setTask]
  · simp [link, setTask, same]

@[simp] theorem setNext_link (next : Nat) : (s.setNext t next).link = Function.update s.link t next := by
  simp [setNext]

@[simp] theorem setState_link (state : TaskState) : (s.setState t state).link = s.link := by
  rw [setState, setTask_link]
  exact Function.update_eq_self t s.link

@[simp] theorem setTask_task (value : Task) : (s.setTask t value).task = Function.update s.task t value := rfl

@[simp] theorem setNext_state (next : Nat) : ((s.setNext t next).task u).state = (s.task u).state := by
  by_cases same : u = t
  · subst same; simp [setNext]
  · simp [setNext, same]

@[simp] theorem setState_state (state : TaskState) :
    ((s.setState t state).task u).state = if u = t then state else (s.task u).state := by
  by_cases same : u = t
  · subst same; simp [setState]
  · simp [setState, same]

@[simp] theorem setTask_head (value : Task) : (s.setTask t value).head = s.head := rfl
@[simp] theorem setNext_head (next : Nat) : (s.setNext t next).head = s.head := rfl
@[simp] theorem setState_head (state : TaskState) : (s.setState t state).head = s.head := rfl
@[simp] theorem setTask_current (value : Task) : (s.setTask t value).current = s.current := rfl
@[simp] theorem setNext_current (next : Nat) : (s.setNext t next).current = s.current := rfl
@[simp] theorem setState_current (state : TaskState) : (s.setState t state).current = s.current := rfl
@[simp] theorem setTask_deadList (value : Task) : (s.setTask t value).deadList = s.deadList := rfl
@[simp] theorem setNext_deadList (next : Nat) : (s.setNext t next).deadList = s.deadList := rfl
@[simp] theorem setState_deadList (state : TaskState) : (s.setState t state).deadList = s.deadList := rfl

end Scheduler

theorem unlinkAfter_fields {s : Scheduler} {q t : Nat} (apart : q ≠ t) (link : s.link t ≠ t) :
    (unlinkAfter s q t).link = Function.update (Function.update s.link q (s.link t)) t 0 ∧
    (unlinkAfter s q t).head = (if s.head = t then s.link t else s.head) ∧
    (unlinkAfter s q t).deadList = s.deadList ∧ (unlinkAfter s q t).current = s.current ∧
    (∀ u, ((unlinkAfter s q t).task u).state = (s.task u).state) := by
  have kept : (s.setNext q (s.link t)).link t = s.link t := by
    simp [Function.update_of_ne (Ne.symm apart)]
  unfold unlinkAfter
  simp only [Scheduler.setNext_head, kept, link, if_false]
  split
  · refine ⟨?_, rfl, rfl, rfl, fun u => ?_⟩
    · rw [Scheduler.setNext_link]
      congr 1
      exact Scheduler.setNext_link s q (s.link t)
    · rw [Scheduler.setNext_state]
      exact Scheduler.setNext_state s q u (s.link t)
  · exact ⟨by simp, rfl, rfl, rfl, fun u => by simp⟩

theorem listRemoveLoop_finds {s : Scheduler} {t p q : Nat} {seg : List Nat}
    (path : Path s.link p (seg ++ [q]) t) (notTarget : t ∉ (seg ++ [q]).tail)
    (notHead : s.head ∉ (seg ++ [q]).tail) (fuel : Nat) (enough : seg.length < fuel) :
    listRemoveLoop s t p fuel = some (unlinkAfter s q t) := by
  induction seg generalizing p fuel with
  | nil =>
    obtain ⟨rfl, link⟩ := path
    cases fuel with
    | zero => omega
    | succ fuel => simp only [listRemoveLoop, path_nil.mp link, if_true]
  | cons x seg ih =>
    obtain ⟨rfl, rest⟩ := path
    simp only [List.cons_append, List.tail_cons] at notTarget notHead
    have step : s.link p ∈ seg ++ [q] := by
      cases seg with
      | nil => simp [rest.1]
      | cons y seg => simp [rest.1]
    cases fuel with
    | zero => simp at enough
    | succ fuel =>
      have later : listRemoveLoop s t (s.link p) fuel = some (unlinkAfter s q t) :=
        ih rest (fun member => notTarget (List.mem_of_mem_tail member))
          (fun member => notHead (List.mem_of_mem_tail member)) fuel (by simpa using enough)
      have notHere : s.link p ≠ t := fun same => notTarget (same ▸ step)
      have goesOn : s.link p ≠ s.head := fun same => notHead (same ▸ step)
      simp only [listRemoveLoop, notHere, goesOn, if_false, later]

theorem listRemoveLoop_total {s : Scheduler} {t p : Nat} {nodes : List Nat} (nonempty : nodes ≠ [])
    (path : Path s.link p nodes s.head) : ∃ r, listRemoveLoop s t p nodes.length = some r := by
  induction nodes generalizing p with
  | nil => exact absurd rfl nonempty
  | cons x rest ih =>
    obtain ⟨rfl, tail⟩ := path
    simp only [List.length_cons, listRemoveLoop]
    split
    · exact ⟨_, rfl⟩
    · split
      · exact ⟨_, rfl⟩
      · rename_i away
        refine ih ?_ tail
        rintro rfl
        exact away tail

theorem aliveLoop_total {s : Scheduler} (pid : Nat) {p : Nat} {nodes : List Nat} (nonempty : nodes ≠ [])
    (path : Path s.link p nodes s.head) : ∃ r, aliveLoop s pid p nodes.length = some r := by
  induction nodes generalizing p with
  | nil => exact absurd rfl nonempty
  | cons x rest ih =>
    obtain ⟨rfl, tail⟩ := path
    simp only [List.length_cons, aliveLoop]
    split
    · exact ⟨_, rfl⟩
    · split
      · exact ⟨_, rfl⟩
      · rename_i away
        refine ih ?_ tail
        rintro rfl
        exact away tail

theorem listRemoveLoop_mono {s r : Scheduler} {t p fuel : Nat} (done : listRemoveLoop s t p fuel = some r)
    (more : Nat) : listRemoveLoop s t p (fuel + more) = some r := by
  induction fuel generalizing p with
  | zero => simp [listRemoveLoop] at done
  | succ fuel ih =>
    rw [Nat.succ_add]
    simp only [listRemoveLoop] at done ⊢
    split at done
    · rename_i here
      rw [if_pos here, done]
    · rename_i here
      rw [if_neg here]
      split at done
      · rename_i round
        rw [if_pos round, done]
      · rename_i round
        rw [if_neg round, ih done]

structure ListsOk (s : Scheduler) (ring dead : List Nat) : Prop where
  cycle : Ring s.link s.head ring
  ringNonnull : 0 ∉ ring
  deadPath : Path s.link s.deadList dead 0
  deadNodup : dead.Nodup
  deadNonnull : 0 ∉ dead
  apart : ∀ t ∈ ring, t ∉ dead

structure SchedOk (s : Scheduler) (ring dead : List Nat) (exiting : Bool) : Prop
    extends ListsOk s ring dead where
  current : s.current ∈ ring
  ready : ∀ t ∈ ring, t ≠ s.current → (s.task t).state = .ready
  running : (s.task s.current).state = .running ∨ (s.task s.current).state = .dead ∧ exiting = true

section
variable {s : Scheduler} {ring dead : List Nat} {exiting : Bool}

theorem SchedOk.head_ne (ok : SchedOk s ring dead exiting) : s.head ≠ 0 :=
  fun null => ok.ringNonnull (null ▸ ok.cycle.head_mem)

theorem SchedOk.current_ne (ok : SchedOk s ring dead exiting) : s.current ≠ 0 :=
  fun null => ok.ringNonnull (null ▸ ok.current)

theorem SchedOk.link_ne (ok : SchedOk s ring dead exiting) : s.link s.current ≠ 0 :=
  fun null => ok.ringNonnull (null ▸ ok.cycle.next_mem ok.current)

theorem pickNextReady_eq (ok : SchedOk s ring dead exiting) (fuel : Nat) :
    pickNextReady (fuel + 1) s s.current = some (
      if s.link s.current = s.current then
        if (s.task s.current).state = .running then s.current else 0
      else s.link s.current) := by
  unfold pickNextReady
  rw [if_neg (by simp [ok.current_ne, ok.link_ne])]
  by_cases alone : s.link s.current = s.current
  · have state : (s.task s.current).state ≠ .ready := by
      rcases ok.running with h | ⟨h, _⟩ <;> simp [h]
    simp [pickLoop, alone, state]
  · have ready := ok.ready _ (ok.cycle.next_mem ok.current) alone
    simp [pickLoop, alone, ready]

theorem pickNextReady_fuel (ok : SchedOk s ring dead exiting) {fuel next : Nat}
    (picked : pickNextReady fuel s s.current = some next) :
    next = if s.link s.current = s.current then
        if (s.task s.current).state = .running then s.current else 0
      else s.link s.current := by
  cases fuel with
  | zero =>
    unfold pickNextReady at picked
    rw [if_neg (by simp [ok.current_ne, ok.link_ne])] at picked
    simp [pickLoop] at picked
  | succ fuel => exact (Option.some.inj ((pickNextReady_eq ok fuel).symm.trans picked)).symm

theorem listRemove_current (ok : SchedOk s ring dead exiting) (others : s.link s.current ≠ s.current)
    {fuel : Nat} {r : Scheduler} (done : listRemove fuel s s.current = some r) :
    ∃ q ring', q ∈ ring ∧ q ≠ s.current ∧ s.link q = s.current ∧ r = unlinkAfter s q s.current ∧
      Ring r.link r.head ring' ∧ (∀ t, t ∈ ring' ↔ t ∈ ring ∧ t ≠ s.current) := by
  unfold listRemove at done
  rw [if_neg ok.head_ne] at done
  have finds (seg : List Nat) (q : Nat) (path : Path s.link s.head (seg ++ [q]) s.current)
      (notTarget : s.current ∉ (seg ++ [q]).tail) (notHead : s.head ∉ (seg ++ [q]).tail) :
      r = unlinkAfter s q s.current := by
    have found := listRemoveLoop_finds path notTarget notHead (fuel + (seg.length + 1)) (by omega)
    rw [listRemoveLoop_mono done] at found
    exact Option.some.inj found
  obtain ⟨tail, shape⟩ := ok.cycle.head_eq
  subst shape
  by_cases atHead : s.head = s.current
  · -- the head itself leaves: its predecessor is the last member
    have nonempty : tail ≠ [] := by
      rintro rfl
      exact others (by simpa [atHead] using ok.cycle.path.2)
    obtain ⟨first, q, rfl⟩ := List.eq_nil_or_concat tail |>.resolve_left nonempty
    rw [List.concat_eq_append] at ok ⊢
    have nodup := List.nodup_cons.mp ok.cycle.nodup
    have apart : q ≠ s.current := fun same => nodup.1 (by simp [same, atHead])
    have whole : Path s.link s.head (s.head :: first ++ [q]) s.current := by
      have path := ok.cycle.path
      rw [← List.cons_append] at path
      rw [← atHead]
      exact path
    have unlinked := finds (s.head :: first) q whole (by simpa [atHead] using nodup.1) (by simpa using nodup.1)
    obtain ⟨link, head, _⟩ := unlinkAfter_fields apart others
    refine ⟨q, first ++ [q], by simp, apart, whole.last, unlinked, ?_, fun t => ?_⟩
    · rw [unlinked, link, head, if_pos atHead, ← atHead]
      exact ok.cycle.remove_head 0
    · simp only [List.mem_cons, atHead]
      refine ⟨fun member => ⟨Or.inr member, ?_⟩, fun member => member.1.resolve_left member.2⟩
      rintro rfl
      exact nodup.1 (atHead ▸ member)
  · have member : s.current ∈ tail := (List.mem_cons.mp ok.current).resolve_left (Ne.symm atHead)
    obtain ⟨before, rest, rfl⟩ := List.append_of_mem member
    -- the predecessor is the last node in front of the current task
    obtain ⟨first, q, front⟩ := List.eq_nil_or_concat (s.head :: before) |>.resolve_left (by simp)
    rw [List.concat_eq_append] at front
    have whole : s.head :: (before ++ s.current :: rest) = first ++ q :: s.current :: rest := by
      rw [← List.cons_append, front]
      simp
    have nodup := ok.cycle.nodup
    rw [← List.cons_append, List.nodup_middle, List.nodup_cons] at nodup
    have outside : s.current ∉ s.head :: before := fun inFront => nodup.1 (by simp_all)
    have apart : q ≠ s.current := by
      rintro rfl
      exact outside (front ▸ by simp)
    have upto : Path s.link s.head (first ++ [q]) s.current := by
      have path := ok.cycle.path
      rw [whole] at path
      obtain ⟨mid, start, here, link, _⟩ := path_append.mp path
      exact path_append.mpr ⟨mid, start, here, link⟩
    have headOnce : s.head ∉ before := by
      have := (List.nodup_cons.mp ok.cycle.nodup).1
      exact fun inBefore => this (by simp [inBefore])
    have unlinked := finds first q upto
      (fun inTail => outside (front ▸ List.mem_of_mem_tail inTail))
      (by rw [← front]; exact headOnce)
    obtain ⟨link, head, _⟩ := unlinkAfter_fields apart others
    have ring := ok.cycle
    rw [whole] at ring
    refine ⟨q, first ++ q :: rest, by rw [whole]; simp, apart, upto.last, unlinked, ?_, fun t => ?_⟩
    · rw [unlinked, link, head, if_neg atHead]
      exact ring.remove 0
    · have gone := ring.nodup
      rw [show first ++ q :: s.current :: rest = (first ++ [q]) ++ s.current :: rest by simp,
        List.nodup_middle, List.nodup_cons] at gone
      rw [whole]
      simp only [List.mem_append, List.mem_cons, List.not_mem_nil, or_false] at gone ⊢
      constructor
      · intro inNew
        refine ⟨by tauto, ?_⟩
        rintro rfl
        exact gone.1 (by tauto)
      · rintro ⟨inOld, notCurrent⟩
        tauto

end

end RexOs.Sched
