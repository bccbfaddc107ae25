import RexOs.Library.PhaseRing
import RexOs.Library.Run
import Mathlib.Algebra.Group.Nat.Defs

/-! The command queues of the NVMe driver (`kernel/drivers/nvme/nvme.c`).

The driver sends one command at a time and polls for its completion. The controller posts
the completion of any command that still waits for one, at any time, also when the driver
has given up on it.
-/

set_option autoImplicit false

namespace RexOs.Drivers

open RexOs.Library

def nvmeQueueDepth : Nat := 64

def pollRounds : Nat := 10000000

structure Sqe where
  dw0 : Nat
  nsid : Nat
  rsvd : Nat
  mptr : Nat
  prp1 : Nat
  prp2 : Nat
  dw10 : Nat
  dw11 : Nat
  dw12 : Nat
  dw13 : Nat
  dw14 : Nat
  dw15 : Nat
  deriving DecidableEq, Repr

/-- `nvme_cqe_t`, without the words that nobody reads. -/
structure Cqe where
  cid : Nat
  status : Nat
  deriving DecidableEq, Repr

structure Queue where
  sq : Nat → Sqe
  sqTail : Nat
  cq : Nat → Cqe
  cqHead : Nat
  cqPhase : Nat
  sqDoorbell : Nat
  cqDoorbell : Nat

inductive QueueId where
  | admin
  | io
  deriving DecidableEq, Repr

structure Nvme where
  cid : Nat
  queue : QueueId → Queue

def nextCid (n : Nvme) : Nat × Nvme := (n.cid, { n with cid := (n.cid + 1) % 2 ^ 16 })

def Sqe.withCid (cmd : Sqe) (cid : Nat) : Sqe := { cmd with dw0 := cmd.dw0 &&& 0x0000FFFF ||| cid <<< 16 }

def Queue.submit (q : Queue) (cmd : Sqe) : Queue :=
  let tail := (q.sqTail + 1) % nvmeQueueDepth
  { q with sq := Function.update q.sq q.sqTail cmd, sqTail := tail, sqDoorbell := tail }

/-- `admin_cmd` before it polls. -/
def adminCmdSubmit (n : Nvme) (cmd : Sqe) : Nvme :=
  let (cid, n) := nextCid n
  { n with queue := Function.update n.queue .admin ((n.queue .admin).submit (cmd.withCid cid)) }

/-- `io_cmd_submit_poll` before it polls. -/
def ioCmdSubmit (n : Nvme) (cmd : Sqe) : Nvme :=
  let (cid, n) := nextCid n
  { n with queue := Function.update n.queue .io ((n.queue .io).submit { cmd.withCid cid with nsid := 1 }) }

def Nvme.submit (n : Nvme) : QueueId → Sqe → Nvme
  | .admin, cmd => adminCmdSubmit n cmd
  | .io, cmd => ioCmdSubmit n cmd

def Queue.poll (q : Queue) : Option (Queue × Int) :=
  let st := (q.cq q.cqHead).status
  if st &&& 1 = q.cqPhase then
    let sc := st >>> 1 &&& 0xFF
    let head := (q.cqHead + 1) % nvmeQueueDepth
    some ({ q with
      cqHead := head, cqPhase := if head = 0 then q.cqPhase ^^^ 1 else q.cqPhase
      cqDoorbell := head }, if sc ≠ 0 then -1 else 0)
  else none

/-- The completion of command `number` of a queue. `field` is the status without the phase bit:
the code in bits 0 to 7, the type of the code in bits 8 to 10. -/
structure Completion where
  number : Nat
  cid : Nat
  field : Nat
  deriving DecidableEq, Repr

def Completion.entry (c : Completion) (phase : Nat) : Cqe := ⟨c.cid, c.field <<< 1 ||| phase⟩

def Completion.Success (c : Completion) : Prop := c.field &&& 0x7FF = 0

/-- What has happened on a queue: the identifiers of the commands sent, the completions
posted and how many of them the driver has consumed. -/
structure History where
  sent : List Nat
  posted : List Completion
  taken : Nat

def Queue.post (q : Queue) (h : History) (c : Completion) : Queue :=
  { q with
    cq := Function.update q.cq (h.posted.length % nvmeQueueDepth) (c.entry (phaseOf nvmeQueueDepth h.posted.length)) }

structure Waiting where
  queue : QueueId
  number : Nat
  round : Nat

structure NvmeState where
  nvme : Nvme
  history : QueueId → History
  waiting : Option Waiting

def NvmeState.setQueue (s : NvmeState) (i : QueueId) (q : Queue) (h : History) : NvmeState :=
  { s with nvme.queue := Function.update s.nvme.queue i q, history := Function.update s.history i h }

inductive NvmeLabel where
  | submit (i : QueueId) (cmd : Sqe)
  | post (i : QueueId) (c : Completion)
  | poll
  | done (r : Int)

inductive NvmeStep (s : NvmeState) : NvmeLabel → NvmeState → Prop where
  | submit {i : QueueId} {cmd : Sqe} : s.waiting = none →
      NvmeStep s (.submit i cmd)
        { nvme := s.nvme.submit i cmd
          history := Function.update s.history i { s.history i with sent := (s.history i).sent ++ [s.nvme.cid] }
          waiting := some ⟨i, (s.history i).sent.length, 0⟩ }
  -- a command is completed once, and one entry of the completion queue stays free
  | post {i : QueueId} {c : Completion} : (s.history i).sent[c.number]? = some c.cid →
      (∀ d ∈ (s.history i).posted, d.number ≠ c.number) →
      (s.history i).posted.length + 1 < (s.history i).taken + nvmeQueueDepth →
      NvmeStep s (.post i c)
        (s.setQueue i ((s.nvme.queue i).post (s.history i) c)
          { s.history i with posted := (s.history i).posted ++ [c] })
  | poll {w : Waiting} : s.waiting = some w → w.round < pollRounds → (s.nvme.queue w.queue).poll = none →
      NvmeStep s .poll { s with waiting := some { w with round := w.round + 1 } }
  | found {w : Waiting} {q : Queue} {r : Int} : s.waiting = some w → w.round < pollRounds →
      (s.nvme.queue w.queue).poll = some (q, r) →
      NvmeStep s (.done r)
        { s.setQueue w.queue q { s.history w.queue with taken := (s.history w.queue).taken + 1 } with waiting := none }
  | timeout {w : Waiting} : s.waiting = some w → w.round = pollRounds →
      NvmeStep s (.done (-1)) { s with waiting := none }

/-- The queues as `nvme_init` leaves them. -/
def queueStart : Queue :=
  { sq := fun _ => ⟨0, 0, 0, 0, 0, 0, 0, 0, 0, 0, 0, 0⟩, sqTail := 0
    cq := fun _ => ⟨0, 0⟩, cqHead := 0, cqPhase := 1, sqDoorbell := 0, cqDoorbell := 0 }

def nvmeStart : NvmeState := ⟨⟨0, fun _ => queueStart⟩, fun _ => ⟨[], [], 0⟩, none⟩

/-- Nothing is outstanding on the queue of a new command, and a status whose code is zero has type zero. -/
def NvmeLabel.Orderly (s : NvmeState) : NvmeLabel → Prop
  | .submit i _ => (s.history i).sent.length = (s.history i).taken
  | .post _ c => c.field &&& 0xFF = 0 → c.Success
  | .poll => True
  | .done _ => True

def OrderlyStep (s : NvmeState) (l : NvmeLabel) (s' : NvmeState) : Prop := l.Orderly s ∧ NvmeStep s l s'

/-- The head is at the oldest completion that was not consumed, and the phase tells whether there is one. -/
structure Queue.Designates (q : Queue) (h : History) : Prop where
  head : q.cqHead = h.taken % nvmeQueueDepth
  new_iff : (q.cq q.cqHead).status &&& 1 = q.cqPhase ↔ h.taken < h.posted.length
  entry : ∀ c, h.posted[h.taken]? = some c → q.cq q.cqHead = c.entry q.cqPhase

/-! `Tracks` holds in every run: the driver consumes the completions in the order in which they
were posted. That the completion is the one of the command needs `Settled`, which holds
as long as nothing was outstanding when a command was sent.
-/

/-- The driver is less than a lap behind a completion queue that holds what was posted. -/
structure Queue.Tracks (q : Queue) (h : History) : Prop where
  laid : Laid nvmeQueueDepth (h.posted.map fun c => (c.cid, c.field))
    (fun i => ((q.cq i).cid, (q.cq i).status / 2)) fun i => (q.cq i).status % 2
  head : q.cqHead = h.taken % nvmeQueueDepth
  phase : q.cqPhase = phaseOf nvmeQueueDepth h.taken
  low : h.taken ≤ h.posted.length
  near : h.posted.length < h.taken + nvmeQueueDepth

theorem Completion.entry_status (c : Completion) {phase : Nat} (bit : phase < 2) :
    (c.entry phase).status = 2 * c.field + phase := by
  rw [Completion.entry, Nat.shiftLeft_eq, Nat.mul_comm]
  exact (Nat.two_pow_add_eq_or_of_lt (i := 1) bit c.field).symm

variable {q q' : Queue} {h : History}

theorem queueStart_tracks : queueStart.Tracks ⟨[], [], 0⟩ := by
  constructor
  · apply Laid.nil
    intro i _
    rfl
  · rfl
  · rfl
  · exact Nat.le_refl 0
  · decide

theorem Queue.Tracks.designates (tracks : q.Tracks h) : q.Designates h := by
  obtain ⟨laid, head, phase, low, near⟩ := tracks
  have length : (h.posted.map fun c => (c.cid, c.field)).length = h.posted.length := List.length_map _
  have new := laid.new_iff (by decide) (length ▸ low) (length ▸ Nat.le_of_lt near)
  rw [← head, ← phase, length] at new
  constructor
  · exact head
  · rw [Nat.and_one_is_mod]
    exact new
  · intro c next
    have behind := (List.getElem?_eq_some_iff.mp next).1
    have found := laid.read (length ▸ behind) (length ▸ near)
    rw [List.getElem?_map, next, ← head, Option.map_some, Option.some.injEq, Prod.mk.injEq] at found
    have bit := new.mpr behind
    have status := c.entry_status (phaseOf_lt nvmeQueueDepth h.taken)
    rw [← phase] at status
    have same : (q.cq q.cqHead).status = (c.entry q.cqPhase).status := by omega
    cases entry : q.cq q.cqHead with
    | mk cid status =>
      rw [entry] at found same
      exact congrArg₂ Cqe.mk found.1.symm same

theorem Queue.Tracks.poll (tracks : q.Tracks h) :
    q.poll = h.posted[h.taken]?.map fun c =>
      ({ q with
        cqHead := (q.cqHead + 1) % nvmeQueueDepth
        cqPhase := if (q.cqHead + 1) % nvmeQueueDepth = 0 then q.cqPhase ^^^ 1 else q.cqPhase
        cqDoorbell := (q.cqHead + 1) % nvmeQueueDepth }, if c.field &&& 0xFF ≠ 0 then -1 else 0) := by
  have designates := tracks.designates
  rw [Queue.poll]
  by_cases behind : h.taken < h.posted.length
  · have found := List.getElem?_eq_getElem behind
    have bit : q.cqPhase < 2 := by
      rw [tracks.phase]
      exact phaseOf_lt _ _
    have field : (h.posted[h.taken].entry q.cqPhase).status >>> 1 = h.posted[h.taken].field := by
      rw [Completion.entry_status _ bit, Nat.shiftRight_eq_div_pow]
      omega
    rw [if_pos (designates.new_iff.mpr behind), found, Option.map_some]
    rw [designates.entry _ found, field]
  · rw [if_neg (mt designates.new_iff.mp behind), List.getElem?_eq_none (Nat.le_of_not_lt behind), Option.map_none]

theorem Queue.Tracks.submit (tracks : q.Tracks h) (cmd : Sqe) (cid : Nat) :
    (q.submit cmd).Tracks { h with sent := h.sent ++ [cid] } :=
  ⟨tracks.laid, tracks.head, tracks.phase, tracks.low, tracks.near⟩

theorem Queue.Tracks.post (tracks : q.Tracks h) (c : Completion)
    (room : h.posted.length + 1 < h.taken + nvmeQueueDepth) :
    (q.post h c).Tracks { h with posted := h.posted ++ [c] } := by
  obtain ⟨laid, head, phase, low, near⟩ := tracks
  have length : (h.posted.map fun c => (c.cid, c.field)).length = h.posted.length := List.length_map _
  have bit := phaseOf_lt nvmeQueueDepth h.posted.length
  have here : (q.post h c).cq (h.posted.length % nvmeQueueDepth) = c.entry (phaseOf nvmeQueueDepth h.posted.length) :=
    Function.update_self _ _ _
  have there : ∀ i, i ≠ h.posted.length % nvmeQueueDepth → (q.post h c).cq i = q.cq i :=
    fun i other => Function.update_of_ne other _ _
  refine ⟨?_, head, phase, ?_, ?_⟩
  · rw [List.map_append, List.map_singleton]
    apply laid.push (by decide)
    · rw [length, here, c.entry_status bit]
      have half : (2 * c.field + phaseOf nvmeQueueDepth h.posted.length) / 2 = c.field := by omega
      rw [half]
      rfl
    · intro i other
      rw [length] at other
      rw [there i other]
    · rw [length, here, c.entry_status bit]
      omega
    · intro i _ other
      rw [length] at other
      rw [there i other]
  · rw [List.length_append]
    exact Nat.le_add_right_of_le low
  · rw [List.length_append]
    exact room

theorem Queue.Tracks.found (tracks : q.Tracks h) {r : Int} (poll : q.poll = some (q', r)) :
    ∃ c, h.posted[h.taken]? = some c ∧ r = (if c.field &&& 0xFF ≠ 0 then -1 else 0) ∧
      q'.Tracks { h with taken := h.taken + 1 } := by
  rw [tracks.poll] at poll
  obtain ⟨c, next, same⟩ := Option.map_eq_some_iff.mp poll
  obtain ⟨rfl, rfl⟩ := Prod.mk.inj same
  have behind := (List.getElem?_eq_some_iff.mp next).1
  obtain ⟨laid, head, phase, low, near⟩ := tracks
  refine ⟨c, next, rfl, laid, ?_, ?_, behind, ?_⟩
  · show (q.cqHead + 1) % nvmeQueueDepth = (h.taken + 1) % nvmeQueueDepth
    rw [head, Nat.mod_add_mod]
  · show (if (q.cqHead + 1) % nvmeQueueDepth = 0 then q.cqPhase ^^^ 1 else q.cqPhase) = phaseOf nvmeQueueDepth (h.taken + 1)
    rw [head, phase, Nat.mod_add_mod, phaseOf_succ]
  · show h.posted.length < h.taken + 1 + nvmeQueueDepth
    omega

variable {s s' : NvmeState} {l : NvmeLabel} {labels : List NvmeLabel}

theorem Nvme.submit_queue (n : Nvme) (i : QueueId) (cmd : Sqe) :
    ∃ cmd', (n.submit i cmd).queue = Function.update n.queue i ((n.queue i).submit cmd') := by
  cases i with
  | admin => exact ⟨_, rfl⟩
  | io => exact ⟨_, rfl⟩

theorem tracks_step (tracks : ∀ i, (s.nvme.queue i).Tracks (s.history i)) (step : NvmeStep s l s') (i : QueueId) :
    (s'.nvme.queue i).Tracks (s'.history i) := by
  cases step with
  | @submit j cmd _ =>
    obtain ⟨cmd', queue⟩ := s.nvme.submit_queue j cmd
    simp only [queue]
    by_cases same : i = j
    · subst same
      rw [Function.update_self, Function.update_self]
      exact (tracks i).submit _ _
    · rw [Function.update_of_ne same, Function.update_of_ne same]
      exact tracks i
  | @post j c _ _ room =>
    simp only [NvmeState.setQueue]
    by_cases same : i = j
    · subst same
      rw [Function.update_self, Function.update_self]
      exact (tracks i).post c room
    · rw [Function.update_of_ne same, Function.update_of_ne same]
      exact tracks i
  | poll => exact tracks i
  | @found w q r _ _ poll =>
    obtain ⟨_, _, _, after⟩ := (tracks w.queue).found poll
    simp only [NvmeState.setQueue]
    by_cases same : i = w.queue
    · subst same
      rw [Function.update_self, Function.update_self]
      exact after
    · rw [Function.update_of_ne same, Function.update_of_ne same]
      exact tracks i
  | timeout => exact tracks i

theorem tracks_of_run (run : Run NvmeStep nvmeStart labels s) (i : QueueId) : (s.nvme.queue i).Tracks (s.history i) :=
  run.invariant (fun s => ∀ i, (s.nvme.queue i).Tracks (s.history i)) (fun _ => queueStart_tracks)
    (fun _ _ _ tracks step => tracks_step tracks step) i

theorem head_designates (run : Run NvmeStep nvmeStart labels s) (i : QueueId) :
    (s.nvme.queue i).Designates (s.history i) :=
  (tracks_of_run run i).designates

theorem head_designates_submit : ∃ s, Run NvmeStep nvmeStart [.submit .io (queueStart.sq 0)] s ∧ (s.nvme.queue .io).Designates (s.history .io) :=
  ⟨_, Run.nil.snoc (.submit rfl), head_designates (Run.nil.snoc (.submit rfl)) .io⟩

/-- On a queue that is never more than one command behind, completions come in the order of the commands. -/
structure History.InOrder (h : History) : Prop where
  numbers : h.posted.map (·.number) = List.range h.posted.length
  few : h.posted.length ≤ h.sent.length
  one : h.sent.length ≤ h.taken + 1
  clear : ∀ c ∈ h.posted, c.field &&& 0xFF = 0 → c.Success

structure Settled (s : NvmeState) : Prop where
  inOrder : ∀ i, (s.history i).InOrder
  waiting : ∀ w, s.waiting = some w → w.number + 1 = (s.history w.queue).sent.length

theorem nvmeStart_settled : Settled nvmeStart :=
  ⟨fun _ => ⟨rfl, Nat.le_refl 0, Nat.zero_le _, nofun⟩, nofun⟩

theorem History.InOrder.submit (inOrder : h.InOrder) (settled : h.sent.length = h.taken) (cid : Nat) :
    { h with sent := h.sent ++ [cid] : History }.InOrder := by
  obtain ⟨numbers, few, _, clear⟩ := inOrder
  refine ⟨numbers, ?_, ?_, clear⟩
  · rw [List.length_append]
    exact Nat.le_add_right_of_le few
  · show (h.sent ++ [cid]).length ≤ h.taken + 1
    exact Nat.le_of_eq (by rw [List.length_append, settled, List.length_singleton])

theorem History.InOrder.number (inOrder : h.InOrder) (low : h.taken ≤ h.posted.length) {c : Completion}
    (sent : h.sent[c.number]? = some c.cid) (once : ∀ d ∈ h.posted, d.number ≠ c.number) :
    c.number = h.posted.length := by
  obtain ⟨numbers, few, one, _⟩ := inOrder
  have inside := (List.getElem?_eq_some_iff.mp sent).1
  have new : ¬ c.number < h.posted.length := by
    intro old
    rw [← List.mem_range, ← numbers] at old
    obtain ⟨d, member, same⟩ := List.mem_map.mp old
    exact once d member same
  omega

theorem History.InOrder.post (inOrder : h.InOrder) (low : h.taken ≤ h.posted.length) {c : Completion}
    (sent : h.sent[c.number]? = some c.cid) (once : ∀ d ∈ h.posted, d.number ≠ c.number)
    (clear : c.field &&& 0xFF = 0 → c.Success) : { h with posted := h.posted ++ [c] : History }.InOrder := by
  have number := inOrder.number low sent once
  have inside := (List.getElem?_eq_some_iff.mp sent).1
  refine ⟨?_, ?_, inOrder.one, ?_⟩
  · rw [List.map_append, inOrder.numbers, List.length_append, List.length_singleton, List.range_succ,
      List.map_singleton, number]
  · rw [List.length_append, List.length_singleton, ← number]
    exact inside
  · intro d member
    rcases List.mem_append.mp member with old | new
    · exact inOrder.clear d old
    · rw [List.mem_singleton.mp new]
      exact clear

theorem History.InOrder.found (inOrder : h.InOrder) : { h with taken := h.taken + 1 }.InOrder :=
  ⟨inOrder.numbers, inOrder.few, Nat.le_succ_of_le inOrder.one, inOrder.clear⟩

theorem Settled.step (settled : Settled s) (tracks : ∀ i, (s.nvme.queue i).Tracks (s.history i))
    (step : OrderlyStep s l s') : Settled s' := by
  obtain ⟨inOrder, waiting⟩ := settled
  obtain ⟨orderly, step⟩ := step
  cases step with
  | @submit j cmd _ =>
    constructor
    · intro i
      by_cases same : i = j
      · subst same
        simp only [Function.update_self]
        exact (inOrder i).submit orderly _
      · simp only [Function.update_of_ne same]
        exact inOrder i
    · intro w polled
      obtain rfl := Option.some.inj polled
      simp only [Function.update_self, List.length_append, List.length_singleton]
  | @post j c sent once room =>
    constructor
    · intro i
      by_cases same : i = j
      · subst same
        simp only [NvmeState.setQueue, Function.update_self]
        exact (inOrder i).post (tracks i).low sent once orderly
      · simp only [NvmeState.setQueue, Function.update_of_ne same]
        exact inOrder i
    · intro w polled
      rw [waiting w polled]
      by_cases same : w.queue = j
      · simp only [NvmeState.setQueue, same, Function.update_self]
      · simp only [NvmeState.setQueue, Function.update_of_ne same]
  | @poll w polled _ _ =>
    refine ⟨inOrder, ?_⟩
    intro w' polled'
    obtain rfl := Option.some.inj polled'
    exact waiting w polled
  | @found w q r _ _ _ =>
    refine ⟨?_, nofun⟩
    intro i
    by_cases same : i = w.queue
    · subst same
      simp only [NvmeState.setQueue, Function.update_self]
      exact (inOrder _).found
    · simp only [NvmeState.setQueue, Function.update_of_ne same]
      exact inOrder i
  | timeout => exact ⟨inOrder, nofun⟩

theorem settled_of_run (run : Run OrderlyStep nvmeStart labels s) :
    Settled s ∧ ∀ i, (s.nvme.queue i).Tracks (s.history i) := by
  apply run.invariant fun s => Settled s ∧ ∀ i, (s.nvme.queue i).Tracks (s.history i)
  · exact ⟨nvmeStart_settled, fun _ => queueStart_tracks⟩
  · intro s l s' settled step
    exact ⟨settled.1.step settled.2 step, tracks_step settled.2 step.2⟩

def NvmeState.Matched (s : NvmeState) : Prop :=
  ∀ w, s.waiting = some w → ∃ c ∈ (s.history w.queue).posted, c.number = w.number ∧ c.Success

theorem History.InOrder.next (inOrder : h.InOrder) {number : Nat} (sent : number + 1 = h.sent.length) {c : Completion}
    (next : h.posted[h.taken]? = some c) : c.number = number := by
  obtain ⟨numbers, few, one, _⟩ := inOrder
  have behind := (List.getElem?_eq_some_iff.mp next).1
  have place : (h.posted.map (·.number))[h.taken]? = some c.number := by rw [List.getElem?_map, next, Option.map_some]
  rw [numbers, List.getElem?_range behind, Option.some.injEq] at place
  omega

theorem completion_matched (run : Run OrderlyStep nvmeStart labels s) :
    (∀ i, (s.nvme.queue i).Designates (s.history i)) ∧ ∀ s', NvmeStep s (.done 0) s' → s.Matched := by
  obtain ⟨settled, tracks⟩ := settled_of_run run
  refine ⟨fun i => (tracks i).designates, ?_⟩
  intro s' step w polled
  cases step with
  | @found w' q _ polled' _ poll =>
    obtain rfl := Option.some.inj (polled'.symm.trans polled)
    obtain ⟨c, next, result, _⟩ := (tracks w'.queue).found poll
    have inOrder := settled.inOrder w'.queue
    have member := List.mem_of_getElem? next
    refine ⟨c, member, inOrder.next (settled.waiting _ polled) next, ?_⟩
    apply inOrder.clear c member
    by_contra failed
    rw [if_pos failed] at result
    cases result

theorem completion_matched_read : ∃ s s' labels, Run OrderlyStep nvmeStart labels s ∧ NvmeStep s (.done 0) s' ∧ s.Matched := by
  have first : OrderlyStep nvmeStart (.submit .io ⟨2, 0, 0, 0, 4096, 0, 0, 0, 0, 0, 0, 0⟩) _ := ⟨rfl, .submit rfl⟩
  have posted := @Run.snoc _ _ _ _ _ _ _ (NvmeLabel.post .io ⟨0, 0, 0⟩) (Run.nil.snoc first)
    ⟨fun _ => rfl, .post rfl nofun (by decide)⟩
  have early : 0 < pollRounds := by decide
  have taken := NvmeStep.found (w := ⟨.io, 0, 0⟩) rfl early ((settled_of_run posted).2 .io).poll
  exact ⟨_, _, _, posted, taken, (completion_matched posted).2 _ taken⟩

theorem idle_polls {w : Waiting} (polled : s.waiting = some w) (nothing : (s.nvme.queue w.queue).poll = none) (n : Nat)
    (rounds : w.round + n ≤ pollRounds) :
    Run NvmeStep s (List.replicate n .poll) { s with waiting := some { w with round := w.round + n } } := by
  induction n with
  | zero =>
    rw [Nat.add_zero, ← polled]
    exact Run.nil
  | succ n ih =>
    have more : w.round + n < pollRounds := by omega
    have step : NvmeStep { s with waiting := some { w with round := w.round + n } } .poll _ := .poll rfl more nothing
    rw [List.replicate_succ']
    exact (ih (Nat.le_of_lt more)).snoc step

theorem late_completion_taken : ¬ ∀ (labels : List NvmeLabel) (s s' : NvmeState), Run NvmeStep nvmeStart labels s →
    NvmeStep s (.done 0) s' → s.Matched := by
  intro matched
  let read : Sqe := ⟨2, 0, 0, 0, 4096, 0, 0, 0, 0, 0, 0, 0⟩
  have first : NvmeStep nvmeStart (.submit .io read) _ := .submit rfl
  have nothing := (tracks_of_run (Run.nil.snoc first) .io).poll
  have gaveUp := ((Run.nil.snoc first).append (idle_polls rfl nothing pollRounds (by decide))).snoc (.timeout rfl rfl)
  have second := @Run.snoc _ _ _ _ _ _ _ (.submit .io read) gaveUp (.submit rfl)
  have late := second.snoc (.post (c := ⟨0, 0, 0⟩) (i := .io) rfl nofun (by decide))
  have early : 0 < pollRounds := by decide
  have taken := NvmeStep.found (w := ⟨.io, 1, 0⟩) rfl early (tracks_of_run late .io).poll
  obtain ⟨c, member, number, _⟩ := matched _ _ _ late taken _ rfl
  obtain rfl := List.mem_singleton.mp member
  cases number

end RexOs.Drivers
