import RexOs.Sched.UserSpaces

/-! The frames of user tasks over whole runs.

`ReleasesOwn` says what destruction does in a state: it releases exactly the frames that
were taken for the address space, none of which is mapped elsewhere. It holds in every
state of a run in which the launcher, `sys_brk` and `sys_get_fb` meet their conditions.
Without them frame 0 is mapped when memory runs out, and given back later.
-/

set_option autoImplicit false

namespace RexOs.Sched

open RexOs.Library RexOs.Mm RexOs.Arch RexOs.Fs

section
variable (fails : Nat → Bool) (platform : Platform)

def OpGranted (sys : System) : TaskOp → Prop
  | .launch i kmalloc file => ∀ t, sys.running[i]? = some t → LaunchGranted fails sys.machine t.cr3 kmalloc file
  | .brk i arg1 => ∀ t, sys.running[i]? = some t → CallGranted fails sys.machine t.toTask arg1
  | .getFb i width height pitch => ∀ t, sys.running[i]? = some t →
      FbGranted fails platform sys.machine t.cr3 width height pitch
  | _ => True

def TaskStep (sys : System) (op : TaskOp) (next : System) : Prop := sys.next fails platform op = some next

def GrantedTaskStep (sys : System) (op : TaskOp) (next : System) : Prop :=
  OpGranted fails platform sys op ∧ TaskStep fails platform sys op next

def bootSystem (start : Machine) : System := ⟨start, [], []⟩

structure ReleasesOwn (start : Machine) (sys : System) : Prop where
  /-- Destruction releases exactly what was taken for the address space. -/
  own : ∀ t ∈ sys.tasks, ∀ k, k < sys.machine.pmm.totalFrames →
    (sys.machine.pmm.bmTest k = true ∧
      (vmmDestroyUserPml4 sys.machine.mem platform.kernelPml4 t.cr3 sys.machine.pmm).bmTest k = false ↔ k ∈ t.frames)
  /-- What is taken was so at boot or has been taken for a task. -/
  account : ∀ k, k < sys.machine.pmm.totalFrames →
    (sys.machine.pmm.bmTest k = true ↔ start.pmm.bmTest k = true ∨ ∃ t ∈ sys.tasks, k ∈ t.frames)
  others : ∀ (i j : Nat) (t u : UserTask), sys.tasks[i]? = some t → sys.tasks[j]? = some u → i ≠ j → ∀ k ∈ t.frames, ∀ p, p.length ≤ 4 →
    tableOf sys.machine.mem u.cr3 p ≠ some (k * pageSize)
  kernel : ∀ t ∈ sys.tasks, ∀ k ∈ t.frames, ∀ p, p.length ≤ 4 →
    tableOf sys.machine.mem platform.kernelPml4 p ≠ some (k * pageSize)

end

section
variable {platform : Platform} {start s : Machine} {tasks : List UserTask}

theorem SpacesOk.kernelTree (ok : SpacesOk platform start s tasks) {p : List (Fin 512)} (short : p.length ≤ 4) :
    tableOf s.mem platform.kernelPml4 p = tableOf start.mem platform.kernelPml4 p := by
  apply walk_congr _ p short
  intro q i a inside found
  apply child_congr
  exact entryAt_agree (ok.kernel q a (by omega) found) i

theorem SpacesOk.kernelFree (boot : BootOk platform start) (ok : SpacesOk platform start s tasks) {t : UserTask}
    (member : t ∈ tasks) {k : Nat} (owned : k ∈ t.frames) {p : List (Fin 512)} (short : p.length ≤ 4) :
    tableOf s.mem platform.kernelPml4 p ≠ some (k * pageSize) := by
  rw [ok.kernelTree short]
  intro found
  have clear := ok.fresh t member k owned
  obtain ⟨_, inside, _⟩ := (ok.spaces t member).taken owned
  have taken : start.pmm.bmTest k = true := by
    by_cases deep : p.length = 4
    · exact boot.pages p k deep found (by rw [← ok.total]; exact inside)
    · obtain ⟨j, frame, _, _, taken⟩ := boot.tables p _ (by omega) found
      rw [Nat.eq_of_mul_eq_mul_right (by decide) frame]
      exact taken
  rw [taken] at clear
  cases clear

theorem userFrame_of_table {cr3 k : Nat} {i : Fin 512} {p : List (Fin 512)} (low : i.val < 256) (short : (i :: p).length ≤ 4)
    (inside : k < s.pmm.totalFrames) (found : tableOf s.mem cr3 (i :: p) = some (k * pageSize)) :
    userFrame s cr3 (i :: p) = some (k * pageSize) := by
  -- the same walk, where only the last step can be beyond the bitmap
  have walks : ∀ d t q, 0 < d + q.length → d + q.length ≤ 4 → (d = 0 → ∀ j ∈ q.head?, j.val < 256) →
      walkFrom (child s.mem) d t q = some (k * pageSize) →
      walkFrom (userChild s.pmm.totalFrames s.mem) d t q = some (k * pageSize) := by
    intro d t q
    induction q generalizing d t with
    | nil => exact fun _ _ _ here => here
    | cons j q ih =>
      intro _ short head here
      rw [walkFrom] at here ⊢
      rw [List.length_cons] at short
      obtain ⟨a, step, rest⟩ := Option.bind_eq_some_iff.mp here
      have same : userChild s.pmm.totalFrames s.mem d t j = some a := by
        rw [userChild, if_neg, step]
        rintro (⟨top, high⟩ | ⟨deep, beyond⟩)
        · have := head top j rfl
          omega
        · have nil : q = [] := List.eq_nil_of_length_eq_zero (by omega)
          rw [nil] at rest
          cases rest
          rw [child_frame step, Nat.mul_div_cancel _ (by decide)] at beyond
          omega
      rw [same, Option.bind_some]
      exact ih (d + 1) a (by omega) (by omega) (absurd · (Nat.succ_ne_zero d)) rest
  apply walks 0 cr3 (i :: p) (Nat.succ_pos _) (by omega) _ found
  intro _ j member
  cases member
  exact low

theorem SpacesOk.apartFrom (boot : BootOk platform start) (ok : SpacesOk platform start s tasks) {t u : UserTask}
    (memberT : t ∈ tasks) (memberU : u ∈ tasks) (disjoint : ∀ k ∈ t.frames, k ∉ u.frames) {k : Nat} (owned : k ∈ t.frames)
    {p : List (Fin 512)} (short : p.length ≤ 4) : tableOf s.mem u.cr3 p ≠ some (k * pageSize) := by
  intro found
  have space := ok.spaces u memberU
  obtain ⟨_, inside, _⟩ := (ok.spaces t memberT).taken owned
  cases p with
  | nil => exact disjoint k owned ((space.frames k).mpr ⟨[], Nat.zero_le _, found⟩)
  | cons i p =>
    by_cases low : i.val < 256
    · exact disjoint k owned ((space.frames k).mpr ⟨i :: p, short, userFrame_of_table low short inside found⟩)
    · -- the upper half is that of the kernel
      have same : child s.mem 0 u.cr3 i = child s.mem 0 platform.kernelPml4 i := by
        simp only [child, space.upper i (by omega)]
      rw [tableOf, walk, walkFrom, same] at found
      exact ok.kernelFree boot memberT owned short found

theorem SpacesOk.releases {sys : System} (boot : BootOk platform start) (ok : SpacesOk platform start sys.machine sys.tasks) :
    ReleasesOwn platform start sys := by
  constructor
  case own =>
    intro t member k inside
    have space := ok.spaces t member
    have frees := vmmDestroyUserPml4_frees space.tree (ok.cr3_ne boot member)
    have bits := frees.bits k inside
    rw [space.frames]
    constructor
    · rintro ⟨taken, clear⟩
      by_contra outside
      rw [bits.mpr ⟨taken, outside⟩] at clear
      cases clear
    · intro owned
      refine ⟨(space.taken ((space.frames k).mpr owned)).2.2, ?_⟩
      by_contra taken
      exact (bits.mp (Bool.eq_true_of_not_eq_false taken)).2 owned
  case account => exact ok.account
  case others =>
    intro i j t u foundT foundU other k owned p short
    obtain ⟨insideT, rfl⟩ := List.getElem?_eq_some_iff.mp foundT
    obtain ⟨insideU, rfl⟩ := List.getElem?_eq_some_iff.mp foundU
    have pairs := List.pairwise_iff_getElem.mp ok.apart
    have disjoint : ∀ k ∈ sys.tasks[i].frames, k ∉ sys.tasks[j].frames := by
      rcases Nat.lt_or_gt_of_ne other with before | after
      · exact pairs i j insideT insideU before
      · exact fun k mine theirs => pairs j i insideU insideT after k theirs mine
    exact ok.apartFrom boot (List.getElem_mem insideT) (List.getElem_mem insideU) disjoint owned short
  case kernel => exact fun t member k owned p short => ok.kernelFree boot member owned short

end

section
variable {fails : Nat → Bool} {platform : Platform} {start : Machine} {sys : System} {i : Nat} {t : UserTask}

theorem mem_newFrames {s s' : Machine} {k : Nat} : k ∈ newFrames s s' ↔ k < s'.pmm.totalFrames ∧ NewFrame s s' k := by
  simp [newFrames, NewFrame]

theorem tasks_perm (found : sys.running[i]? = some t) : sys.tasks.Perm (t :: (sys.running.eraseIdx i ++ sys.dead)) := by
  obtain ⟨inside, rfl⟩ := List.getElem?_eq_some_iff.mp found
  have front := (List.getElem_cons_eraseIdx_perm inside).symm
  exact front.append_right sys.dead

theorem exited_perm (i : Nat) : (sys.exited i).tasks.Perm sys.tasks := by
  unfold System.exited
  split
  · exact List.Perm.refl _
  · rename_i t found
    exact List.perm_middle.trans (tasks_perm found).symm

theorem exited_machine (i : Nat) : (sys.exited i).machine = sys.machine := by
  unfold System.exited
  split <;> rfl

theorem ran_spaces {task : Arch.Task} {machine : Machine} (boot : BootOk platform start)
    (ok : SpacesOk platform start sys.machine sys.tasks) (found : sys.running[i]? = some t) (same : task.cr3 = t.cr3)
    (grows : Grows t.cr3 sys.machine machine (NewFrame sys.machine machine)) :
    SpacesOk platform start (sys.ran i t task machine).machine (sys.ran i t task machine).tasks := by
  obtain ⟨inside, _⟩ := List.getElem?_eq_some_iff.mp found
  let t' : UserTask := { task with launched := true, frames := t.frames ++ newFrames sys.machine machine }
  have frames : ∀ k, k ∈ t'.frames ↔ k ∈ t.frames ∨ NewFrame sys.machine machine k := by
    intro k
    rw [List.mem_append, mem_newFrames]
    refine or_congr_right ⟨And.right, fun new => ⟨?_, new⟩⟩
    -- a frame that has come is one of the bitmap
    obtain ⟨p, short, here⟩ := (grows.inTree k).mpr (Or.inr new)
    obtain ⟨j, frame, _, inside', _⟩ := grows.tree.frames p _ short here
    rw [Nat.eq_of_mul_eq_mul_right (by decide) frame]
    exact inside'
  have grown := (ok.perm (tasks_perm found)).grow boot grows same frames
  apply grown.perm
  exact ((List.set_perm_cons_eraseIdx inside t').append_right sys.dead).symm

theorem spawn_spaces (created : Bool) (boot : BootOk platform start) (ok : SpacesOk platform start sys.machine sys.tasks) :
    SpacesOk platform start (sys.spawn fails platform created).machine (sys.spawn fails platform created).tasks := by
  have kernel : ∃ j, platform.kernelPml4 = j * pageSize ∧ sys.machine.pmm.bmTest j = true := by
    obtain ⟨k, frame, _, _, taken, _⟩ := ok.kernelFrame boot (p := []) (Nat.zero_le _) rfl
    exact ⟨k, frame, taken⟩
  unfold System.spawn
  obtain ⟨s', ⟨failed, mem, ok', pmm, none⟩ | ⟨k, got, new⟩⟩ := vmmCreateUserPml4_cases fails ok.ok kernel
  · rw [failed]
    exact ok.idle ok' mem pmm none
  · rw [got]
    dsimp only
    rw [if_neg (Nat.mul_ne_zero new.nonzero (by decide))]
    let task : UserTask :=
      { cr3 := k * pageSize, brkStart := 0, brkCurrent := 0, launched := false, frames := newFrames sys.machine s' }
    have frames : ∀ j, j ∈ task.frames ↔ NewFrame sys.machine s' j := by
      intro j
      rw [mem_newFrames]
      refine ⟨And.right, fun taken => ⟨?_, taken⟩⟩
      rw [(new.new j).mp taken, new.pmm.total]
      exact new.inside
    have grown : SpacesOk platform start s' (task :: sys.tasks) := ok.create boot new rfl frames
    cases created with
    | true =>
      apply grown.perm
      show (task :: (sys.running ++ sys.dead)).Perm (sys.running ++ [task] ++ sys.dead)
      rw [List.append_assoc]
      exact List.perm_middle.symm
    | false => exact grown.destroy boot

theorem reap_spaces (boot : BootOk platform start) (ok : SpacesOk platform start sys.machine sys.tasks) :
    SpacesOk platform start (sys.reap platform).machine (sys.reap platform).tasks := by
  unfold System.reap
  split
  · exact ok
  · rename_i t rest dead
    have front : sys.tasks.Perm (t :: (sys.running ++ rest)) := by
      rw [System.tasks, dead]
      exact List.perm_middle
    have ok' := ok.perm front
    have other := ok'.cr3_ne boot List.mem_cons_self
    have nonzero : t.cr3 ≠ 0 := by
      obtain ⟨k, frame, nonzero, _⟩ := (ok'.spaces t List.mem_cons_self).tree.frames [] _ (Nat.zero_le _) rfl
      rw [frame]
      exact Nat.mul_ne_zero nonzero (by decide)
    simp only [nonzero, other, ne_eq, not_false_eq_true, and_self, if_true]
    exact ok'.destroy boot

theorem next_spaces {op : TaskOp} {next : System} (boot : BootOk platform start)
    (ok : SpacesOk platform start sys.machine sys.tasks) (step : GrantedTaskStep fails platform sys op next) :
    SpacesOk platform start next.machine next.tasks := by
  obtain ⟨granted, step⟩ := step
  unfold TaskStep at step
  have tree : ∀ {i : Nat} {t : UserTask}, sys.running[i]? = some t → UserTree sys.machine t.cr3 := by
    intro i t found
    exact (ok.spaces t (List.mem_append_left _ (List.mem_of_getElem? found))).tree
  cases op with
  | spawn created =>
    cases step
    exact spawn_spaces created boot ok
  | launch i kmalloc file =>
    rw [System.next] at step
    split at step
    · cases step
    rename_i t found
    split at step
    · cases step
    split at step
    · cases step
    · rename_i run
      cases step
      obtain ⟨same, grows⟩ := userTaskLauncher_grows ok.ok (tree found) (granted t found) run
      exact ran_spaces boot ok found same grows
    · rename_i run
      cases step
      obtain ⟨same, grows⟩ := userTaskLauncher_grows ok.ok (tree found) (granted t found) run
      rw [exited_machine]
      exact (ran_spaces boot ok found same grows).perm (exited_perm i).symm
  | brk i arg1 =>
    rw [System.next] at step
    split at step
    · cases step
    rename_i t found
    split at step
    · cases step
    split at step
    · cases step
    · rename_i run
      cases step
      obtain ⟨same, grows⟩ := sysBrk_grows ok.ok (tree found) (granted t found) run
      exact ran_spaces boot ok found same grows
  | getFb i width height pitch =>
    rw [System.next] at step
    split at step
    · cases step
    rename_i t found
    split at step
    · cases step
    split at step
    · cases step
    · rename_i run
      cases step
      exact ran_spaces boot ok found rfl (sysGetFb_grows ok.ok (tree found) (granted t found) run)
  | exit i =>
    rw [System.next] at step
    split at step
    · cases step
      rw [exited_machine]
      exact ok.perm (exited_perm i).symm
    · cases step
  | reap =>
    cases step
    exact reap_spaces boot ok

theorem boot_spaces (boot : BootOk platform start) : SpacesOk platform start (bootSystem start).machine (bootSystem start).tasks where
  ok := boot.ok
  total := rfl
  kernel _ _ _ _ _ _ _ := rfl
  spaces _ member := absurd member List.not_mem_nil
  apart := List.Pairwise.nil
  account k _ := by simp [bootSystem, System.tasks]
  fresh _ member := absurd member List.not_mem_nil

/-- Where the conditions hold, address spaces are given back as they were taken. -/
theorem user_frames_released (boot : BootOk platform start) :
    ∀ ops sys, Run (GrantedTaskStep fails platform) (bootSystem start) ops sys → ReleasesOwn platform start sys := by
  intro ops sys run
  have ok : SpacesOk platform start sys.machine sys.tasks :=
    run.invariant (fun sys => SpacesOk platform start sys.machine sys.tasks) (boot_spaces boot)
      fun _ _ _ before step => next_spaces boot before step
  exact ok.releases boot

def fewFrames : Machine := { smallMachine with pmm := { smallMachine.pmm with totalFrames := 7 } }

def smallPlatform : Platform := ⟨1 * pageSize, ⟨0, 0, 0, 0⟩⟩

theorem fewFrames_boot : BootOk smallPlatform fewFrames := by
  have root : ∀ {p a}, tableOf fewFrames.mem smallPlatform.kernelPml4 p = some a → p = [] ∧ a = 1 * pageSize :=
    fun found => tableOf_empty (smallMachine_entry _) found
  constructor
  case ok => exact ⟨by decide, by decide, by decide⟩
  case tables =>
    intro p a _ found
    exact ⟨1, (root found).2, by decide, by decide, by decide⟩
  case pages =>
    intro p k long found
    rw [(root found).1] at long
    cases long

/-- A task that has no file exits and is cleaned up. -/
theorem user_frames_released_noFile :
    ∃ sys, Run (GrantedTaskStep (fun _ => false) smallPlatform) (bootSystem fewFrames)
      [.spawn true, .launch 0 (fun _ => none) none, .reap] sys ∧ ReleasesOwn smallPlatform fewFrames sys := by
  let spawned := (bootSystem fewFrames).spawn (fun _ => false) smallPlatform true
  have one : Run (GrantedTaskStep (fun _ => false) smallPlatform) (bootSystem fewFrames) [.spawn true] spawned :=
    Run.nil.snoc ⟨trivial, rfl⟩
  have granted : OpGranted (fun _ => false) smallPlatform spawned (.launch 0 (fun _ => none) none) := by
    intro t _
    refine ⟨nofun, ?_⟩
    intro entry brkEnd s' loaded real
    cases loaded
    exact absurd rfl real
  cases launched : spawned.next (fun _ => false) smallPlatform (.launch 0 (fun _ => none) none) with
  | none =>
    have some' : (spawned.next (fun _ => false) smallPlatform (.launch 0 (fun _ => none) none)).isSome = true := by
      decide +kernel
    rw [launched] at some'
    cases some'
  | some sys =>
    have last : GrantedTaskStep (fun _ => false) smallPlatform sys .reap (sys.reap smallPlatform) := ⟨trivial, rfl⟩
    have run := (one.snoc ⟨granted, launched⟩).snoc last
    exact ⟨_, run, user_frames_released fewFrames_boot _ _ run⟩

/-- An ELF header and one program header: eight bytes at 0x400FFC, so in two pages. -/
def twoPageImage : Mem :=
  let header := store (store (store (store (store (fun _ => 0) 0 4 0x464C457F) 24 8 0x400FFC) 32 8 64) 54 2 56) 56 2 1
  store (store (store (store (store header 64 4 1) 68 4 5) 80 8 0x400FFC) 96 8 8) 104 8 8

def twoPageFile : ElfFile where
  read offset size := (((List.range 120).map twoPageImage).drop offset).take size
  bound offset size := by
    rw [List.length_take]
    exact Nat.min_le_left _ _

def twoPageLaunch : TaskOp := .launch 0 (fun _ => some fun _ => 0) (some twoPageFile)

/-- Memory ends at the second page: frame 0 is mapped there, the loader gives up, and the reaper releases it. -/
theorem frame_zero_released :
    ¬ ∀ (fails : Nat → Bool) (platform : Platform) (start : Machine), BootOk platform start →
      ∀ ops sys, Run (TaskStep fails platform) (bootSystem start) ops sys → ReleasesOwn platform start sys := by
  intro claim
  let spawned := (bootSystem fewFrames).spawn (fun _ => false) smallPlatform true
  have one : Run (TaskStep (fun _ => false) smallPlatform) (bootSystem fewFrames) [.spawn true] spawned := Run.nil.snoc rfl
  have facts : (spawned.next (fun _ => false) smallPlatform twoPageLaunch).map (fun sys =>
      (sys.dead.map (·.cr3), sys.machine.pmm.totalFrames,
        [entryAt sys.machine.mem (2 * pageSize) 0, entryAt sys.machine.mem (4 * pageSize) 0,
          entryAt sys.machine.mem (5 * pageSize) 2, entryAt sys.machine.mem (6 * pageSize) 1])) =
      some ([2 * pageSize], 7, [4 * pageSize + 7, 5 * pageSize + 7, 6 * pageSize + 7, 0 * pageSize + 7]) := by
    decide +kernel
  cases launched : spawned.next (fun _ => false) smallPlatform twoPageLaunch with
  | none =>
    rw [launched] at facts
    cases facts
  | some sys =>
    rw [launched] at facts
    obtain ⟨dead, facts⟩ := Prod.mk.inj (Option.some.inj facts)
    obtain ⟨total, entries⟩ := Prod.mk.inj facts
    simp only [List.cons.injEq, and_true] at entries
    obtain ⟨top, second, third, last⟩ := entries
    have run : Run (TaskStep (fun _ => false) smallPlatform) (bootSystem fewFrames) ([.spawn true] ++ [twoPageLaunch] ++ [.reap])
        (sys.reap smallPlatform) := (one.snoc launched).snoc rfl
    have releases := claim _ _ _ fewFrames_boot _ _ run
    -- the only dead task is the one with frame 0 in its tree
    obtain ⟨t, dead', cr3⟩ := List.map_eq_singleton_iff.mp dead
    have reaped : (sys.reap smallPlatform).machine.pmm =
        vmmDestroyUserPml4 sys.machine.mem (1 * pageSize) (2 * pageSize) sys.machine.pmm := by
      unfold System.reap
      rw [dead']
      dsimp only
      rw [cr3, if_pos (by decide)]
      rfl
    have small : 0 < (sys.reap smallPlatform).machine.pmm.totalFrames := by
      rw [reaped, vmmDestroyUserPml4_total, total]
      decide
    have taken := (releases.account 0 small).mpr (Or.inl (by decide))
    have free : (sys.reap smallPlatform).machine.pmm.bmTest 0 = false := by
      have top' : isAbsent (entryAt sys.machine.mem (2 * pageSize) 0) = false ∧
          entryAt sys.machine.mem (2 * pageSize) 0 &&& addrMask4k = 4 * pageSize := by
        rw [top]
        decide
      have second' : isAbsentOrHuge (entryAt sys.machine.mem (4 * pageSize) 0) = false ∧
          entryAt sys.machine.mem (4 * pageSize) 0 &&& addrMask4k = 5 * pageSize := by
        rw [second]
        decide
      have third' : isAbsentOrHuge (entryAt sys.machine.mem (5 * pageSize) 2) = false ∧
          entryAt sys.machine.mem (5 * pageSize) 2 &&& addrMask4k = 6 * pageSize := by
        rw [third]
        decide
      have last' : isAbsent (entryAt sys.machine.mem (6 * pageSize) 1) = false ∧
          entryAt sys.machine.mem (6 * pageSize) 1 &&& addrMask4k = 0 := by
        rw [last]
        decide
      have inside : 0 < sys.machine.pmm.totalFrames := by
        rw [total]
        decide
      rw [reaped]
      exact vmmDestroyUserPml4_clears (by decide) (by decide) top' second' third' last' rfl inside
    rw [free] at taken
    cases taken

end

end RexOs.Sched
