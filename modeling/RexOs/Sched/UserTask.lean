import RexOs.Fs.Elf
import RexOs.Mm.VmmPages

/-! The life of user tasks and of their address spaces (`kernel/sched/sched.c`, and `sys_brk` and
`sys_get_fb` of `kernel/arch/x86_64/syscall.c`).

A task is spawned with a new PML4, runs the launcher once, then makes system calls, exits and is
cleaned up by the reaper. Each of these is one step, for any of the tasks. The heap blocks of tasks
and the order in which tasks are scheduled are left out.
-/

set_option autoImplicit false

namespace RexOs.Sched

open RexOs.Library RexOs.Mm RexOs.Arch RexOs.Fs

/-- `fb_address`, `fb_width`, `fb_height` and `fb_pitch`. -/
structure Framebuffer where
  address : Nat
  width : UInt32
  height : UInt32
  pitch : UInt32

structure Platform where
  kernelPml4 : Nat
  fb : Framebuffer

def stackSize : Nat := 256 * 1024

def userStackTop : Nat := 0x00007FFFFF800000

def userStackBase : Nat := userStackTop - stackSize

def fbVaddr : Nat := 0xA0000000

section
variable (fails : Nat → Bool) (platform : Platform)

def userTaskLauncher (s : Machine) (t : Arch.Task) (kmalloc : Nat → Option Mem) (file : Option ElfFile) :
    Except VmmPanic (Bool × Arch.Task × Machine) :=
  match elfLoadEx fails kmalloc t.cr3 s file with
  | .error e => .error e
  | .ok (entry, brkEnd, s) =>
      if entry = 0 then .ok (false, t, s)
      else
        match mapNewPages fails t.cr3 userFlags s userStackBase (stackSize / 0x1000) with
        | .error e => .error e
        | .ok s =>
            -- a return address of 0 on top of the stack
            let retPhys := vmmTranslatePml4 s.mem t.cr3 (userStackTop - 8)
            let mem := if retPhys ≠ 0 then store s.mem retPhys 8 0 else s.mem
            .ok (true, { t with brkStart := brkEnd, brkCurrent := brkEnd }, { s with mem := mem })

/-- The bytes of the address space, as the processor writes them. -/
def writeUser (cr3 : Nat) (m : Mem) (v value : Nat) : Nat → Mem
  | 0 => m
  | n + 1 => writeUser cr3 (Function.update m (vmmTranslatePml4 m cr3 v) (UInt8.ofNat (value % 256))) (v + 1) (value / 256) n

/-- The loop of `sys_get_fb`; `n` pages from `offset` on remain. -/
def mapFb (cr3 fbPhys : Nat) (s : Machine) (offset : Nat) : Nat → Except VmmPanic Machine
  | 0 => .ok s
  | n + 1 =>
      match vmmMapPagePml4 fails s cr3 (fbVaddr + offset) ((fbPhys + offset) % 2 ^ 64) userFlags with
      | .error e => .error e
      | .ok (_, s) => mapFb cr3 fbPhys s (offset + 0x1000) n

def fbPages : Nat := ((platform.fb.pitch * platform.fb.height).toNat + 0xFFF) / 0x1000

def spaceOf (s : Machine) (cr3 : Nat) : UserSpace where
  translate := vmmTranslatePml4 s.mem cr3
  byte v := s.mem (vmmTranslatePml4 s.mem cr3 v)

/-- `*width = fb_width()`, and so on. -/
def writeFbSize (cr3 : Nat) (m : Mem) (width height pitch : Nat) : Mem :=
  let m := writeUser cr3 m width platform.fb.width.toNat 8
  let m := writeUser cr3 m height platform.fb.height.toNat 8
  writeUser cr3 m pitch platform.fb.pitch.toNat 8

/-- The pointers of `sys_get_fb` are good. -/
def fbPointers (s : Machine) (cr3 width height pitch : Nat) : Bool :=
  uptrMapped (spaceOf s cr3) width 8 && uptrMapped (spaceOf s cr3) height 8 && uptrMapped (spaceOf s cr3) pitch 8

def fbPhys (m : Mem) : Nat := vmmTranslatePml4 m platform.kernelPml4 platform.fb.address

def sysGetFb (s : Machine) (t : Arch.Task) (width height pitch : Nat) : Except VmmPanic Machine :=
  if fbPointers s t.cr3 width height pitch then
    let mem := writeFbSize platform t.cr3 s.mem width height pitch
    mapFb fails t.cr3 (fbPhys platform mem) { s with mem := mem } 0 (fbPages platform)
  else .ok s

end

structure UserTask extends Arch.Task where
  launched : Bool
  /-- The frames that were taken for the address space. -/
  frames : List Nat
  deriving DecidableEq, Repr

structure System where
  machine : Machine
  running : List UserTask
  dead : List UserTask

def System.tasks (sys : System) : List UserTask := sys.running ++ sys.dead

def newFrames (s s' : Machine) : List Nat :=
  (List.range s'.pmm.totalFrames).filter fun k => !s.pmm.bmTest k && s'.pmm.bmTest k

inductive TaskOp where
  /-- `task_spawn_user`, where `task_create` finds memory or not. -/
  | spawn (created : Bool)
  | launch (i : Nat) (kmalloc : Nat → Option Mem) (file : Option ElfFile)
  | brk (i arg1 : Nat)
  | getFb (i width height pitch : Nat)
  | exit (i : Nat)
  /-- One pass of the loop of `reaper_task_entry`. -/
  | reap

section
variable (fails : Nat → Bool) (platform : Platform)

def System.ran (sys : System) (i : Nat) (old : UserTask) (task : Arch.Task) (machine : Machine) : System where
  machine := machine
  running := sys.running.set i
    { task with launched := true, frames := old.frames ++ newFrames sys.machine machine }
  dead := sys.dead

/-- The task `i` is taken off the list of tasks and put in front of the dead ones. -/
def System.exited (sys : System) (i : Nat) : System :=
  match sys.running[i]? with
  | none => sys
  | some t => { sys with running := sys.running.eraseIdx i, dead := t :: sys.dead }

def System.spawn (sys : System) (created : Bool) : System :=
  let (userCr3, machine) := vmmCreateUserPml4 fails sys.machine platform.kernelPml4
  if userCr3 = 0 then { sys with machine := machine }
  else if created then
    let task : UserTask :=
      { cr3 := userCr3, brkStart := 0, brkCurrent := 0, launched := false, frames := newFrames sys.machine machine }
    { sys with machine := machine, running := sys.running ++ [task] }
  else
    let pmm := vmmDestroyUserPml4 machine.mem platform.kernelPml4 userCr3 machine.pmm
    { sys with machine := { machine with pmm := pmm } }

def System.reap (sys : System) : System :=
  match sys.dead with
  | [] => sys
  | t :: rest =>
      let pmm := sys.machine.pmm
      let pmm := if t.cr3 ≠ 0 ∧ t.cr3 ≠ platform.kernelPml4 then
        vmmDestroyUserPml4 sys.machine.mem platform.kernelPml4 t.cr3 pmm else pmm
      { sys with machine := { sys.machine with pmm := pmm }, dead := rest }

def System.next (sys : System) : TaskOp → Option System
  | .spawn created => some (sys.spawn fails platform created)
  | .launch i kmalloc file =>
      match sys.running[i]? with
      | none => none
      | some t =>
          if t.launched then none
          else
            match userTaskLauncher fails sys.machine t.toTask kmalloc file with
            | .error _ => none
            | .ok (true, task, machine) => some (sys.ran i t task machine)
            | .ok (false, task, machine) => some ((sys.ran i t task machine).exited i)
  | .brk i arg1 =>
      match sys.running[i]? with
      | none => none
      | some t =>
          if !t.launched then none
          else
            match sysBrk fails sys.machine t.toTask arg1 with
            | .error _ => none
            | .ok (_, task, machine) => some (sys.ran i t task machine)
  | .getFb i width height pitch =>
      match sys.running[i]? with
      | none => none
      | some t =>
          if !t.launched then none
          else
            match sysGetFb fails platform sys.machine t.toTask width height pitch with
            | .error _ => none
            | .ok machine => some (sys.ran i t t.toTask machine)
  | .exit i => if i < sys.running.length then some (sys.exited i) else none
  | .reap => some (sys.reap platform)

end

end RexOs.Sched
