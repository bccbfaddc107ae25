import RexOs.Arch.Syscall
import Mathlib.Algebra.Group.Int.Defs

/-! File descriptors on both sides of the system calls.

The kernel (`kernel/arch/x86_64/syscall.c`) keeps a node and an offset for each descriptor.
The C library (`user/newlib-glue/syscalls.c`, `posix_extra.c`) cannot ask for the offset and
keeps a copy. Paths, files and the memory of the process are parameters.
-/

set_option autoImplicit false

namespace RexOs.User

open Arch (UserSpace uptrMapped minusOne taskFdMax)

/-- `(int)x`. -/
def cInt (x : Nat) : Int := if x % 2 ^ 32 < 2 ^ 31 then x % 2 ^ 32 else x % 2 ^ 32 - 2 ^ 32

/-- `(off_t)x`. -/
def cLong (x : Nat) : Int := if x % 2 ^ 64 < 2 ^ 63 then x % 2 ^ 64 else x % 2 ^ 64 - 2 ^ 64

/-- `(uint64_t)x`. -/
def toU64 (x : Int) : Nat := (x % 2 ^ 64).toNat

inductive Errno where
  | noError
  | enoent
  | ebadf
  | enomem
  | einval
  deriving DecidableEq, Repr

/-- What the calls find outside their own tables; `σ` is the state of all that. -/
structure Outside (σ Node : Type) where
  space : σ → UserSpace
  /-- The node that `sys_open` finds or creates. -/
  lookup : σ → Nat → Nat → Option Node × σ
  vfsRead : σ → Node → Nat → Nat → Nat → Nat × σ
  vfsWrite : σ → Node → Nat → Nat → Nat → Nat × σ
  vfsClose : σ → Node → σ
  length : σ → Node → UInt64
  keyboard : σ → Nat → Nat → σ
  kprintf : σ → Nat → Nat → σ
  sockClose : σ → Int → Int × σ
  malloc : σ → Nat → Option Nat × σ
  free : σ → Nat → σ
  memset : σ → Nat → Nat → σ
  /-- Where a function keeps its `rexos_stat_t`. -/
  stat : σ → Nat

structure Process (σ Node : Type) where
  fdTable : Nat → Option Node
  fdOffset : Nat → Nat
  sOffset : Nat → Nat
  errno : Errno
  outside : σ

section
variable {σ Node : Type} (o : Outside σ Node)

/-- The part for files of `sys_read` and `sys_write`; `closed` is what they answer for a closed descriptor. -/
def transfer (move : σ → Node → Nat → Nat → Nat → Nat × σ) (closed : Nat) (s : Process σ Node)
    (arg1 arg2 arg3 : Nat) : Nat × Process σ Node :=
  if uptrMapped (o.space s.outside) arg2 arg3 = false then (minusOne, s)
  else
    match s.fdTable arg1 with
    | none => (closed, s)
    | some node =>
        let (bytes, outside) := move s.outside node (s.fdOffset arg1) arg3 arg2
        (bytes, { s with
          fdOffset := Function.update s.fdOffset arg1 ((s.fdOffset arg1 + bytes) % 2 ^ 64), outside := outside })

def sysWrite (s : Process σ Node) (arg1 arg2 arg3 : Nat) : Nat × Process σ Node :=
  if arg1 = 1 ∨ arg1 = 2 then
    if uptrMapped (o.space s.outside) arg2 arg3 = false then (minusOne, s)
    else (arg3, { s with outside := o.kprintf s.outside arg2 arg3 })
  else if 3 ≤ arg1 ∧ arg1 < taskFdMax then transfer o o.vfsWrite minusOne s arg1 arg2 arg3
  else (minusOne, s)

def sysRead (s : Process σ Node) (arg1 arg2 arg3 : Nat) : Nat × Process σ Node :=
  if arg1 = 0 then
    if uptrMapped (o.space s.outside) arg2 arg3 = false then (minusOne, s)
    else (arg3, { s with outside := o.keyboard s.outside arg2 arg3 })
  else if 3 ≤ arg1 ∧ arg1 < taskFdMax then transfer o o.vfsRead 0 s arg1 arg2 arg3
  else (0, s)

/-- `for (i = 3; i < TASK_FD_MAX; i++)`; `n` descriptors from `i` on remain. -/
def freeFd (fdTable : Nat → Option Node) : Nat → Nat → Option Nat
  | _, 0 => none
  | i, n + 1 => if (fdTable i).isNone then some i else freeFd fdTable (i + 1) n

def sysOpen (s : Process σ Node) (arg1 arg2 : Nat) : Nat × Process σ Node :=
  match o.lookup s.outside arg1 arg2 with
  | (none, outside) => (minusOne, { s with outside := outside })
  | (some node, outside) =>
      match freeFd s.fdTable 3 (taskFdMax - 3) with
      | none => (minusOne, { s with outside := outside })
      | some i =>
          (i, { s with
            fdTable := Function.update s.fdTable i (some node), fdOffset := Function.update s.fdOffset i 0
            outside := outside })

/-- `fd >= 3 && fd < TASK_FD_MAX` and the entry in the table. -/
def fdNode (s : Process σ Node) (fd : Int) : Option Node :=
  if 3 ≤ fd ∧ fd < taskFdMax then s.fdTable fd.toNat else none

def sysClose (s : Process σ Node) (arg1 : Nat) : Nat × Process σ Node :=
  let fd := cInt arg1
  match fdNode s fd with
  | none => (minusOne, s)
  | some node =>
      (0, { s with
        fdTable := Function.update s.fdTable fd.toNat none, fdOffset := Function.update s.fdOffset fd.toNat 0
        outside := o.vfsClose s.outside node })

def sysSeek (s : Process σ Node) (arg1 arg2 : Nat) : Nat × Process σ Node :=
  let fd := cInt arg1
  match fdNode s fd with
  | none => (minusOne, s)
  | some _ => (arg2, { s with fdOffset := Function.update s.fdOffset fd.toNat arg2 })

/-- The length that is stored, unless the call answers `(uint64_t)-1`. -/
def sysFstat (s : Process σ Node) (arg1 arg2 : Nat) : Option Nat :=
  if uptrMapped (o.space s.outside) arg2 16 = false then none
  else (fdNode s (cInt arg1)).map fun node => (o.length s.outside node).toNat

def maxFd : Nat := 64
def rsysOCreat : Nat := 0x40
def oCreat : Nat := 0x200
def oAppend : Nat := 0x8
def mapAnon : Nat := 0x20

def openFile (s : Process σ Node) (name flags : Nat) : Int × Process σ Node :=
  let kflags := if flags &&& oCreat ≠ 0 then rsysOCreat else 0
  let (ret, s) := sysOpen o s name kflags
  let fd := cInt ret
  if fd < 0 then (-1, { s with errno := .enoent })
  else if fd < maxFd then
    let s := { s with sOffset := Function.update s.sOffset fd.toNat 0 }
    if flags &&& oAppend ≠ 0 then
      match sysFstat o s (toU64 fd) (o.stat s.outside) with
      | none => (fd, s)
      | some length =>
          let s := { s with sOffset := Function.update s.sOffset fd.toNat length }
          (fd, (sysSeek s (toU64 fd) length).2)
    else (fd, s)
  else (fd, s)

def close (s : Process σ Node) (fd : Int) : Int × Process σ Node :=
  if fd ≥ 1000 then
    let (r, outside) := o.sockClose s.outside fd
    (r, { s with outside := outside })
  else if fd < 3 then (0, s)
  else
    let (ret, s) := sysClose o s (toU64 fd)
    (cInt ret, s)

/-- `s_offset[fd] += (uint64_t)r`. -/
def Process.advance (s : Process σ Node) (fd r : Int) : Process σ Node :=
  { s with sOffset := Function.update s.sOffset fd.toNat ((s.sOffset fd.toNat + toU64 r) % 2 ^ 64) }

def read (s : Process σ Node) (fd : Int) (buf count : Nat) : Int × Process σ Node :=
  if fd = 0 then
    if count = 0 then (0, s)
    else
      let (ret, s) := sysRead o s 0 buf 1
      (if cInt ret < 0 then -1 else cInt ret, s)
  else
    let (ret, s) := sysRead o s (toU64 fd) buf count
    let r := cInt ret
    (r, if r > 0 ∧ fd < maxFd then s.advance fd r else s)

def write (s : Process σ Node) (fd : Int) (buf count : Nat) : Int × Process σ Node :=
  let (ret, s) := sysWrite o s (toU64 fd) buf count
  let r := cInt ret
  (r, if r > 0 ∧ fd ≥ 3 ∧ fd < maxFd then s.advance fd r else s)

/-- `SEEK_SET`, `SEEK_CUR` and `SEEK_END` are 0, 1 and 2. -/
def seekTarget (s : Process σ Node) (fd offset whence : Int) : Except Errno Nat :=
  if whence = 0 then .ok (toU64 offset)
  else if whence = 1 then .ok ((s.sOffset fd.toNat + toU64 offset) % 2 ^ 64)
  else if whence = 2 then
    match sysFstat o s (toU64 fd) (o.stat s.outside) with
    | none => .error .ebadf
    | some length => .ok ((length + toU64 offset) % 2 ^ 64)
  else .error .einval

def lseek (s : Process σ Node) (fd offset whence : Int) : Int × Process σ Node :=
  if fd < 3 ∨ fd ≥ maxFd then (-1, { s with errno := .ebadf })
  else
    match seekTarget o s fd offset whence with
    | .error e => (-1, { s with errno := e })
    | .ok target =>
        let (ret, s) := sysSeek s (toU64 fd) target
        if cInt ret < 0 then (-1, { s with errno := .ebadf })
        else (cLong target, { s with sOffset := Function.update s.sOffset fd.toNat target })

/-- `while (got < len)`. -/
def mmapLoop (fd : Int) (buf len got : Nat) (s : Process σ Node) : Nat × Process σ Node :=
  if got < len then
    match read o s fd (buf + got) (len - got) with
    | (r, s) => if r ≤ 0 then (got, s) else mmapLoop fd buf len (got + r.toNat) s
  else (got, s)
termination_by len - got

def mmap (s : Process σ Node) (len flags : Nat) (fd off : Int) : Option Nat × Process σ Node :=
  if len = 0 then (none, { s with errno := .einval })
  else
    match o.malloc s.outside len with
    | (none, outside) => (none, { s with errno := .enomem, outside := outside })
    | (some buf, outside) =>
        let s := { s with outside := outside }
        if flags &&& mapAnon ≠ 0 then (some buf, { s with outside := o.memset s.outside buf len })
        else
          let (here, s) := lseek o s fd 0 1
          let (moved, s) := lseek o s fd off 0
          if moved = -1 then (none, { s with errno := .ebadf, outside := o.free s.outside buf })
          else
            let (got, s) := mmapLoop o fd buf len 0 s
            let (_, s) := lseek o s fd (cLong (toU64 here)) 0
            (some buf, if got < len then { s with outside := o.memset s.outside (buf + got) (len - got) } else s)

end

end RexOs.User
