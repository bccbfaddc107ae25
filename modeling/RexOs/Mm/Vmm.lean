import RexOs.Library.Memory
import RexOs.Mm.Pmm

/-! The virtual memory manager: 4-level page tables (`kernel/mm/vmm.c`).

Physical memory is a memory of bytes, which the direct map shows whole. `pmm_alloc_frame`
takes one tick of the clock; `fails` says at which times it finds no frame although the
bitmap has one. TLB flushes and messages are left out, and a kernel panic is an error.
-/

set_option autoImplicit false

namespace RexOs.Mm

open RexOs.Library

def pagePresent : Nat := 1
def pageWritable : Nat := 2
def pageUser : Nat := 4
def pageHuge : Nat := 128

def addrMask4k : Nat := 0x000FFFFFFFFFF000
def addrMask2m : Nat := 0x000FFFFFFFE00000
def pageOff4k : Nat := 0xFFF
def pageOff2m : Nat := 0x1FFFFF

def pml4Index (v : Nat) : Fin 512 := Fin.ofNat 512 (v >>> 39)
def pdptIndex (v : Nat) : Fin 512 := Fin.ofNat 512 (v >>> 30)
def pdIndex (v : Nat) : Fin 512 := Fin.ofNat 512 (v >>> 21)
def ptIndex (v : Nat) : Fin 512 := Fin.ofNat 512 (v >>> 12)

inductive VmmPanic where
  | splitHuge
  | noKernelAddress
  | noPml4
  | hhdmMapFailed
  | kernelMapFailed
  deriving DecidableEq, Repr

structure Machine where
  pmm : Pmm
  mem : Mem
  clock : Nat

/-- `table[idx]`. -/
def entryAt (m : Mem) (table : Nat) (idx : Fin 512) : Nat := load m (table + 8 * idx) 8

def setEntry (m : Mem) (table : Nat) (idx : Fin 512) (e : Nat) : Mem := store m (table + 8 * idx) 8 e

section
variable (fails : Nat → Bool)

def allocFrame (s : Machine) : Nat × Machine :=
  if fails s.clock then (0, { s with clock := s.clock + 1 })
  else ((pmmAllocFrame s.pmm).1, { s with pmm := (pmmAllocFrame s.pmm).2, clock := s.clock + 1 })

def tableBehind (s : Machine) (parent : Nat) (idx : Fin 512) : Except VmmPanic (Option Nat × Machine) :=
  if entryAt s.mem parent idx &&& pageHuge ≠ 0 then .error .splitHuge
  else .ok (some (entryAt s.mem parent idx &&& addrMask4k), s)

def getOrCreateTable (s : Machine) (parent : Nat) (idx : Fin 512) (intermediateFlags : Nat) :
    Except VmmPanic (Option Nat × Machine) :=
  if entryAt s.mem parent idx &&& pagePresent = 0 then
    let (newPhys, s) := allocFrame fails s
    if newPhys = 0 then .ok (none, s)
    else
      let mem := fill s.mem newPhys pageSize 0
      tableBehind { s with mem := setEntry mem parent idx (newPhys ||| intermediateFlags) } parent idx
  else tableBehind s parent idx

/-- One `get_or_create_table` after the other, from `table` on; nothing when one fails. -/
def getOrCreateTables (intermediateFlags : Nat) : Machine → Nat → List (Fin 512) → Except VmmPanic (Option Nat × Machine)
  | s, table, [] => .ok (some table, s)
  | s, table, idx :: path =>
      match getOrCreateTable fails s table idx intermediateFlags with
      | .error e => .error e
      | .ok (none, s) => .ok (none, s)
      | .ok (some next, s) => getOrCreateTables intermediateFlags s next path

def vmmMapPagePml4 (s : Machine) (pml4Phys virt phys flags : Nat) : Except VmmPanic (Bool × Machine) :=
  match getOrCreateTables fails (pagePresent ||| pageWritable ||| pageUser) s pml4Phys
    [pml4Index virt, pdptIndex virt, pdIndex virt] with
  | .error e => .error e
  | .ok (none, s) => .ok (false, s)
  | .ok (some pt, s) =>
      .ok (true, { s with mem := setEntry s.mem pt (ptIndex virt) (phys &&& addrMask4k ||| flags) })

def vmmMapHuge2mb (s : Machine) (pml4Phys virt phys flags : Nat) : Except VmmPanic (Bool × Machine) :=
  match getOrCreateTables fails (pagePresent ||| pageWritable) s pml4Phys [pml4Index virt, pdptIndex virt] with
  | .error e => .error e
  | .ok (none, s) => .ok (false, s)
  | .ok (some pd, s) =>
      .ok (true, { s with mem := setEntry s.mem pd (pdIndex virt) (phys &&& addrMask2m ||| flags ||| pageHuge) })

def hugePageSize : Nat := 2 * 1024 * 1024

def hhdmTop : Nat := 4 * 1024 * 1024 * 1024

structure KernelAddress where
  physicalBase : Nat
  virtualBase : Nat
  deriving DecidableEq, Repr

/-- `for (p = 0; p < HHDM_TOP; p += 2 MB)`; `n` pages from `p` on remain. -/
def mapHhdm (pml4Phys hhdm : Nat) (s : Machine) (p : Nat) : Nat → Except VmmPanic Machine
  | 0 => .ok s
  | n + 1 =>
      match vmmMapHuge2mb fails s pml4Phys ((hhdm + p) % 2 ^ 64) p (pagePresent ||| pageWritable) with
      | .error e => .error e
      | .ok (false, _) => .error .hhdmMapFailed
      | .ok (true, s) => mapHhdm pml4Phys hhdm s (p + hugePageSize) n

/-- `for (i = 0; i < kpages; i++)`; `n` pages from `i` on remain. -/
def mapKernel (pml4Phys : Nat) (kernel : KernelAddress) (s : Machine) (i : Nat) : Nat → Except VmmPanic Machine
  | 0 => .ok s
  | n + 1 =>
      match vmmMapPagePml4 fails s pml4Phys ((kernel.virtualBase + i * pageSize) % 2 ^ 64)
        ((kernel.physicalBase + i * pageSize) % 2 ^ 64) (pagePresent ||| pageWritable) with
      | .error e => .error e
      | .ok (false, _) => .error .kernelMapFailed
      | .ok (true, s) => mapKernel pml4Phys kernel s (i + 1) n

def vmmInit (s : Machine) (response : Option KernelAddress) (kernelEnd hhdm : Nat) : Except VmmPanic (Nat × Machine) :=
  match response with
  | none => .error .noKernelAddress
  | some kernel =>
      let ksize := (2 ^ 64 + kernelEnd - kernel.virtualBase) % 2 ^ 64
      let (pml4Phys, s) := allocFrame fails s
      if pml4Phys = 0 then .error .noPml4
      else
        match mapHhdm fails pml4Phys hhdm { s with mem := fill s.mem pml4Phys pageSize 0 } 0 (hhdmTop / hugePageSize) with
        | .error e => .error e
        | .ok s =>
            let kpages := (ksize + pageSize - 1) % 2 ^ 64 / pageSize
            match mapKernel fails pml4Phys kernel s 0 kpages with
            | .error e => .error e
            | .ok s => .ok (pml4Phys, s)

end

def tableAt (m : Mem) (table : Nat) (idx : Fin 512) : Option Nat :=
  if entryAt m table idx &&& pagePresent = 0 then none else some (entryAt m table idx &&& addrMask4k)

def vmmTranslatePml4 (m : Mem) (pml4Phys virt : Nat) : Nat :=
  match (tableAt m pml4Phys (pml4Index virt)).bind fun pdpt => tableAt m pdpt (pdptIndex virt) with
  | none => 0
  | some pd =>
      let e := entryAt m pd (pdIndex virt)
      if e &&& pagePresent = 0 then 0
      else if e &&& pageHuge ≠ 0 then e &&& addrMask2m ||| virt &&& pageOff2m
      else
        let e := entryAt m (e &&& addrMask4k) (ptIndex virt)
        if e &&& pagePresent = 0 then 0 else e &&& addrMask4k ||| virt &&& pageOff4k

end RexOs.Mm
