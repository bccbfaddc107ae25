import RexOs.Library.CInt

/-! The physical memory manager: a bitmap frame allocator (`kernel/mm/pmm.c`).

Frames are 4 KiB. The bitmap is addressed through its own base pointer, so its
contents are a function of the byte offset; bytes past the bitmap keep whatever
the memory held before. Kernel panics are `none`.
-/

set_option autoImplicit false

namespace RexOs.Mm

open RexOs.Library

def pageSize : Nat := 4096

/-- Memory map types of the boot protocol. Only `usable` is inspected. -/
inductive MemmapType where
  | usable
  | reserved
  | acpiReclaimable
  | acpiNvs
  | badMemory
  | bootloaderReclaimable
  | kernelAndModules
  | framebuffer
  | unknown (code : Nat)
  deriving DecidableEq, Repr

/-- One region of the 64-bit physical address space. -/
structure MemmapEntry where
  base : Nat
  length : Nat
  type : MemmapType
  deriving DecidableEq, Repr

/-- The static variables of the allocator. `bitmapPhys` is the physical address
behind the `s_bitmap` pointer. -/
structure Pmm where
  bitmap : Nat → UInt8
  bitmapPhys : Nat
  bitmapSize : Nat
  totalFrames : Nat
  usedFrames : Nat
  searchHint : Nat

namespace Pmm

def bmTest (s : Pmm) (i : Nat) : Bool := byteTest (s.bitmap (i >>> 3)) (i &&& 7)

def bmSet (s : Pmm) (i : Nat) : Pmm :=
  { s with bitmap := Function.update s.bitmap (i >>> 3) (byteSet (s.bitmap (i >>> 3)) (i &&& 7)) }

def bmClear (s : Pmm) (i : Nat) : Pmm :=
  { s with bitmap := Function.update s.bitmap (i >>> 3) (byteClear (s.bitmap (i >>> 3)) (i &&& 7)) }

def setBits (s : Pmm) : Nat := Nat.count (fun i => s.bmTest i = true) s.totalFrames

end Pmm

def MemmapEntry.end (e : MemmapEntry) : Nat := (e.base + e.length) % 2 ^ 64

/-- Pass 1, loop body: raise `top` to the end of a usable region. -/
def raiseTop (top : Nat) (e : MemmapEntry) : Nat :=
  if e.type = .usable ∧ e.end > top then e.end else top

def usableTop (map : List MemmapEntry) : Nat := map.foldl raiseTop 0

/-- Pass 2: the base of the first usable region that holds `size` bytes, else 0. -/
def bitmapPlace (map : List MemmapEntry) (size : Nat) : Nat :=
  match map with
  | [] => 0
  | e :: rest =>
      if e.type = .usable ∧ e.length ≥ size then e.base else bitmapPlace rest size

/-- Pass 4, inner loop: release `n` frames from `first` on. -/
def releaseFrames (s : Pmm) (first : Nat) : Nat → Pmm
  | 0 => s
  | n + 1 =>
      let s := releaseFrames s first n
      if s.bmTest (first + n) then
        { s.bmClear (first + n) with usedFrames := s.usedFrames - 1 }
      else s

def releaseUsable (s : Pmm) (map : List MemmapEntry) : Pmm :=
  map.foldl (fun s e =>
    if e.type = .usable then releaseFrames s (e.base / pageSize) (e.length / pageSize) else s) s

/-- Pass 5: take the frames of the bitmap itself back. -/
def reserveFrames (s : Pmm) (first : Nat) : Nat → Pmm
  | 0 => s
  | n + 1 =>
      let s := reserveFrames s first n
      if s.bmTest (first + n) then s
      else { s.bmSet (first + n) with usedFrames := s.usedFrames + 1 }

def bitmapBytes (totalFrames : Nat) : Nat := (totalFrames + 7) / 8

/-- `memory` is what the direct map shows from the chosen bitmap address on. -/
def pmmInit (map : List MemmapEntry) (memory : Nat → UInt8) : Option Pmm :=
  let totalFrames := usableTop map / pageSize
  let size := bitmapBytes totalFrames
  let bitmapPhys := bitmapPlace map size
  if bitmapPhys = 0 then none
  else
    let s : Pmm :=
      { bitmap := fun i => if i < size then 255 else memory i
        bitmapPhys := bitmapPhys
        bitmapSize := size
        totalFrames := totalFrames
        usedFrames := totalFrames
        searchHint := 0 }
    let s := releaseUsable s map
    some (reserveFrames s (bitmapPhys / pageSize) ((size + pageSize - 1) / pageSize))

/-- `for (i = lo; i < lo + n; i++) if (!bm_test(i))`, stopping at the first hit. -/
def firstClear (s : Pmm) (lo : Nat) : Nat → Option Nat
  | 0 => none
  | n + 1 => if s.bmTest lo then firstClear s (lo + 1) n else some lo

def takeFrame (s : Pmm) (i : Nat) : Pmm :=
  { s.bmSet i with usedFrames := s.usedFrames + 1, searchHint := i + 1 }

def pmmAllocFrame (s : Pmm) : Nat × Pmm :=
  match firstClear s s.searchHint (s.totalFrames - s.searchHint) with
  | some i => (i * pageSize, takeFrame s i)
  | none =>
      match firstClear s 0 s.searchHint with
      | some i => (i * pageSize, takeFrame s i)
      | none => (0, s)

/-- The linear search for `count` consecutive clear bits, with the loop's own
accumulators; `n` iterations remain. The result is the start of the run. -/
def findRun (s : Pmm) (count i runStart runLen : Nat) : Nat → Option Nat
  | 0 => none
  | n + 1 =>
      if s.bmTest i then findRun s count (i + 1) runStart 0 n
      else
        let runStart := if runLen = 0 then i else runStart
        if runLen + 1 = count then some runStart
        else findRun s count (i + 1) runStart (runLen + 1) n

def setRun (s : Pmm) (start : Nat) : Nat → Pmm
  | 0 => s
  | k + 1 => (setRun s start k).bmSet (start + k)

def pmmAllocFrames (s : Pmm) (count : Nat) : Nat × Pmm :=
  if count = 0 then (0, s)
  else if count = 1 then pmmAllocFrame s
  else
    match findRun s count 0 0 0 s.totalFrames with
    | some start =>
        (start * pageSize,
          { setRun s start count with
            usedFrames := s.usedFrames + count
            searchHint := start + count })
    | none => (0, s)

def pmmFreeFrame (s : Pmm) (phys : Nat) : Pmm :=
  let i := phys / pageSize
  if i ≥ s.totalFrames then s
  else if !s.bmTest i then s
  else
    { s.bmClear i with
      usedFrames := s.usedFrames - 1
      searchHint := if i < s.searchHint then i else s.searchHint }

def pmmFreeFrames (s : Pmm) (phys : Nat) : Nat → Pmm
  | 0 => s
  | k + 1 => pmmFreeFrame (pmmFreeFrames s phys k) (phys + k * pageSize)

end RexOs.Mm
