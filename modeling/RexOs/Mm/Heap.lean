import RexOs.Library.Memory

/-! The kernel heap: a first-fit allocator over a doubly linked list of blocks
(`kernel/mm/heap.c`).

A block is a 32-byte header in memory followed by its payload. The heap's state
is the memory itself and the two static variables. Walks over the list visit at
most as many blocks as fit in the heap; a longer walk is the fault `hang`.
-/

set_option autoImplicit false

namespace RexOs.Mm

open RexOs.Library

def kheapVirtBase : Nat := 0xffff900000000000
def kheapInitialSize : Nat := 1024 * 1024
def kheapAlign : Nat := 16

def blockMagicUsed : Nat := 0xC0FFEE01
def blockMagicFree : Nat := 0xC0FFEEFE

/-- `sizeof(block_t)`. -/
def headerSize : Nat := 32

/-- The fields of a `block_t`: size at +0, magic at +8, next at +16, prev at +24. -/
structure Header where
  size : Nat
  magic : Nat
  next : Nat
  prev : Nat
  deriving DecidableEq, Repr

def headerAt (m : Mem) (b : Nat) : Header :=
  ⟨load m b 8, load m (b + 8) 4, load m (b + 16) 8, load m (b + 24) 8⟩

def setSize (m : Mem) (b v : Nat) : Mem := store m b 8 v
def setMagic (m : Mem) (b v : Nat) : Mem := store m (b + 8) 4 v
def setNext (m : Mem) (b v : Nat) : Mem := store m (b + 16) 8 v
def setPrev (m : Mem) (b v : Nat) : Mem := store m (b + 24) 8 v

structure Heap where
  mem : Mem
  head : Nat
  totalBytes : Nat

inductive HeapFault where
  | corruption
  | doubleFree
  | hang
  deriving DecidableEq, Repr

/-- `(x + (a - 1)) & ~(a - 1)` for `a = KHEAP_ALIGN`, in 64-bit arithmetic. -/
def alignUp (x : Nat) : Nat := (x + 15) % 2 ^ 64 / 16 * 16

/-- Once the frames are mapped: one free block over the whole range. -/
def kheapInit (m : Mem) : Heap :=
  let m := setSize m kheapVirtBase (kheapInitialSize - headerSize)
  let m := setMagic m kheapVirtBase blockMagicFree
  let m := setNext m kheapVirtBase 0
  let m := setPrev m kheapVirtBase 0
  ⟨m, kheapVirtBase, kheapInitialSize⟩

def checkBlock (m : Mem) (b : Nat) : Except HeapFault Unit :=
  if (headerAt m b).magic ≠ blockMagicUsed ∧ (headerAt m b).magic ≠ blockMagicFree then
    .error .corruption
  else .ok ()

/-- The split that `kmalloc` and `krealloc` both contain: cut block `b` down to
`size` when a header and 16 bytes remain. -/
def splitBlock (m : Mem) (b size : Nat) : Mem :=
  let leftover := (headerAt m b).size - size
  if leftover ≥ headerSize + kheapAlign then
    let split := b + headerSize + size
    let next := (headerAt m b).next
    let m := setSize m split (leftover - headerSize)
    let m := setMagic m split blockMagicFree
    let m := setNext m split next
    let m := setPrev m split b
    let m := if next ≠ 0 then setPrev m next split else m
    let m := setNext m b split
    setSize m b size
  else m

/-- The first-fit walk from `b`; the pointer 0 is out of memory. -/
def kmallocLoop (m : Mem) (size b : Nat) : Nat → Except HeapFault (Nat × Mem)
  | 0 => .error .hang
  | fuel + 1 =>
      if b = 0 then .ok (0, m)
      else do
        checkBlock m b
        if (headerAt m b).magic = blockMagicFree ∧ (headerAt m b).size ≥ size then
          .ok (b + headerSize, setMagic (splitBlock m b size) b blockMagicUsed)
        else kmallocLoop m size (headerAt m b).next fuel

/-- A walk that is not cut short visits at most this many blocks. -/
def Heap.walk (h : Heap) : Nat := h.totalBytes / headerSize + 1

def kmalloc (h : Heap) (size : Nat) : Except HeapFault (Nat × Heap) :=
  if size = 0 ∨ h.head = 0 then .ok (0, h)
  else do
    let (p, m) ← kmallocLoop h.mem (alignUp size) h.head h.walk
    .ok (p, { h with mem := m })

def kzalloc (h : Heap) (size : Nat) : Except HeapFault (Nat × Heap) := do
  let (p, h) ← kmalloc h size
  if p = 0 then .ok (0, h) else .ok (p, { h with mem := fill h.mem p size 0 })

def kcalloc (h : Heap) (n size : Nat) : Except HeapFault (Nat × Heap) :=
  if n ≠ 0 ∧ size > (2 ^ 64 - 1) / n then .ok (0, h) else kzalloc h (n * size % 2 ^ 64)

def coalesceForward (m : Mem) (b : Nat) : Mem :=
  let next := (headerAt m b).next
  if next ≠ 0 ∧ (headerAt m next).magic = blockMagicFree then
    let m := setSize m b ((headerAt m b).size + headerSize + (headerAt m next).size)
    let m := setNext m b (headerAt m next).next
    if (headerAt m b).next ≠ 0 then setPrev m (headerAt m b).next b else m
  else m

def coalesceBackward (m : Mem) (b : Nat) : Mem :=
  let prev := (headerAt m b).prev
  if prev ≠ 0 ∧ (headerAt m prev).magic = blockMagicFree then
    let m := setSize m prev ((headerAt m prev).size + headerSize + (headerAt m b).size)
    let m := setNext m prev (headerAt m b).next
    if (headerAt m b).next ≠ 0 then setPrev m (headerAt m b).next prev else m
  else m

def kfree (h : Heap) (ptr : Nat) : Except HeapFault Heap :=
  if ptr = 0 then .ok h
  else do
    let b := ptr - headerSize
    checkBlock h.mem b
    if (headerAt h.mem b).magic = blockMagicFree then .error .doubleFree
    else
      let m := setMagic h.mem b blockMagicFree
      .ok { h with mem := coalesceBackward (coalesceForward m b) b }

def krealloc (h : Heap) (ptr newSize : Nat) : Except HeapFault (Nat × Heap) :=
  if ptr = 0 then kmalloc h newSize
  else if newSize = 0 then do
    let h ← kfree h ptr
    .ok (0, h)
  else do
    let b := ptr - headerSize
    checkBlock h.mem b
    let aligned := alignUp newSize
    if (headerAt h.mem b).size ≥ aligned then .ok (ptr, { h with mem := splitBlock h.mem b aligned })
    else
      let (np, h) ← kmalloc h newSize
      if np = 0 then .ok (0, h)
      else
        let h := { h with mem := copy h.mem np ptr (headerAt h.mem b).size }
        let h ← kfree h ptr
        .ok (np, h)

structure KheapStats where
  totalBytes : Nat
  usedBytes : Nat
  freeBytes : Nat
  blockCount : Nat
  freeBlockCount : Nat
  largestFree : Nat
  deriving DecidableEq, Repr

def statsLoop (m : Mem) (b : Nat) (out : KheapStats) : Nat → Except HeapFault KheapStats
  | 0 => .error .hang
  | fuel + 1 =>
      if b = 0 then .ok out
      else
        let hdr := headerAt m b
        let out := { out with blockCount := out.blockCount + 1 }
        let out :=
          if hdr.magic = blockMagicFree then
            { out with
              freeBlockCount := out.freeBlockCount + 1
              freeBytes := out.freeBytes + hdr.size
              largestFree := if hdr.size > out.largestFree then hdr.size else out.largestFree }
          else { out with usedBytes := out.usedBytes + hdr.size }
        statsLoop m hdr.next out fuel

def kheapGetStats (h : Heap) : Except HeapFault KheapStats :=
  statsLoop h.mem h.head ⟨h.totalBytes, 0, 0, 0, 0, 0⟩ h.walk

/-! `Seg m prev a blocks next` says that memory holds exactly these blocks from
address `a` on, with the links a doubly linked list has between two
outer neighbours `prev` and `next`. Operations are described on the lists.
-/

section
variable {m m' : Mem} {a b v x k : Nat}

theorem headerAt_congr (agree : AgreeOn m m' a headerSize) : headerAt m a = headerAt m' a := by
  unfold headerSize at agree
  simp only [headerAt]
  rw [load_congr (n := 8) fun y low high => agree y (by omega) (by omega),
    load_congr (a := a + 8) (n := 4) fun y low high => agree y (by omega) (by omega),
    load_congr (a := a + 16) (n := 8) fun y low high => agree y (by omega) (by omega),
    load_congr (a := a + 24) (n := 8) fun y low high => agree y (by omega) (by omega)]

theorem setSize_agree (apart : x + k ≤ b ∨ b + headerSize ≤ x) : AgreeOn (setSize m b v) m x k :=
  store_agree (by unfold headerSize at apart; omega)

theorem setMagic_agree (apart : x + k ≤ b ∨ b + headerSize ≤ x) : AgreeOn (setMagic m b v) m x k :=
  store_agree (by unfold headerSize at apart; omega)

theorem setNext_agree (apart : x + k ≤ b ∨ b + headerSize ≤ x) : AgreeOn (setNext m b v) m x k :=
  store_agree (by unfold headerSize at apart; omega)

theorem setPrev_agree (apart : x + k ≤ b ∨ b + headerSize ≤ x) : AgreeOn (setPrev m b v) m x k :=
  store_agree (by unfold headerSize at apart; omega)

@[simp] theorem headerAt_setSize (fits : v < 2 ^ 64) :
    headerAt (setSize m b v) b = { headerAt m b with size := v } := by
  simp only [headerAt, setSize, Header.mk.injEq]
  exact ⟨load_store (by omega), load_store_apart (by omega), load_store_apart (by omega),
    load_store_apart (by omega)⟩

@[simp] theorem headerAt_setMagic (fits : v < 2 ^ 32) :
    headerAt (setMagic m b v) b = { headerAt m b with magic := v } := by
  simp only [headerAt, setMagic, Header.mk.injEq]
  exact ⟨load_store_apart (by omega), load_store (by omega), load_store_apart (by omega),
    load_store_apart (by omega)⟩

@[simp] theorem headerAt_setNext (fits : v < 2 ^ 64) :
    headerAt (setNext m b v) b = { headerAt m b with next := v } := by
  simp only [headerAt, setNext, Header.mk.injEq]
  exact ⟨load_store_apart (by omega), load_store_apart (by omega), load_store (by omega),
    load_store_apart (by omega)⟩

@[simp] theorem headerAt_setPrev (fits : v < 2 ^ 64) :
    headerAt (setPrev m b v) b = { headerAt m b with prev := v } := by
  simp only [headerAt, setPrev, Header.mk.injEq]
  exact ⟨load_store_apart (by omega), load_store_apart (by omega), load_store_apart (by omega),
    load_store (by omega)⟩

theorem headerAt_setSize_apart (apart : a + headerSize ≤ b ∨ b + headerSize ≤ a) :
    headerAt (setSize m b v) a = headerAt m a := headerAt_congr (setSize_agree apart)

theorem headerAt_setMagic_apart (apart : a + headerSize ≤ b ∨ b + headerSize ≤ a) :
    headerAt (setMagic m b v) a = headerAt m a := headerAt_congr (setMagic_agree apart)

theorem headerAt_setNext_apart (apart : a + headerSize ≤ b ∨ b + headerSize ≤ a) :
    headerAt (setNext m b v) a = headerAt m a := headerAt_congr (setNext_agree apart)

theorem headerAt_setPrev_apart (apart : a + headerSize ≤ b ∨ b + headerSize ≤ a) :
    headerAt (setPrev m b v) a = headerAt m a := headerAt_congr (setPrev_agree apart)

end

structure Blk where
  size : Nat
  used : Bool
  deriving DecidableEq, Repr

def magicOf (used : Bool) : Nat := if used then blockMagicUsed else blockMagicFree

def extent : List Blk → Nat
  | [] => 0
  | blk :: rest => headerSize + blk.size + extent rest

/-- The address of the last block of a list that starts at `a`, else `prev`. -/
def lastAddr (prev a : Nat) : List Blk → Nat
  | [] => prev
  | blk :: rest => lastAddr a (a + headerSize + blk.size) rest

/-- The first block of `blocks` at `a`, or `next` if there is none. -/
def firstAddr (a next : Nat) (blocks : List Blk) : Nat := if blocks.isEmpty then next else a

def Seg (m : Mem) (prev a : Nat) : List Blk → Nat → Prop
  | [], _ => True
  | blk :: rest, next =>
      headerAt m a = ⟨blk.size, magicOf blk.used, firstAddr (a + headerSize + blk.size) next rest, prev⟩ ∧
      16 ∣ blk.size ∧ Seg m a (a + headerSize + blk.size) rest next

variable {m m' : Mem} {prev a next : Nat} {blk : Blk} {xs ys mid mid' : List Blk}

@[simp] theorem firstAddr_nil : firstAddr a next [] = next := rfl
@[simp] theorem firstAddr_cons : firstAddr a next (blk :: xs) = a := rfl

@[simp] theorem extent_append : extent (xs ++ ys) = extent xs + extent ys := by
  induction xs with
  | nil => simp [extent]
  | cons x xs ih => simp only [List.cons_append, extent, ih]; omega

theorem seg_append : Seg m prev a (xs ++ ys) next ↔
    Seg m prev a xs (firstAddr (a + extent xs) next ys) ∧
      Seg m (lastAddr prev a xs) (a + extent xs) ys next := by
  induction xs generalizing prev a with
  | nil => simp [Seg, extent, lastAddr]
  | cons x xs ih =>
    have shift : a + headerSize + x.size + extent xs = a + extent (x :: xs) := by
      simp only [extent]; omega
    simp only [List.cons_append, Seg, ih, lastAddr, shift, and_assoc]
    cases xs with
    | nil => simp [extent, Nat.add_assoc]
    | cons y xs => simp

theorem lastAddr_concat : lastAddr prev a (xs ++ [blk]) = a + extent xs := by
  induction xs generalizing prev a with
  | nil => simp [lastAddr, extent]
  | cons x xs ih =>
    simp only [List.cons_append, lastAddr, ih, extent]
    omega

theorem Seg.congr (seg : Seg m prev a xs next) (agree : AgreeOn m' m a (extent xs)) :
    Seg m' prev a xs next := by
  induction xs generalizing prev a with
  | nil => trivial
  | cons x xs ih =>
    obtain ⟨header, aligned, rest⟩ := seg
    simp only [extent] at agree
    refine ⟨?_, aligned, ih rest fun y low high => agree y (by omega) (by omega)⟩
    rw [headerAt_congr fun y low high => agree y low (by omega)]
    exact header

theorem Seg.new_prev (seg : Seg m prev a (blk :: xs) next) {prev' : Nat}
    (header : headerAt m' a = { headerAt m a with prev := prev' })
    (agree : AgreeOn m' m (a + headerSize) (blk.size + extent xs)) :
    Seg m' prev' a (blk :: xs) next := by
  obtain ⟨old, aligned, rest⟩ := seg
  refine ⟨by rw [header, old], aligned, rest.congr fun y low high => agree y (by omega) (by omega)⟩

theorem extent_aligned (seg : Seg m prev a xs next) : 16 ∣ extent xs := by
  induction xs generalizing prev a with
  | nil => exact Nat.dvd_zero 16
  | cons x xs ih =>
    obtain ⟨_, aligned, rest⟩ := seg
    have := ih rest
    simp only [extent, headerSize]
    omega

theorem length_le_extent (blocks : List Blk) : blocks.length * headerSize ≤ extent blocks := by
  induction blocks with
  | nil => simp [extent]
  | cons x xs ih =>
    simp only [extent, List.length_cons, headerSize] at *
    omega

def payloads (a : Nat) : List Blk → List Nat
  | [] => []
  | blk :: rest =>
      if blk.used then (a + headerSize) :: payloads (a + headerSize + blk.size) rest
      else payloads (a + headerSize + blk.size) rest

def spans (a : Nat) : List Blk → List (Nat × Nat)
  | [] => []
  | blk :: rest =>
      if blk.used then (a + headerSize, blk.size) :: spans (a + headerSize + blk.size) rest
      else spans (a + headerSize + blk.size) rest

theorem spans_append : spans a (xs ++ ys) = spans a xs ++ spans (a + extent xs) ys := by
  induction xs generalizing a with
  | nil => simp [spans, extent]
  | cons x xs ih =>
    have shift : a + headerSize + x.size + extent xs = a + extent (x :: xs) := by
      simp only [extent]; omega
    simp only [List.cons_append, spans, ih, shift]
    split <;> rfl

theorem payloads_eq_spans : payloads a xs = (spans a xs).map Prod.fst := by
  induction xs generalizing a with
  | nil => rfl
  | cons x xs ih =>
    rw [payloads, spans, ih]
    split <;> rfl

theorem payloads_append : payloads a (xs ++ ys) = payloads a xs ++ payloads (a + extent xs) ys := by
  rw [payloads_eq_spans, spans_append, List.map_append, ← payloads_eq_spans, ← payloads_eq_spans]

theorem mem_spans {p size : Nat} : (p, size) ∈ spans a xs ↔
    ∃ before after, xs = before ++ ⟨size, true⟩ :: after ∧ p = a + extent before + headerSize := by
  induction xs generalizing a with
  | nil => simp [spans]
  | cons x xs ih =>
    have later : (∃ before after, xs = before ++ ⟨size, true⟩ :: after ∧
        p = a + headerSize + x.size + extent before + headerSize) ↔
        ∃ before after, x :: xs = (x :: before) ++ ⟨size, true⟩ :: after ∧
          p = a + extent (x :: before) + headerSize := by
      simp only [List.cons_append, List.cons.injEq, true_and, extent]
      constructor <;> rintro ⟨before, after, shape, place⟩ <;>
        exact ⟨before, after, shape, by omega⟩
    have whole : (∃ before after, x :: xs = before ++ ⟨size, true⟩ :: after ∧
        p = a + extent before + headerSize) ↔
        (x = ⟨size, true⟩ ∧ p = a + headerSize) ∨
        ∃ before after, x :: xs = (x :: before) ++ ⟨size, true⟩ :: after ∧
          p = a + extent (x :: before) + headerSize := by
      constructor
      · rintro ⟨before, after, shape, place⟩
        cases before with
        | nil =>
          simp only [List.nil_append, List.cons.injEq] at shape
          exact Or.inl ⟨shape.1, by simpa [extent] using place⟩
        | cons y before =>
          simp only [List.cons_append, List.cons.injEq] at shape
          obtain ⟨rfl, shape⟩ := shape
          exact Or.inr ⟨before, after, by simp [shape], place⟩
      · rintro (⟨rfl, place⟩ | ⟨before, after, shape, place⟩)
        · exact ⟨[], xs, rfl, by simpa [extent] using place⟩
        · exact ⟨x :: before, after, shape, place⟩
    rw [whole, ← later, ← ih]
    obtain ⟨n, used⟩ := x
    simp only [spans, Blk.mk.injEq]
    cases used with
    | true => simp [and_comm, eq_comm]
    | false => simp

theorem mem_payloads {p : Nat} : p ∈ payloads a xs ↔
    ∃ before after size, xs = before ++ ⟨size, true⟩ :: after ∧ p = a + extent before + headerSize := by
  rw [payloads_eq_spans, List.mem_map]
  constructor
  · rintro ⟨⟨_, size⟩, span, rfl⟩
    obtain ⟨before, after, shape, place⟩ := mem_spans.mp span
    exact ⟨before, after, size, shape, place⟩
  · rintro ⟨before, after, size, shape, place⟩
    exact ⟨(p, size), mem_spans.mpr ⟨before, after, shape, place⟩, rfl⟩

end RexOs.Mm
