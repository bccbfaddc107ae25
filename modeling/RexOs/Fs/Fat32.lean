import RexOs.Library.Memory

/-! The FAT32 driver (`kernel/fs/fat32.c`): the table, clusters and files.

The disk is a memory of bytes; block `lba` starts at `512 * lba`. Every device
operation and every heap allocation takes one tick, and `Device` says which of
them succeed. Buffers are memories of their own that start at 0. Loops that
follow chains on the disk take fuel and end in a `Fault` without it; so does a write
behind the end of an array.
-/

set_option autoImplicit false

namespace RexOs.Fs

open RexOs.Library

inductive Fault where
  | hang
  | overflow
  deriving DecidableEq, Repr

def sectorSize : Nat := 512
def clusterEndMark : Nat := 0x0FFFFFF8

def u32 (n : Nat) : Nat := n % 2 ^ 32
def u64 (n : Nat) : Nat := n % 2 ^ 64

/-- Which reads, writes and allocations succeed, by the time at which they are made. -/
structure Device where
  readOk : Nat → Bool
  writeOk : Nat → Bool
  allocOk : Nat → Bool

/-- The mounted volume (`g_fat`), which does not change after `fat32_init`. -/
structure Volume where
  fatStartLba : Nat
  clusterBeginLba : Nat
  sectorsPerCluster : Nat
  bytesPerCluster : Nat
  rootCluster : Nat
  fatSize : Nat
  deriving DecidableEq, Repr

structure Entry where
  isDir : Bool
  startCluster : Nat
  size : Nat
  direntSector : Nat
  direntOff : Nat
  deriving DecidableEq, Repr

/-- A `vfs_node_t` with its `fat32_priv_t`; children are indices of nodes. -/
structure Node extends Entry where
  name : List UInt8
  length : Nat
  children : List Nat
  childrenCap : Nat
  childrenLoaded : Bool
  deriving DecidableEq, Repr

structure State where
  disk : Mem
  nodes : List Node
  clock : Nat

def State.tick (fs : State) : State := { fs with clock := fs.clock + 1 }

def State.setNode (fs : State) (i : Nat) (f : Node → Node) : State := { fs with nodes := fs.nodes.modify i f }

section
variable (dev : Device) (v : Volume)

def readBlocks (fs : State) (lba _count : Nat) : Option Mem × State :=
  (if dev.readOk fs.clock then some (fun i => fs.disk (lba * sectorSize + i)) else none, fs.tick)

def writeBlocks (fs : State) (lba count : Nat) (buf : Mem) : Bool × State :=
  if dev.writeOk fs.clock then
    (true, { fs.tick with disk := paste fs.disk (lba * sectorSize) (count * sectorSize) buf })
  else (false, fs.tick)

/-- Whether `kmalloc` or `kzalloc` returns a buffer. -/
def heapAlloc (fs : State) : Bool × State := (dev.allocOk fs.clock, fs.tick)

def clusterToLba (cluster : Nat) : Nat :=
  u32 (v.clusterBeginLba + (cluster + 2 ^ 32 - 2) * v.sectorsPerCluster)

def fatSectorOf (cluster : Nat) : Nat := u32 (v.fatStartLba + u32 (cluster * 4) / sectorSize)

def fatNextCluster (fs : State) (cluster : Nat) : Nat × State :=
  match readBlocks dev fs (fatSectorOf v cluster) 1 with
  | (none, fs) => (0x0FFFFFFF, fs)
  | (some buf, fs) => (load buf (4 * (u32 (cluster * 4) % sectorSize / 4)) 4 &&& 0x0FFFFFFF, fs)

def setEntryLoop (cluster value : Nat) : Nat → Nat → State → State
  | 0, _, fs => fs
  | rounds + 1, fi, fs =>
      let sec := u32 (fatSectorOf v cluster + fi * v.fatSize)
      match readBlocks dev fs sec 1 with
      | (none, fs) => fs
      | (some wbuf, fs) =>
          let ent := u32 (cluster * 4) % sectorSize
          let e := load wbuf ent 4 &&& 0xF0000000 ||| value &&& 0x0FFFFFFF
          let (_, fs) := writeBlocks dev fs sec 1 (store wbuf ent 4 e)
          setEntryLoop cluster value rounds (fi + 1) fs

def fatSetEntry (fs : State) (cluster value : Nat) : State :=
  setEntryLoop dev v cluster value (if v.fatSize > 0 then 2 else 1) 0 fs

def entriesPerSec : Nat := sectorSize / 4

/-- The first free entry of a sector of the table from entry `j` on. -/
def freeEntryLoop (buf : Mem) (sec : Nat) : Nat → Nat → Option Nat
  | 0, _ => none
  | rounds + 1, j =>
      if load buf (4 * j) 4 &&& 0x0FFFFFFF = 0 ∧ 2 ≤ u32 (sec * entriesPerSec + j) then some j
      else freeEntryLoop buf sec rounds (j + 1)

/-- `entries[j] = (entries[j] & 0xF0000000u) | 0x0FFFFFFFFu`. -/
def markEntry (buf : Mem) (j : Nat) : Mem := store buf (4 * j) 4 (load buf (4 * j) 4 &&& 0xF0000000 ||| 0xFFFFFFFF)

def markSecond (fs : State) (sec j : Nat) : State :=
  if v.fatSize > 0 then
    match readBlocks dev fs (u32 (v.fatStartLba + v.fatSize + sec)) 1 with
    | (none, fs) => fs
    | (some buf, fs) => (writeBlocks dev fs (u32 (v.fatStartLba + v.fatSize + sec)) 1 (markEntry buf j)).2
  else fs

def allocLoop : Nat → Nat → State → Nat × State
  | 0, _, fs => (0, fs)
  | rounds + 1, sec, fs =>
      match readBlocks dev fs (u32 (v.fatStartLba + sec)) 1 with
      | (none, fs) => allocLoop rounds (sec + 1) fs
      | (some buf, fs) =>
          match freeEntryLoop buf sec entriesPerSec 0 with
          | none => allocLoop rounds (sec + 1) fs
          | some j =>
              let (_, fs) := writeBlocks dev fs (u32 (v.fatStartLba + sec)) 1 (markEntry buf j)
              (u32 (sec * entriesPerSec + j), markSecond dev v fs sec j)

def fatAllocCluster (fs : State) : Nat × State := allocLoop dev v v.fatSize 0 fs

def fatFreeChain : Nat → State → Nat → Except Fault State
  | 0, _, _ => .error .hang
  | fuel + 1, fs, cluster =>
      if 2 ≤ cluster ∧ cluster < clusterEndMark then
        let (next, fs) := fatNextCluster dev v fs cluster
        fatFreeChain fuel (fatSetEntry dev v fs cluster 0) next
      else .ok fs

def writeChunks (data : Mem) : Nat → Nat → Nat → Nat → State → Bool × State
  | 0, _, _, _, fs => (true, fs)
  | rounds + 1, lba, p, remaining, fs =>
      if remaining > 0 then
        let chunk := if remaining > 32 then 32 else remaining
        match writeBlocks dev fs lba chunk (fun i => data (p + i)) with
        | (false, fs) => (false, fs)
        | (true, fs) => writeChunks data rounds (u32 (lba + chunk)) (p + chunk * sectorSize) (remaining - chunk) fs
      else (true, fs)

def fatWriteCluster (fs : State) (cluster : Nat) (data : Mem) : Bool × State :=
  writeChunks dev data v.sectorsPerCluster (clusterToLba v cluster) 0 v.sectorsPerCluster fs

def readChunks : Nat → Nat → Nat → Nat → Mem → State → Option Mem × State
  | 0, _, _, _, buf, fs => (some buf, fs)
  | rounds + 1, lba, p, remaining, buf, fs =>
      if remaining > 0 then
        let chunk := if remaining > 32 then 32 else remaining
        match readBlocks dev fs lba chunk with
        | (none, fs) => (none, fs)
        | (some data, fs) =>
            readChunks rounds (u32 (lba + chunk)) (p + chunk * sectorSize) (remaining - chunk)
              (paste buf p (chunk * sectorSize) data) fs
      else (some buf, fs)

def readCluster (fs : State) (cluster : Nat) : Option Mem × State :=
  match heapAlloc dev fs with
  | (false, fs) => (none, fs)
  | (true, fs) =>
      readChunks dev v.sectorsPerCluster (clusterToLba v cluster) 0 v.sectorsPerCluster (fun _ => 0) fs

def zeroCluster (fs : State) (cluster : Nat) : State :=
  match heapAlloc dev fs with
  | (false, fs) => fs
  | (true, fs) => (fatWriteCluster dev v fs cluster fun _ => 0).2

def skipLoop (offset : Nat) : Nat → Nat → Nat → State → Except Fault (Option (Nat × Nat) × State)
  | 0, _, _, _ => .error .hang
  | fuel + 1, cluster, clusterOffset, fs =>
      if u64 (clusterOffset + v.bytesPerCluster) ≤ offset then
        let (cluster, fs) := fatNextCluster dev v fs cluster
        if cluster ≥ clusterEndMark ∨ cluster < 2 then .ok (none, fs)
        else skipLoop offset fuel cluster (u64 (clusterOffset + v.bytesPerCluster)) fs
      else .ok (some (cluster, clusterOffset), fs)

def copyRange (offset size clusterOffset outPos : Nat) : Nat × Nat :=
  let inClusterOffset := if outPos = 0 then offset - clusterOffset else 0
  let copyLen := v.bytesPerCluster - inClusterOffset
  (inClusterOffset, if copyLen > size - outPos then size - outPos else copyLen)

def readLoop (offset size : Nat) : Nat → Nat → Nat → List UInt8 → State → Except Fault (List UInt8 × State)
  | 0, _, _, _, _ => .error .hang
  | fuel + 1, cluster, clusterOffset, out, fs =>
      if out.length < size ∧ cluster < clusterEndMark ∧ 2 ≤ cluster then
        match readCluster dev v fs cluster with
        | (none, fs) => .ok (out, fs)
        | (some cbuf, fs) =>
            let (inClusterOffset, copyLen) := copyRange v offset size clusterOffset out.length
            let out := out ++ (List.range copyLen).map fun i => cbuf (inClusterOffset + i)
            let (next, fs) := fatNextCluster dev v fs cluster
            readLoop offset size fuel next (clusterOffset + v.bytesPerCluster) out fs
      else .ok (out, fs)

def fat32Read (fuel : Nat) (fs : State) (i offset size : Nat) : Except Fault (List UInt8 × State) :=
  match fs.nodes[i]? with
  | none => .ok ([], fs)
  | some p =>
      if p.isDir then .ok ([], fs)
      else if offset ≥ p.size then .ok ([], fs)
      else do
        let size := if u64 (offset + size) > p.size then p.size - offset else size
        match ← skipLoop dev v offset fuel p.startCluster 0 fs with
        | (none, fs) => .ok ([], fs)
        | (some (cluster, clusterOffset), fs) => readLoop dev v offset size fuel cluster clusterOffset [] fs

/-- `(uint32_t)-1`: the field stays as it is. -/
def keepField : Nat := 0xFFFFFFFF

def setSizeField (buf : Mem) (off size : Nat) : Mem := if size ≠ keepField then store buf (off + 28) 4 size else buf

def setClusterField (buf : Mem) (off cluster : Nat) : Mem :=
  if cluster ≠ keepField then store (store buf (off + 20) 2 (cluster >>> 16)) (off + 26) 2 (cluster &&& 0xFFFF)
  else buf

def fat32UpdateDirent (fs : State) (i newSize newCluster : Nat) : State :=
  match fs.nodes[i]? with
  | none => fs
  | some p =>
      if p.direntSector = 0 then fs
      else
        match readBlocks dev fs p.direntSector 1 with
        | (none, fs) => fs
        | (some buf, fs) =>
            (writeBlocks dev fs p.direntSector 1
              (setClusterField (setSizeField buf p.direntOff newSize) p.direntOff newCluster)).2

structure Cursor where
  cluster : Nat
  clusterOffset : Nat
  prevCluster : Nat
  deriving DecidableEq, Repr

/-- Go to the offset and extend the chain on the way; nothing when no cluster is free. -/
def seekLoop (offset : Nat) : Nat → Cursor → State → Except Fault (Option Cursor × State)
  | 0, _, _ => .error .hang
  | fuel + 1, at_, fs =>
      if u64 (at_.clusterOffset + v.bytesPerCluster) ≤ offset then
        let (next, fs) := fatNextCluster dev v fs at_.cluster
        if next ≥ clusterEndMark ∨ next < 2 then
          let (nc, fs) := fatAllocCluster dev v fs
          if nc = 0 then .ok (none, fs)
          else
            let fs := fatSetEntry dev v fs at_.cluster nc
            let fs := zeroCluster dev v fs nc
            seekLoop offset fuel ⟨nc, u64 (at_.clusterOffset + v.bytesPerCluster), at_.cluster⟩ fs
        else seekLoop offset fuel ⟨next, u64 (at_.clusterOffset + v.bytesPerCluster), at_.cluster⟩ fs
      else .ok (some at_, fs)

def writeTarget (start : Nat) (at_ : Cursor) (fs : State) : Option Nat × State :=
  if at_.cluster < 2 ∨ at_.cluster ≥ clusterEndMark then
    let (nc, fs) := fatAllocCluster dev v fs
    if nc = 0 then (none, fs)
    else
      let fs := fatSetEntry dev v fs (if at_.prevCluster ≠ 0 then at_.prevCluster else start) nc
      (some nc, zeroCluster dev v fs nc)
  else (some at_.cluster, fs)

def writeLoop (start offset : Nat) (buffer : List UInt8) : Nat → Cursor → Nat → State → Except Fault (Nat × State)
  | 0, _, _, _ => .error .hang
  | fuel + 1, at_, outPos, fs =>
      if outPos < buffer.length then
        match writeTarget dev v start at_ fs with
        | (none, fs) => .ok (outPos, fs)
        | (some cluster, fs) =>
            match readCluster dev v fs cluster with
            | (none, fs) => .ok (outPos, fs)
            | (some cbuf, fs) =>
                let (inClusterOffset, copyLen) := copyRange v offset buffer.length at_.clusterOffset outPos
                let cbuf := paste cbuf inClusterOffset copyLen fun i => buffer.getD (outPos + i) 0
                let (_, fs) := fatWriteCluster dev v fs cluster cbuf
                let (next, fs) := fatNextCluster dev v fs cluster
                writeLoop start offset buffer fuel ⟨next, at_.clusterOffset + v.bytesPerCluster, cluster⟩
                  (outPos + copyLen) fs
      else .ok (outPos, fs)

def firstCluster (fs : State) (i start : Nat) : Option Nat × State :=
  if start < 2 then
    let (nc, fs) := fatAllocCluster dev v fs
    if nc = 0 then (none, fs)
    else
      let fs := fs.setNode i fun p => { p with startCluster := nc }
      let fs := zeroCluster dev v fs nc
      (some nc, fat32UpdateDirent dev fs i keepField nc)
  else (some start, fs)

def recordSize (fs : State) (i size newEnd : Nat) : State :=
  if newEnd > size then
    let fs := fs.setNode i fun p => { p with size := u32 newEnd, length := newEnd }
    fat32UpdateDirent dev fs i (u32 newEnd) keepField
  else fs

def fat32Write (fuel : Nat) (fs : State) (i offset : Nat) (buffer : List UInt8) : Except Fault (Nat × State) :=
  match fs.nodes[i]? with
  | none => .ok (0, fs)
  | some p =>
      if p.isDir then .ok (0, fs)
      else if buffer.length = 0 then .ok (0, fs)
      else
        match firstCluster dev v fs i p.startCluster with
        | (none, fs) => .ok (0, fs)
        | (some start, fs) => do
            match ← seekLoop dev v offset fuel ⟨start, 0, 0⟩ fs with
            | (none, fs) => .ok (0, fs)
            | (some at_, fs) =>
                let (outPos, fs) ← writeLoop dev v start offset buffer fuel at_ 0 fs
                .ok (outPos, recordSize dev fs i p.size (offset + outPos))

end

section
variable {dev : Device} {v : Volume} {fs : State} {fuel i offset : Nat}

theorem node_or_other (fs : State) (i : Nat) (b : Bool) :
    (∃ p, fs.nodes[i]? = some p ∧ p.isDir = b) ∨ ∀ p, fs.nodes[i]? = some p → p.isDir = !b := by
  cases found : fs.nodes[i]? with
  | none =>
    right
    rintro p ⟨⟩
  | some p =>
    by_cases same : p.isDir = b
    · exact Or.inl ⟨p, rfl, same⟩
    · right
      rintro p ⟨rfl⟩
      exact Bool.eq_not.mpr same

theorem fat32Read_other (other : ∀ p, fs.nodes[i]? = some p → p.isDir = true) (size : Nat) :
    fat32Read dev v fuel fs i offset size = .ok ([], fs) := by
  rw [fat32Read]
  cases found : fs.nodes[i]? with
  | none => rfl
  | some p => exact if_pos (other p found)

theorem fat32Write_other (other : ∀ p, fs.nodes[i]? = some p → p.isDir = true) (buffer : List UInt8) :
    fat32Write dev v fuel fs i offset buffer = .ok (0, fs) := by
  rw [fat32Write]
  cases found : fs.nodes[i]? with
  | none => rfl
  | some p => exact if_pos (other p found)

end

end RexOs.Fs
