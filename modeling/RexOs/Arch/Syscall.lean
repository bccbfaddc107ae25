import RexOs.Fs.Fat32
import RexOs.Library.CInt

/-! What system calls do with user pointers (`kernel/arch/x86_64/syscall.c`).

A call yields its result and the trace of what it does with user addresses: pages that a
check found mapped, a check that failed, and bytes that are read or written. The answers
of the drivers and of the file systems are parameters. Path names that are copied in first
are passed on as kernel data and leave no trace.
-/

set_option autoImplicit false

namespace RexOs.Arch

open RexOs.Library

def userTop : Nat := 0x00007fffffffffff

/-- `addr & ~0xFFF`. -/
def pageOf (addr : Nat) : Nat := addr &&& 0xFFFFFFFFFFFFF000

/-- `(uint64_t)-1`. -/
def minusOne : Nat := 0xFFFFFFFFFFFFFFFF

/-- The address space of the calling task: `vmm_translate_pml4(t->cr3, page)`, and the bytes. -/
structure UserSpace where
  translate : Nat → Nat
  byte : Nat → UInt8

inductive Event where
  /-- The pages from `first` to `last` were found mapped. -/
  | found (first last : Nat)
  /-- A pointer was turned down. -/
  | rejected
  /-- `count` bytes from `addr` on are read or written. -/
  | touch (addr count : Nat)
  deriving DecidableEq, Repr

abbrev Outcome := Nat × List Event

def uptrOk (ptr len : Nat) : Bool :=
  if ptr = 0 then false
  else if ptr > userTop then false
  else if len ≠ 0 ∧ ((ptr + len) % 2 ^ 64 < ptr ∨ (ptr + len) % 2 ^ 64 > userTop + 1) then false
  else true

def firstPage (ptr : Nat) : Nat := pageOf ptr

def lastPage (ptr len : Nat) : Nat := pageOf ((ptr + (if len ≠ 0 then len - 1 else 0)) % 2 ^ 64)

/-- `for (page = first; ; page += 0x1000)`; `n` pages from `page` on remain. -/
def pagesMapped (space : UserSpace) (page : Nat) : Nat → Bool
  | 0 => true
  | n + 1 => if space.translate page = 0 then false else pagesMapped space (page + 0x1000) n

def uptrMapped (space : UserSpace) (ptr len : Nat) : Bool :=
  uptrOk ptr len && pagesMapped space (firstPage ptr) ((lastPage ptr len - firstPage ptr) / 0x1000 + 1)

/-- `if (!uptr_mapped(ptr, len)) return -1;` and what comes after it. -/
def withMapped (space : UserSpace) (ptr len : Nat) (rest : Outcome) : Outcome :=
  if uptrMapped space ptr len then (rest.1, .found (firstPage ptr) (lastPage ptr len) :: rest.2)
  else (minusOne, [.rejected])

/-- The loop of `copy_user_string`; `n` rounds from `i` on remain. -/
def copyLoop (space : UserSpace) (uptr : Nat) :
    Nat → Nat → Nat → List UInt8 → Option (List UInt8) × List Event
  | 0, _, _, _ => (none, [.rejected])
  | n + 1, i, checkedPage, dst =>
      let addr := (uptr + i) % 2 ^ 64
      let page := pageOf addr
      if page ≠ checkedPage then
        if addr > userTop then (none, [.rejected])
        else if space.translate page = 0 then (none, [.rejected])
        else if space.byte addr = 0 then (some dst, [.found page page, .touch addr 1])
        else
          let (result, events) := copyLoop space uptr n (i + 1) page (dst ++ [space.byte addr])
          (result, .found page page :: .touch addr 1 :: events)
      else if space.byte addr = 0 then (some dst, [.touch addr 1])
      else
        let (result, events) := copyLoop space uptr n (i + 1) checkedPage (dst ++ [space.byte addr])
        (result, .touch addr 1 :: events)

def copyUserString (space : UserSpace) (uptr dstMax : Nat) : Option (List UInt8) × List Event :=
  if dstMax = 0 ∨ uptrOk uptr 1 = false then (none, [.rejected]) else copyLoop space uptr dstMax 0 1 []

/-- `if (copy_user_string(uptr, buf, size) < 0) return -1;` and what comes after it. -/
def withString (space : UserSpace) (uptr size : Nat) (rest : List UInt8 → Nat) : Outcome :=
  match copyUserString space uptr size with
  | (none, events) => (minusOne, events)
  | (some text, events) => (rest text, events)

/-- Bytes up to the NUL, with it; at most `n` of them. -/
def stringRead (byte : Nat → UInt8) (addr : Nat) : Nat → Nat
  | 0 => 0
  | n + 1 => if byte addr = 0 then 1 else stringRead byte (addr + 1) n + 1

/-- `kstrcmp(name, p)`: whether the strings are equal, and how many bytes of the second are read. -/
def kstrcmp (byte : Nat → UInt8) : List UInt8 → Nat → Bool × Nat
  | [], p => (byte p == 0, 1)
  | c :: name, p => if c = byte p then ((kstrcmp byte name (p + 1)).1, (kstrcmp byte name (p + 1)).2 + 1) else (false, 1)

def findName (byte : Nat → UInt8) (p : Nat) : List (List UInt8 × Nat) → Option Nat × Nat
  | [] => (none, 0)
  | (name, node) :: rest =>
      if (kstrcmp byte name p).1 then (some node, (kstrcmp byte name p).2)
      else ((findName byte p rest).1, max (kstrcmp byte name p).2 (findName byte p rest).2)

structure Vfs where
  fsRoot : Option Nat
  mounts : List (List UInt8 × Nat)
  entries : List (List UInt8 × Nat)
  finddir : Nat → List UInt8 → Option Nat

/-- `vfs_finddir(fs_root, p)` with a user pointer: the node and the bytes that are read. -/
def finddirRoot (vfs : Vfs) (byte : Nat → UInt8) (p : Nat) : Option Nat × Nat :=
  if vfs.fsRoot.isNone then (none, 0) else findName byte p (vfs.mounts ++ vfs.entries)

/-- `while (*path && *path != '/' && i < 127)`; the component and the place behind it. -/
def readComponent (byte : Nat → UInt8) : Nat → Nat → List UInt8 × Nat
  | 0, p => ([], p)
  | n + 1, p =>
      if byte p ≠ 0 ∧ byte p ≠ 47 then
        (byte p :: (readComponent byte n (p + 1)).1, (readComponent byte n (p + 1)).2)
      else ([], p)

/-- `while (*path == '/') path++`; at most `n` of them. -/
def skipSlashes (byte : Nat → UInt8) : Nat → Nat → Nat
  | 0, p => p
  | n + 1, p => if byte p = 47 then skipSlashes byte n (p + 1) else p

/-- `while (*path)` of `vfs_lookup`: the node, and the last place that is read. -/
def lookupLoop (vfs : Vfs) (byte : Nat → UInt8) : Nat → Nat → Nat → Option Nat × Nat
  | 0, current, p => (some current, p)
  | n + 1, current, p =>
      if byte p = 0 then (some current, p)
      else
        let (component, behind) := readComponent byte 127 p
        if component = [] then lookupLoop vfs byte n current (skipSlashes byte n behind)
        else
          match vfs.finddir current component with
          | none => (none, behind)
          | some next => lookupLoop vfs byte n next (skipSlashes byte n behind)

/-- `vfs_lookup(path)` with a user pointer: the node and the bytes that are read. -/
def vfsLookup (vfs : Vfs) (byte : Nat → UInt8) (path : Nat) : Option Nat × Nat :=
  match vfs.fsRoot with
  | none => (none, 0)
  | some root =>
      if byte path = 0 then (some root, 1)
      else if byte path = 47 ∧ byte (path + 1) = 0 then (some root, 2)
      else
        let start := if byte path = 47 then path + 1 else path
        let (flat, flatRead) := finddirRoot vfs byte start
        if flat.isSome then (flat, start - path + flatRead)
        else
          let (node, last) := lookupLoop vfs byte (2 ^ 64) root start
          (node, max (start - path + flatRead) (last - path + 1))

/-- `(path[0] == '/') ? vfs_lookup(path) : vfs_finddir(fs_root, path)`. -/
def statNode (vfs : Vfs) (byte : Nat → UInt8) (path : Nat) : Option Nat × Nat :=
  let (node, read) := if byte path = 47 then vfsLookup vfs byte path else finddirRoot vfs byte path
  (node, max 1 read)

def taskFdMax : Nat := 64
def direntSize : Nat := 132
def rtcTimeSize : Nat := 12

/-- The callbacks of a node, as far as they use the buffer: how many bytes of it are written
by `read` and read by `write`, from its start on. -/
structure FileNode where
  read : Nat → Nat → Nat
  write : Nat → List UInt8 → Nat
  readBound : ∀ offset size, read offset size ≤ size
  writeBound : ∀ offset buffer, write offset buffer ≤ buffer.length

def tarfsRead (length offset size : Nat) : Nat :=
  if offset ≥ length then 0 else if (offset + size) % 2 ^ 64 > length then length - offset else size

def tarfsNode (length : UInt64) : FileNode where
  read := tarfsRead length.toNat
  write _ _ := 0
  readBound offset size := by
    have := length.toNat_lt
    unfold tarfsRead
    split
    · exact Nat.zero_le _
    · split <;> omega
  writeBound _ _ := Nat.zero_le _

section
open RexOs.Fs
variable (dev : Device) (v : Volume)

theorem copyRange_le (offset size clusterOffset outPos : Nat) :
    (copyRange v offset size clusterOffset outPos).2 ≤ size - outPos := by
  unfold copyRange
  dsimp only
  generalize v.bytesPerCluster - (if outPos = 0 then offset - clusterOffset else 0) = copyLen
  split <;> omega

theorem readLoop_length {offset size fuel cluster clusterOffset : Nat} {out bytes : List UInt8} {fs fs' : State}
    (bound : out.length ≤ size) (run : readLoop dev v offset size fuel cluster clusterOffset out fs = .ok (bytes, fs')) :
    bytes.length ≤ size := by
  induction fuel generalizing cluster clusterOffset out fs with
  | zero => cases run
  | succ fuel ih =>
    rw [readLoop] at run
    split at run
    · split at run
      · cases run
        exact bound
      · apply ih _ run
        have part := copyRange_le v offset size clusterOffset out.length
        simp only [copyRange] at part
        rw [List.length_append, List.length_map, List.length_range]
        omega
    · cases run
      exact bound

theorem writeLoop_bound {start offset fuel outPos written : Nat} {buffer : List UInt8} {cursor : Cursor} {fs fs' : State}
    (bound : outPos ≤ buffer.length)
    (run : writeLoop dev v start offset buffer fuel cursor outPos fs = .ok (written, fs')) : written ≤ buffer.length := by
  induction fuel generalizing cursor outPos fs with
  | zero => cases run
  | succ fuel ih =>
    rw [writeLoop] at run
    split at run
    · split at run
      · cases run
        exact bound
      · split at run
        · cases run
          exact bound
        · apply ih _ run
          have part := copyRange_le v offset buffer.length cursor.clusterOffset outPos
          simp only [copyRange] at part
          omega
    · cases run
      exact bound

theorem fat32Read_length {fuel i offset size : Nat} {bytes : List UInt8} {fs fs' : State}
    (run : fat32Read dev v fuel fs i offset size = .ok (bytes, fs')) : bytes.length ≤ size := by
  unfold fat32Read at run
  split at run
  · cases run
    exact Nat.zero_le _
  · rename_i p _
    split at run
    · cases run
      exact Nat.zero_le _
    split at run
    · cases run
      exact Nat.zero_le _
    · rename_i inside
      have smaller : (if u64 (offset + size) > p.size then p.size - offset else size) ≤ size := by
        split <;> simp only [u64] at * <;> omega
      cases skipped : skipLoop dev v offset fuel p.startCluster 0 fs with
      | error e =>
        rw [skipped] at run
        cases run
      | ok r =>
        rw [skipped] at run
        obtain ⟨place, fs₁⟩ := r
        cases place with
        | none =>
          cases run
          exact Nat.zero_le _
        | some place => exact Nat.le_trans (readLoop_length dev v (Nat.zero_le _) run) smaller

theorem fat32Write_bound {fuel i offset written : Nat} {buffer : List UInt8} {fs fs' : State}
    (run : fat32Write dev v fuel fs i offset buffer = .ok (written, fs')) : written ≤ buffer.length := by
  unfold fat32Write at run
  split at run
  · cases run
    exact Nat.zero_le _
  split at run
  · cases run
    exact Nat.zero_le _
  split at run
  · cases run
    exact Nat.zero_le _
  split at run
  · cases run
    exact Nat.zero_le _
  · rename_i start fs₁ _
    cases sought : seekLoop dev v offset fuel ⟨start, 0, 0⟩ fs₁ with
    | error e =>
      rw [sought] at run
      cases run
    | ok r =>
      rw [sought] at run
      obtain ⟨place, fs₂⟩ := r
      cases place with
      | none =>
        cases run
        exact Nat.zero_le _
      | some cursor =>
        cases loop : writeLoop dev v start offset buffer fuel cursor 0 fs₂ with
        | error e =>
          simp only [bind, Except.bind, loop] at run
          cases run
        | ok r =>
          simp only [bind, Except.bind, loop] at run
          cases run
          exact writeLoop_bound dev v (Nat.zero_le _) loop

/-- A call that does not end uses the whole buffer at most. -/
def fat32Node (fuel : Nat) (fs : State) (i : Nat) : FileNode where
  read offset size :=
    match fat32Read dev v fuel fs i offset size with
    | .ok (bytes, _) => bytes.length
    | .error _ => size
  write offset buffer :=
    match fat32Write dev v fuel fs i offset buffer with
    | .ok (written, _) => written
    | .error _ => buffer.length
  readBound offset size := by
    split
    · rename_i run
      exact fat32Read_length dev v run
    · exact Nat.le_refl _
  writeBound offset buffer := by
    split
    · rename_i run
      exact fat32Write_bound dev v run
    · exact Nat.le_refl _

end

structure Kernel where
  fdTable : Nat → Option FileNode
  fdOffset : Nat → Nat
  /-- Bytes that the keyboard delivers while a call waits for them. -/
  typed : Nat
  /-- Whether `vfs_readdir` has an entry, for a descriptor and an offset. -/
  readdir : Nat → Nat → Bool
  fbVaddr : Nat
  blockAt : Nat → Bool
  pciDeviceAt : Nat → Bool
  /-- `tcp_socket_is_valid`, the state of the socket and its `rx_len`. -/
  socketIsValid : Nat → Bool
  established : Nat → Bool
  rxLen : Nat → Nat
  /-- What an empty socket answers: 0, or that it is closed. -/
  noData : Nat → Nat
  vfs : Vfs
  /-- The results of calls on a path that has been copied in, and of calls without pointers. -/
  pathResult : Nat → List UInt8 → Nat
  plainResult : Nat → Nat → Nat → Nat

section
variable (k : Kernel) (space : UserSpace)

/-- `kprintf("%.*s", (int)len, buf)`: a negative precision reads up to the NUL. -/
def printed (buf len : Nat) : Nat :=
  if len % 2 ^ 32 ≥ 2 ^ 31 then stringRead space.byte buf (2 ^ 64) else stringRead space.byte buf (len % 2 ^ 32)

def sysWrite (fd buf len : Nat) : Outcome :=
  if fd = 1 ∨ fd = 2 then withMapped space buf len (len, [.touch buf (printed space buf len)])
  else if 3 ≤ fd ∧ fd < taskFdMax then
    withMapped space buf len <|
      match k.fdTable fd with
      | none => (minusOne, [])
      | some node =>
          let written := node.write (k.fdOffset fd) ((List.range len).map fun i => space.byte (buf + i))
          (written, [.touch buf written])
  else (minusOne, [])

def sysRead (fd buf len : Nat) : Outcome :=
  if fd = 0 then withMapped space buf len (len, [.touch buf (min k.typed len)])
  else if 3 ≤ fd ∧ fd < taskFdMax then
    withMapped space buf len <|
      match k.fdTable fd with
      | none => (0, [])
      | some node => (node.read (k.fdOffset fd) len, [.touch buf (node.read (k.fdOffset fd) len)])
  else (0, [])

def sysGetFb (width height pitch : Nat) : Outcome :=
  withMapped space width 8 <| withMapped space height 8 <| withMapped space pitch 8
    (k.fbVaddr, [.touch width 8, .touch height 8, .touch pitch 8])

def sysGetdents (fd dir : Nat) : Outcome :=
  withMapped space dir direntSize <|
    if 3 ≤ fd ∧ fd < taskFdMax ∧ (k.fdTable fd).isSome ∧ k.readdir fd (k.fdOffset fd) then
      (1, [.touch dir direntSize])
    else (0, [])

def sysMouse (out : Nat) : Outcome :=
  withMapped space out 12 (0, [.touch out 4, .touch (out + 4) 4, .touch (out + 8) 4])

def sysBlockInfo (idx out : Nat) : Outcome :=
  withMapped space out 45 <|
    if k.blockAt idx then (0, [.touch out 32, .touch (out + 32) 8, .touch (out + 40) 4, .touch (out + 44) 1])
    else (minusOne, [])

def sysPciInfo (idx out : Nat) : Outcome :=
  withMapped space out 10 <|
    if k.pciDeviceAt idx then (0, [.touch out 6, .touch (out + 6) 2, .touch (out + 8) 2]) else (minusOne, [])

def sysNetSend (sock buf len : Nat) : Outcome :=
  if k.socketIsValid sock = false then (minusOne, [])
  else if len > 2 ^ 20 then (minusOne, [])
  else withMapped space buf len (len, [.touch buf (if k.established sock then len else 0)])

def sysNetRecv (sock buf len : Nat) : Outcome :=
  if k.socketIsValid sock = false then (minusOne, [])
  else
    withMapped space buf len <|
      if k.rxLen sock = 0 then (k.noData sock, [])
      else
        let copy := if k.rxLen sock > len % 2 ^ 32 then len % 2 ^ 32 else k.rxLen sock
        (copy, [.touch buf copy])

def sysTime (out : Nat) : Outcome := withMapped space out rtcTimeSize (0, [.touch out rtcTimeSize])

/-- `for (i = 0; i < len; i += 8)`; at most `n` rounds from `i` on remain. -/
def randomLoop (out len : Nat) : Nat → Nat → List Event
  | 0, _ => []
  | n + 1, i => if i < len then .touch (out + i) (min (len - i) 8) :: randomLoop out len n (i + 8) else []

def sysRandom (out len : Nat) : Outcome :=
  if len = 0 ∨ len > 256 then (minusOne, []) else withMapped space out len (len, randomLoop out len 32 0)

def statFields (out : Nat) : Outcome := (0, [.touch out 8, .touch (out + 8) 4, .touch (out + 12) 4])

def sysStat (path out : Nat) : Outcome :=
  withMapped space out 16 <|
    if uptrOk path 1 = false then (minusOne, [.rejected])
    else
      match statNode k.vfs space.byte path with
      | (none, read) => (minusOne, [.touch path read])
      | (some _, read) => ((statFields out).1, .touch path read :: (statFields out).2)

def sysFstat (fd out : Nat) : Outcome :=
  withMapped space out 16 <|
    if 3 ≤ fd % 2 ^ 32 ∧ fd % 2 ^ 32 < taskFdMax ∧ (k.fdTable (fd % 2 ^ 32)).isSome then statFields out
    else (minusOne, [])

def syscallHandler (nr arg1 arg2 arg3 : UInt64) : Outcome :=
  match nr.toNat with
  | 0 => sysWrite k space arg1.toNat arg2.toNat arg3.toNat
  | 3 => sysRead k space arg1.toNat arg2.toNat arg3.toNat
  | 4 => sysGetFb k space arg1.toNat arg2.toNat arg3.toNat
  | 5 => withString space arg1.toNat 128 (k.pathResult 5)
  | 6 => withString space arg1.toNat 128 (k.pathResult 6)
  | 7 => sysGetdents k space arg1.toNat arg2.toNat
  | 12 => sysMouse space arg1.toNat
  | 14 => sysBlockInfo k space arg1.toNat arg2.toNat
  | 16 => sysPciInfo k space arg1.toNat arg2.toNat
  | 17 => withString space arg1.toNat 128 (k.pathResult 17)
  | 18 => withString space arg1.toNat 128 (k.pathResult 18)
  | 21 => withString space arg1.toNat 254 (k.pathResult 21)
  | 22 => sysNetSend k space arg1.toNat arg2.toNat arg3.toNat
  | 23 => sysNetRecv k space arg1.toNat arg2.toNat arg3.toNat
  | 24 => sysTime space arg1.toNat
  | 26 => sysRandom space arg1.toNat arg2.toNat
  | 27 => sysStat k space arg1.toNat arg2.toNat
  | 28 => sysFstat k space arg1.toNat arg2.toNat
  | _ => (k.plainResult nr.toNat arg1.toNat arg2.toNat, [])

end

end RexOs.Arch
