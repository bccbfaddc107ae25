import RexOs.Drivers.Nvme
import RexOs.Library.Chunks
import RexOs.Library.Memory
import RexOs.Library.CInt

/-! Transfers of the NVMe driver (`nvme_do_io` of `kernel/drivers/nvme/nvme.c`).

The controller sees physical pages, the processor copies through the linear map of physical memory,
and the buffer of the caller is a range of its own.
-/

set_option autoImplicit false

namespace RexOs.Drivers

open RexOs.Library

def nvmeIoWrite : Nat := 0x01

def nvmeIoRead : Nat := 0x02

abbrev maxSectorsPerCmd : Nat := 16

/-- `s_lba_sz`, from the LBA format of the namespace. -/
def lbaSize (lbaf : Nat) : Nat :=
  let lbads := lbaf >>> 16 &&& 0xFF
  if 9 ≤ lbads ∧ lbads ≤ 16 then 1 <<< lbads else 512

/-- `s_dma_phys`: the two frames that `pmm_alloc_frame` has returned. -/
structure DmaFrames where
  phys0 : Nat
  phys1 : Nat
  aligned0 : phys0 % 4096 = 0
  aligned1 : phys1 % 4096 = 0
  distinct : phys0 ≠ phys1

inductive Access where
  | phys (start length : Nat)
  | buffer (start length : Nat)
  deriving DecidableEq, Repr

structure IoState where
  phys : Mem
  disk : Mem
  buf : Mem
  accesses : List Access

def Sqe.startLba (cmd : Sqe) : Nat := cmd.dw10 + cmd.dw11 * 2 ^ 32

def Sqe.bytes (cmd : Sqe) (blockSize : Nat) : Nat := (cmd.dw12 % 2 ^ 16 + 1) * blockSize

/-- The address of a page of the data, where pages have 4096 bytes as `CC.MPS` says. PRP2 is the second page, or, when there are more than two, a list of all pages but
the first. -/
def Sqe.page (cmd : Sqe) (phys : Mem) (bytes i : Nat) : Nat :=
  if i = 0 then cmd.prp1 else if bytes ≤ 8192 then cmd.prp2 else load phys (cmd.prp2 + 8 * (i - 1)) 8

def pageBytes (bytes i : Nat) : Nat := min 4096 (bytes - 4096 * i)

def pageCount (bytes : Nat) : Nat := (bytes + 4095) / 4096

def dmaWrite (cmd : Sqe) (list : Mem) (bytes : Nat) (block : Mem) : Nat → Mem → Mem
  | 0, phys => phys
  | i + 1, phys => paste (dmaWrite cmd list bytes block i phys) (cmd.page list bytes i) (pageBytes bytes i) fun k => block (4096 * i + k)

def dmaRead (cmd : Sqe) (phys : Mem) (bytes : Nat) : Mem := fun k => phys (cmd.page phys bytes (k / 4096) + k % 4096)

def dmaAccesses (cmd : Sqe) (phys : Mem) (bytes : Nat) : List Access :=
  (if bytes ≤ 8192 then [] else [.phys cmd.prp2 (8 * (pageCount bytes - 1))]) ++
    (List.range (pageCount bytes)).map fun i => .phys (cmd.page phys bytes i) (pageBytes bytes i)

def execute (blockSize : Nat) (cmd : Sqe) (s : IoState) : IoState :=
  let bytes := cmd.bytes blockSize
  let start := cmd.startLba * blockSize
  let accesses := s.accesses ++ dmaAccesses cmd s.phys bytes
  if cmd.dw0 = nvmeIoWrite then { s with disk := paste s.disk start bytes (dmaRead cmd s.phys bytes), accesses }
  else { s with phys := dmaWrite cmd s.phys bytes (fun k => s.disk (start + k)) (pageCount bytes) s.phys, accesses }

def ioCommand (dma : DmaFrames) (lba done chunk bytes : Nat) (isWrite : Bool) : Sqe where
  dw0 := if isWrite then nvmeIoWrite else nvmeIoRead
  nsid := 1
  rsvd := 0
  mptr := 0
  prp1 := dma.phys0
  prp2 := if bytes > 4096 then dma.phys1 else 0
  dw10 := (lba + done) % 2 ^ 32
  dw11 := (lba + done) / 2 ^ 32 % 2 ^ 32
  dw12 := chunk - 1
  dw13 := 0
  dw14 := 0
  dw15 := 0

/-- `kmemcpy(s_dma_buf, p + done * s_lba_sz, bytes)`. -/
def copyToDma (dma : DmaFrames) (offset bytes : Nat) (s : IoState) : IoState :=
  { s with
    phys := paste s.phys dma.phys0 bytes fun i => s.buf (offset + i)
    accesses := s.accesses ++ [.buffer offset bytes, .phys dma.phys0 bytes] }

/-- `kmemcpy(p + done * s_lba_sz, s_dma_buf, bytes)`. -/
def copyFromDma (dma : DmaFrames) (offset bytes : Nat) (s : IoState) : IoState :=
  { s with
    buf := paste s.buf offset bytes fun i => s.phys (dma.phys0 + i)
    accesses := s.accesses ++ [.phys dma.phys0 bytes, .buffer offset bytes] }

/-- One round. `fails` tells for which first sector the command fails; it has no effect then. -/
def ioRound (dma : DmaFrames) (lbaSz : Nat) (fails : Nat → Bool) (lba : Nat) (isWrite : Bool) (done chunk : Nat) (s : IoState) :
    Nat × IoState :=
  let bytes := chunk * lbaSz % 2 ^ 32
  let offset := done * lbaSz % 2 ^ 32
  let s := if isWrite then copyToDma dma offset bytes s else s
  let cmd := ioCommand dma lba done chunk bytes isWrite
  if fails done then (0, s)
  else
    let s := execute lbaSz cmd s
    (chunk, if isWrite then s else copyFromDma dma offset bytes s)

/-- The sectors that are done, which come back as an `int`, and the last state. -/
def nvmeDoIo (dma : DmaFrames) (lbaSz : Nat) (fails : Nat → Bool) (lba count : Nat) (isWrite : Bool) (s : IoState) : Nat × IoState :=
  chunked maxSectorsPerCmd count (ioRound dma lbaSz fails lba isWrite) s

/-! The processor copies through one range, and the controller uses two pages. These are the same
bytes if they fit into one page, or if the second frame follows the first and they fit into both.
-/

/-- The range from the first frame on is within the frames, and is what the controller sees. -/
def DmaFits (dma : DmaFrames) (bytes : Nat) : Prop := bytes ≤ 4096 ∨ bytes ≤ 8192 ∧ dma.phys1 = dma.phys0 + 4096

def DmaFrames.Holds (dma : DmaFrames) (x : Nat) : Prop :=
  dma.phys0 ≤ x ∧ x < dma.phys0 + 4096 ∨ dma.phys1 ≤ x ∧ x < dma.phys1 + 4096

/-- A range within the two frames, or within a buffer of `size` bytes. -/
def Access.Inside (dma : DmaFrames) (size : Nat) : Access → Prop
  | .phys start length => ∀ x, start ≤ x → x < start + length → dma.Holds x
  | .buffer start length => start + length ≤ size

/-- What is expected of requests of `count` sectors from `lba` on. -/
structure MovesRight (dma : DmaFrames) (lbaSz lba count : Nat) : Prop where
  read : ∀ fails s, wrapInt (nvmeDoIo dma lbaSz fails lba count false s).1 = wrapInt count →
    ∀ i, i < count * lbaSz → (nvmeDoIo dma lbaSz fails lba count false s).2.buf i = s.disk (lba * lbaSz + i)
  write : ∀ fails s, wrapInt (nvmeDoIo dma lbaSz fails lba count true s).1 = wrapInt count →
    ∀ i, i < count * lbaSz → (nvmeDoIo dma lbaSz fails lba count true s).2.disk (lba * lbaSz + i) = s.buf i
  inside : ∀ fails isWrite s, s.accesses = [] → ∀ a ∈ (nvmeDoIo dma lbaSz fails lba count isWrite s).2.accesses, a.Inside dma (count * lbaSz)

section
variable {lbaf count done lbaSz : Nat}

theorem lbaSize_pow (lbaf : Nat) : ∃ k, 9 ≤ k ∧ k ≤ 16 ∧ lbaSize lbaf = 2 ^ k := by
  unfold lbaSize
  dsimp only
  split
  · rename_i accepted
    exact ⟨_, accepted.1, accepted.2, Nat.one_shiftLeft _⟩
  · exact ⟨9, Nat.le_refl 9, by omega, rfl⟩

theorem lbaSize_bounds (lbaf : Nat) : 512 ≤ lbaSize lbaf ∧ lbaSize lbaf ≤ 2 ^ 16 := by
  obtain ⟨k, low, high, size⟩ := lbaSize_pow lbaf
  have least : 2 ^ 9 ≤ 2 ^ k := Nat.pow_le_pow_right (by decide) low
  have most : 2 ^ k ≤ 2 ^ 16 := Nat.pow_le_pow_right (by decide) high
  rw [size]
  exact ⟨least, most⟩

theorem lbaSize_divides (lbaf : Nat) : 16 * lbaSize lbaf ∣ 2 ^ 32 := by
  obtain ⟨k, _, high, size⟩ := lbaSize_pow lbaf
  have sixteen : 16 * 2 ^ k = 2 ^ (4 + k) := (Nat.pow_add 2 4 k).symm
  rw [size, sixteen]
  exact Nat.pow_dvd_pow 2 (by omega)

theorem chunk_bytes {chunk : Nat} (few : chunk ≤ 16) (large : lbaSz ≤ 2 ^ 16) :
    chunk * lbaSz % 2 ^ 32 = chunk * lbaSz := by
  have size := Nat.mul_le_mul few large
  exact Nat.mod_eq_of_lt (by omega)

end

section
variable {dma : DmaFrames} {lbaSz lba done chunk bytes : Nat} {isWrite : Bool} {s : IoState} {fails : Nat → Bool}

theorem ioCommand_bytes (some_ : 1 ≤ chunk) (few : chunk ≤ 16) (blockSize : Nat) :
    (ioCommand dma lba done chunk bytes isWrite).bytes blockSize = chunk * blockSize := by
  have whole : (chunk - 1) % 2 ^ 16 + 1 = chunk := by omega
  show ((chunk - 1) % 2 ^ 16 + 1) * blockSize = chunk * blockSize
  rw [whole]

theorem ioCommand_start (fits : lba + done < 2 ^ 64) : (ioCommand dma lba done chunk bytes isWrite).startLba = lba + done := by
  show (lba + done) % 2 ^ 32 + (lba + done) / 2 ^ 32 % 2 ^ 32 * 2 ^ 32 = lba + done
  omega

theorem ioCommand_page (fits : DmaFits dma bytes) (phys : Mem) {i : Nat} (small : i * 4096 < bytes) :
    (ioCommand dma lba done chunk bytes isWrite).page phys bytes i = dma.phys0 + i * 4096 := by
  unfold Sqe.page
  split
  · rename_i first
    rw [first, Nat.zero_mul]
    rfl
  · rename_i later
    unfold DmaFits at fits
    have two : bytes ≤ 8192 := by omega
    have one : i = 1 := by omega
    rw [if_pos two, one, Nat.one_mul]
    show (if bytes > 4096 then dma.phys1 else 0) = _
    rw [if_pos (by omega)]
    omega

theorem dmaRead_eq (fits : DmaFits dma bytes) (phys : Mem) {k : Nat} (small : k < bytes) :
    dmaRead (ioCommand dma lba done chunk bytes isWrite) phys bytes k = phys (dma.phys0 + k) := by
  have whole := Nat.div_add_mod' k 4096
  unfold dmaRead
  rw [ioCommand_page fits phys (by omega), Nat.add_assoc, whole]

theorem pageBytes_next {n : Nat} (before : n * 4096 < bytes) : min bytes ((n + 1) * 4096) = n * 4096 + pageBytes bytes n := by
  unfold pageBytes
  omega

theorem dmaWrite_eq (fits : DmaFits dma bytes) (list block phys : Mem) {n : Nat} (pages : n ≤ pageCount bytes) :
    dmaWrite (ioCommand dma lba done chunk bytes isWrite) list bytes block n phys =
      paste phys dma.phys0 (min bytes (n * 4096)) block := by
  induction n with
  | zero => rw [Nat.zero_mul, Nat.min_zero, paste_zero, dmaWrite]
  | succ n ih =>
    unfold pageCount at pages
    have before : n * 4096 < bytes := by omega
    have filled : min bytes (n * 4096) = n * 4096 := by omega
    have all := pageBytes_next before
    have fewer : n ≤ pageCount bytes := by
      unfold pageCount
      omega
    have step := paste_append phys dma.phys0 (n * 4096) (pageBytes bytes n) block
    rw [← filled, ← ih fewer, filled] at step
    unfold dmaWrite
    rw [ioCommand_page fits list before, all, ← step]
    simp only [Nat.mul_comm 4096 n]

theorem dmaWrite_all (fits : DmaFits dma bytes) (list block phys : Mem) :
    dmaWrite (ioCommand dma lba done chunk bytes isWrite) list bytes block (pageCount bytes) phys = paste phys dma.phys0 bytes block := by
  have all : min bytes (pageCount bytes * 4096) = bytes := by
    clear fits
    unfold pageCount
    omega
  rw [dmaWrite_eq fits list block phys (Nat.le_refl _), all]

theorem holds_of_fits (fits : DmaFits dma bytes) {x : Nat} (low : dma.phys0 ≤ x) (high : x < dma.phys0 + bytes) : dma.Holds x := by
  unfold DmaFits at fits
  unfold DmaFrames.Holds
  omega

theorem dmaAccesses_inside (fits : DmaFits dma bytes) (phys : Mem) (size : Nat) :
    ∀ a ∈ dmaAccesses (ioCommand dma lba done chunk bytes isWrite) phys bytes, a.Inside dma size := by
  have two : bytes ≤ 8192 := by
    unfold DmaFits at fits
    omega
  intro a member
  rw [dmaAccesses, if_pos two, List.nil_append, List.mem_map] at member
  obtain ⟨i, page, rfl⟩ := member
  have page := List.mem_range.mp page
  unfold pageCount at page
  intro x low high
  rw [ioCommand_page fits phys (by omega)] at low high
  unfold pageBytes at high
  exact holds_of_fits fits (by omega) (by omega)

theorem execute_read (some_ : 1 ≤ chunk) (few : chunk ≤ 16) (fits : DmaFits dma (chunk * lbaSz)) (reach : lba + done < 2 ^ 64) :
    execute lbaSz (ioCommand dma lba done chunk (chunk * lbaSz) false) s =
      { s with
        phys := paste s.phys dma.phys0 (chunk * lbaSz) fun k => s.disk ((lba + done) * lbaSz + k)
        accesses := s.accesses ++ dmaAccesses (ioCommand dma lba done chunk (chunk * lbaSz) false) s.phys (chunk * lbaSz) } := by
  unfold execute
  have read : ¬ (ioCommand dma lba done chunk (chunk * lbaSz) false).dw0 = nvmeIoWrite := by
    show ¬ nvmeIoRead = nvmeIoWrite
    decide
  rw [ioCommand_bytes some_ few, ioCommand_start reach]
  dsimp only
  rw [if_neg read, dmaWrite_all fits]

theorem execute_write (some_ : 1 ≤ chunk) (few : chunk ≤ 16) (reach : lba + done < 2 ^ 64) :
    execute lbaSz (ioCommand dma lba done chunk (chunk * lbaSz) true) s =
      { s with
        disk := paste s.disk ((lba + done) * lbaSz) (chunk * lbaSz)
          (dmaRead (ioCommand dma lba done chunk (chunk * lbaSz) true) s.phys (chunk * lbaSz))
        accesses := s.accesses ++ dmaAccesses (ioCommand dma lba done chunk (chunk * lbaSz) true) s.phys (chunk * lbaSz) } := by
  unfold execute
  have write : (ioCommand dma lba done chunk (chunk * lbaSz) true).dw0 = nvmeIoWrite := rfl
  rw [ioCommand_bytes some_ few, ioCommand_start reach]
  dsimp only
  rw [if_pos write]

theorem execute_buf (blockSize : Nat) (cmd : Sqe) (s : IoState) : (execute blockSize cmd s).buf = s.buf := by
  unfold execute
  dsimp only
  split <;> rfl

end

theorem inside_append {dma : DmaFrames} {size : Nat} {l l' : List Access} (first : ∀ a ∈ l, a.Inside dma size)
    (second : ∀ a ∈ l', a.Inside dma size) : ∀ a ∈ l ++ l', a.Inside dma size := by
  intro a member
  rcases List.mem_append.mp member with here | there
  · exact first a here
  · exact second a there

section
variable {dma : DmaFrames} {lbaSz lba count done chunk : Nat} {s s₀ : IoState} {fails : Nat → Bool}

structure ReadInv (dma : DmaFrames) (lbaSz lba count : Nat) (s₀ : IoState) (done : Nat) (s : IoState) : Prop where
  disk : s.disk = s₀.disk
  data : ∀ i, i < done * lbaSz → s.buf i = s₀.disk (lba * lbaSz + i)
  inside : s₀.accesses = [] → ∀ a ∈ s.accesses, a.Inside dma (count * lbaSz)

structure WriteInv (dma : DmaFrames) (lbaSz lba count : Nat) (s₀ : IoState) (done : Nat) (s : IoState) : Prop where
  buf : s.buf = s₀.buf
  data : ∀ i, i < done * lbaSz → s.disk (lba * lbaSz + i) = s₀.buf i
  inside : s₀.accesses = [] → ∀ a ∈ s.accesses, a.Inside dma (count * lbaSz)

theorem copy_inside (fits : DmaFits dma (chunk * lbaSz)) (within : done + chunk ≤ count) :
    (Access.phys dma.phys0 (chunk * lbaSz)).Inside dma (count * lbaSz) ∧
      (Access.buffer (done * lbaSz) (chunk * lbaSz)).Inside dma (count * lbaSz) := by
  refine ⟨fun x low high => holds_of_fits fits low high, ?_⟩
  show done * lbaSz + chunk * lbaSz ≤ count * lbaSz
  rw [← Nat.add_mul]
  exact Nat.mul_le_mul_right _ within

theorem last_bytes {i : Nat} (before : done * lbaSz ≤ i) : lba * lbaSz + i = (lba + done) * lbaSz + (i - done * lbaSz) := by
  rw [Nat.add_mul]
  omega

theorem ReadInv.round (inv : ReadInv dma lbaSz lba count s₀ done s) (some_ : 1 ≤ chunk) (few : chunk ≤ 16) (large : lbaSz ≤ 2 ^ 16)
    (within : done + chunk ≤ count) (fits : DmaFits dma (chunk * lbaSz)) (reach : lba + done < 2 ^ 64)
    (small : done * lbaSz < 2 ^ 32) :
    (ioRound dma lbaSz fails lba false done chunk s).1 ≤ chunk ∧ ReadInv dma lbaSz lba count s₀
      (done + (ioRound dma lbaSz fails lba false done chunk s).1) (ioRound dma lbaSz fails lba false done chunk s).2 := by
  unfold ioRound
  rw [chunk_bytes few large, Nat.mod_eq_of_lt small]
  simp only [Bool.false_eq_true, if_false]
  cases fails done with
  | true => exact ⟨Nat.zero_le _, inv⟩
  | false =>
    simp only [Bool.false_eq_true, if_false]
    refine ⟨Nat.le_refl _, ?_⟩
    rw [execute_read some_ few fits reach]
    obtain ⟨frames, buffer⟩ := copy_inside fits within
    refine ⟨inv.disk, fun i inside => ?_, fun fresh => ?_⟩
    · rw [Nat.add_mul] at inside
      unfold copyFromDma
      dsimp only
      rcases Nat.lt_or_ge i (done * lbaSz) with old | new
      · rw [paste_outside _ (Or.inl old)]
        exact inv.data i old
      · rw [paste_inside _ new inside, paste_inside _ (by omega) (by omega), Nat.add_sub_cancel_left, inv.disk, last_bytes new]
    · refine inside_append (inside_append (inv.inside fresh) (dmaAccesses_inside fits _ _)) ?_
      exact List.forall_mem_cons.mpr ⟨frames, List.forall_mem_singleton.mpr buffer⟩

theorem WriteInv.round (inv : WriteInv dma lbaSz lba count s₀ done s) (some_ : 1 ≤ chunk) (few : chunk ≤ 16) (large : lbaSz ≤ 2 ^ 16)
    (within : done + chunk ≤ count) (fits : DmaFits dma (chunk * lbaSz)) (reach : lba + done < 2 ^ 64)
    (small : done * lbaSz < 2 ^ 32) :
    (ioRound dma lbaSz fails lba true done chunk s).1 ≤ chunk ∧ WriteInv dma lbaSz lba count s₀
      (done + (ioRound dma lbaSz fails lba true done chunk s).1) (ioRound dma lbaSz fails lba true done chunk s).2 := by
  unfold ioRound
  rw [chunk_bytes few large, Nat.mod_eq_of_lt small]
  simp only [if_true]
  obtain ⟨frames, buffer⟩ := copy_inside fits within
  have copied : s₀.accesses = [] → ∀ a ∈ (copyToDma dma (done * lbaSz) (chunk * lbaSz) s).accesses, a.Inside dma (count * lbaSz) :=
    fun fresh => inside_append (inv.inside fresh) (List.forall_mem_cons.mpr ⟨buffer, List.forall_mem_singleton.mpr frames⟩)
  cases fails done with
  | true => exact ⟨Nat.zero_le _, inv.buf, inv.data, copied⟩
  | false =>
    simp only [Bool.false_eq_true, if_false]
    refine ⟨Nat.le_refl _, ?_⟩
    rw [execute_write some_ few reach]
    refine ⟨inv.buf, fun i inside => ?_, fun fresh => inside_append (copied fresh) (dmaAccesses_inside fits _ _)⟩
    rw [Nat.add_mul] at inside
    show paste s.disk _ _ _ (lba * lbaSz + i) = _
    rcases Nat.lt_or_ge i (done * lbaSz) with old | new
    · rw [paste_outside _ (Or.inl (by rw [Nat.add_mul]; omega))]
      exact inv.data i old
    · rw [last_bytes new, paste_inside _ (by omega) (by omega), Nat.add_sub_cancel_left, dmaRead_eq fits _ (by omega)]
      unfold copyToDma
      dsimp only
      rw [paste_inside _ (by omega) (by omega), Nat.add_sub_cancel_left, Nat.add_sub_cancel' new, inv.buf]

structure FarInv (count : Nat) (s₀ : IoState) (done : Nat) (s : IoState) : Prop where
  round : 16 ∣ done ∨ done = count
  far : s.buf (2 ^ 32) = s₀.buf (2 ^ 32)

theorem FarInv.step (inv : FarInv count s₀ done s) (more : done < count) (divides : 16 * lbaSz ∣ 2 ^ 32) (large : lbaSz ≤ 2 ^ 16) :
    (ioRound dma lbaSz fails lba false done (min (count - done) 16) s).1 ≤ min (count - done) 16 ∧
      FarInv count s₀ (done + (ioRound dma lbaSz fails lba false done (min (count - done) 16) s).1)
        (ioRound dma lbaSz fails lba false done (min (count - done) 16) s).2 := by
  unfold ioRound
  rw [chunk_bytes (Nat.min_le_right _ _) large]
  simp only [Bool.false_eq_true, if_false]
  cases fails done with
  | true => exact ⟨Nat.zero_le _, inv⟩
  | false =>
    simp only [Bool.false_eq_true, if_false]
    refine ⟨Nat.le_refl _, ?_, ?_⟩
    · have whole := inv.round
      omega
    · unfold copyFromDma
      dsimp only
      obtain ⟨k, rfl⟩ : 16 ∣ done := inv.round.resolve_right (by omega)
      -- the chunk begins at a multiple of sixteen sectors, and these divide 2^32
      have start : 16 * lbaSz ∣ 16 * k * lbaSz % 2 ^ 32 :=
        (Nat.dvd_mod_iff divides).mpr ⟨k, by rw [Nat.mul_right_comm]⟩
      have size : min (count - 16 * k) 16 * lbaSz ≤ 16 * lbaSz := Nat.mul_le_mul_right _ (Nat.min_le_right _ _)
      have below : 16 * k * lbaSz % 2 ^ 32 < 2 ^ 32 := Nat.mod_lt _ (by decide)
      have room : 16 * k * lbaSz % 2 ^ 32 + 16 * lbaSz ≤ 2 ^ 32 := by
        obtain ⟨a, first⟩ := start
        obtain ⟨b, all⟩ := divides
        rw [first, all] at below
        rw [first, all, ← Nat.mul_succ]
        exact Nat.mul_le_mul_left _ (Nat.lt_of_mul_lt_mul_left below)
      rw [paste_outside _ (Or.inr (by omega)), execute_buf]
      exact inv.far

end

section
variable {dma : DmaFrames} {lbaSz lba count : Nat}

theorem wrapInt_nat {a b : Nat} (small : a < 2 ^ 32) (small' : b < 2 ^ 32) (same : wrapInt a = wrapInt b) : a = b := by
  have low : wrapInt a % 2 ^ 32 = wrapInt b % 2 ^ 32 := by rw [same]
  rw [wrapInt_emod, wrapInt_emod] at low
  omega

theorem DmaFits.mono {bytes bytes' : Nat} (fits : DmaFits dma bytes) (le : bytes' ≤ bytes) : DmaFits dma bytes' := by
  unfold DmaFits at fits ⊢
  omega

theorem fits_of_holds {bytes : Nat} (holds : ∀ x, dma.phys0 ≤ x → x < dma.phys0 + bytes → dma.Holds x) : DmaFits dma bytes := by
  have aligned0 := dma.aligned0
  have aligned1 := dma.aligned1
  unfold DmaFits
  rcases Nat.lt_or_ge 4096 bytes with more | few
  · refine Or.inr ?_
    have next := holds (dma.phys0 + 4096) (Nat.le_add_right _ _) (by omega)
    unfold DmaFrames.Holds at next
    refine ⟨?_, by omega⟩
    by_contra large
    have third := holds (dma.phys0 + 8192) (Nat.le_add_right _ _) (by omega)
    unfold DmaFrames.Holds at third
    omega
  · exact Or.inl few

theorem round_fits (fits : DmaFits dma (min count 16 * lbaSz)) (whole : count * lbaSz ≤ 2 ^ 32)
    (reach : lba + count ≤ 2 ^ 64) (some_ : 0 < lbaSz) {done : Nat} (more : done < count) :
    1 ≤ min (count - done) 16 ∧ done + min (count - done) 16 ≤ count ∧ DmaFits dma (min (count - done) 16 * lbaSz) ∧
      lba + done < 2 ^ 64 ∧ done * lbaSz < 2 ^ 32 :=
  ⟨by omega, by omega, fits.mono (Nat.mul_le_mul_right _ (by omega)), by omega,
    Nat.lt_of_lt_of_le (Nat.mul_lt_mul_of_pos_right more some_) whole⟩

theorem movesRight_of_fits (large : lbaSz ≤ 2 ^ 16) (fits : DmaFits dma (min count 16 * lbaSz)) (whole : count * lbaSz ≤ 2 ^ 32)
    (reach : lba + count ≤ 2 ^ 64) (some_ : 0 < lbaSz) (count32 : count < 2 ^ 32) : MovesRight dma lbaSz lba count := by
  have read : ∀ fails s, ReadInv dma lbaSz lba count s (nvmeDoIo dma lbaSz fails lba count false s).1
      (nvmeDoIo dma lbaSz fails lba count false s).2 ∧ (nvmeDoIo dma lbaSz fails lba count false s).1 ≤ count := by
    intro fails s
    refine chunked_invariant (fun done s' more inv => ?_) ⟨rfl, fun i none_ => by omega, fun fresh => by rw [fresh]; exact List.forall_mem_nil _⟩
    obtain ⟨one, within, fits, reach, small⟩ := round_fits fits whole reach some_ more
    exact inv.round one (Nat.min_le_right _ _) large within fits reach small
  have write : ∀ fails s, WriteInv dma lbaSz lba count s (nvmeDoIo dma lbaSz fails lba count true s).1
      (nvmeDoIo dma lbaSz fails lba count true s).2 ∧ (nvmeDoIo dma lbaSz fails lba count true s).1 ≤ count := by
    intro fails s
    refine chunked_invariant (fun done s' more inv => ?_) ⟨rfl, fun i none_ => by omega, fun fresh => by rw [fresh]; exact List.forall_mem_nil _⟩
    obtain ⟨one, within, fits, reach, small⟩ := round_fits fits whole reach some_ more
    exact inv.round one (Nat.min_le_right _ _) large within fits reach small
  refine ⟨fun fails s all i inside => ?_, fun fails s all i inside => ?_, fun fails isWrite s fresh => ?_⟩
  · obtain ⟨inv, le⟩ := read fails s
    rw [← wrapInt_nat (by omega) count32 all] at inside
    exact inv.data i inside
  · obtain ⟨inv, le⟩ := write fails s
    rw [← wrapInt_nat (by omega) count32 all] at inside
    exact inv.data i inside
  · cases isWrite with
    | false => exact (read fails s).1.inside fresh
    | true => exact (write fails s).1.inside fresh

theorem fits_of_movesRight (right : MovesRight dma lbaSz lba count) (large : lbaSz ≤ 2 ^ 16) (more : 0 < count) :
    DmaFits dma (min count 16 * lbaSz) := by
  let start : IoState := ⟨fun _ => 0, fun _ => 0, fun _ => 0, []⟩
  have inside := right.inside (fun _ => true) true start rfl
  rw [nvmeDoIo, chunked_first more] at inside
  have first : ioRound dma lbaSz (fun _ => true) lba true 0 (min count 16) start =
      (0, copyToDma dma (0 * lbaSz % 2 ^ 32) (min count 16 * lbaSz % 2 ^ 32) start) := rfl
  rw [first, if_pos rfl, chunk_bytes (Nat.min_le_right _ _) large] at inside
  exact fits_of_holds (inside (.phys dma.phys0 (min count 16 * lbaSz)) (List.mem_cons_of_mem _ (List.mem_cons_self ..)))

theorem whole_of_movesRight (right : MovesRight dma lbaSz lba count) (large : lbaSz ≤ 2 ^ 16) (divides : 16 * lbaSz ∣ 2 ^ 32) :
    count * lbaSz ≤ 2 ^ 32 := by
  by_contra more
  let start : IoState := ⟨fun _ => 0, fun _ => 1, fun _ => 0, []⟩
  have all : (nvmeDoIo dma lbaSz (fun _ => false) lba count false start).1 = count := by
    refine chunked_complete (by decide) fun done s more => ?_
    unfold ioRound
    simp only [Bool.false_eq_true, if_false]
  have inv : FarInv count start (nvmeDoIo dma lbaSz (fun _ => false) lba count false start).1
      (nvmeDoIo dma lbaSz (fun _ => false) lba count false start).2 ∧ _ :=
    chunked_invariant (fun done s more inv => inv.step more divides large) ⟨Or.inl (Nat.dvd_zero 16), rfl⟩
  have data := right.read (fun _ => false) start (by rw [all]) (2 ^ 32) (Nat.not_le.mp more)
  have one : start.disk (lba * lbaSz + 2 ^ 32) = 1 := rfl
  rw [inv.1.far, one] at data
  exact absurd data (by decide)

end

/-- Requests are carried out as they should be if and only if their first chunk fits into the first frame, or into both
frames and these are neighbours, and the whole request has at most 2^32 bytes. -/
theorem nvmeDoIo_iff (dma : DmaFrames) (lbaf lba count : Nat) (count32 : count < 2 ^ 32) (inside : lba + count ≤ 2 ^ 64) :
    MovesRight dma (lbaSize lbaf) lba count ↔
      count = 0 ∨ DmaFits dma (min count maxSectorsPerCmd * lbaSize lbaf) ∧ count * lbaSize lbaf ≤ 2 ^ 32 := by
  obtain ⟨least, large⟩ := lbaSize_bounds lbaf
  constructor
  · intro right
    rcases Nat.eq_zero_or_pos count with none_ | more
    · exact Or.inl none_
    · exact Or.inr ⟨fits_of_movesRight right large more, whole_of_movesRight right large (lbaSize_divides lbaf)⟩
  · rintro (rfl | ⟨fits, whole⟩)
    · refine ⟨fun _ _ _ i none_ => by omega, fun _ _ _ i none_ => by omega, fun fails isWrite s fresh => ?_⟩
      have same : (nvmeDoIo dma (lbaSize lbaf) fails lba 0 isWrite s).2.accesses = s.accesses := rfl
      rw [same, fresh]
      exact List.forall_mem_nil _
    · exact movesRight_of_fits large fits whole inside (by omega) count32

theorem nvmeDoIo_neighbours : MovesRight ⟨0x1000, 0x2000, by decide, by decide, by decide⟩ (lbaSize 0x90000) 5 100 :=
  (nvmeDoIo_iff ⟨0x1000, 0x2000, by decide, by decide, by decide⟩ 0x90000 5 100 (by decide) (by decide)).mpr
    (Or.inr ⟨Or.inr ⟨by decide, rfl⟩, by decide⟩)

/-- There is one frame between the two frames. A request for sixteen sectors full of ones returns 16, but the second half of
the buffer has the zeros of the frame in between. -/
theorem nvmeDoIo_apart :
    let dma : DmaFrames := ⟨0x1000, 0x3000, by decide, by decide, by decide⟩
    let r := nvmeDoIo dma (lbaSize 0x90000) (fun _ => false) 0 16 false ⟨fun _ => 0, fun _ => 1, fun _ => 0, []⟩
    lbaSize 0x90000 = 512 ∧ wrapInt r.1 = 16 ∧ r.2.buf 4095 = 1 ∧ r.2.buf 4096 = 0 ∧ Access.phys 0x1000 8192 ∈ r.2.accesses ∧
      ¬ (Access.phys 0x1000 8192).Inside dma 8192 := by
  refine ⟨by decide, by decide +kernel, by decide +kernel, by decide +kernel, by decide +kernel, fun inside => ?_⟩
  have between := inside 0x2000 (by decide) (by decide)
  unfold DmaFrames.Holds at between
  revert between
  decide

end RexOs.Drivers
