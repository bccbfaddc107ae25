import RexOs.Drivers.BlockIo
import Mathlib.Data.Nat.Bits

/-! Transfers of the AHCI driver (`kernel/drivers/ahci/ahci.c`).

Commands use one PRDT entry, which is the scratch buffer of 64 KB, and the processor copies between
it and the buffer of the caller.
-/

set_option autoImplicit false

namespace RexOs.Drivers.Ahci

open RexOs.Library

def fisTypeRegH2d : Nat := 0x27

def ataCmdReadDmaEx : Nat := 0x25

def ataCmdWriteDmaEx : Nat := 0x35

abbrev scratchPages : Nat := 16

/-- The state of the driver after `ahci_init`. `pmm_alloc_frames` has returned the physical address of the scratch buffer. -/
structure Driver where
  abar : Nat
  port : Int
  scratchPhys : Nat
  mapped : abar ≠ 0
  attached : 0 ≤ port
  scratch64 : scratchPhys < 2 ^ 64

structure State extends BlockState where
  phys : Mem

structure PrdtEntry where
  dba : Nat
  dbau : Nat
  rsv0 : Nat
  dbc : Nat
  rsv1 : Nat
  i : Nat

structure FisRegH2d where
  fisType : Nat
  pmport : Nat
  c : Nat
  command : Nat
  featurel : Nat
  lba0 : Nat
  lba1 : Nat
  lba2 : Nat
  device : Nat
  lba3 : Nat
  lba4 : Nat
  lba5 : Nat
  featureh : Nat
  count : Nat
  icc : Nat
  control : Nat

structure Command where
  cfl : Nat
  w : Nat
  prdtl : Nat
  cfis : FisRegH2d
  prdt : PrdtEntry

/-- What `issue_cmd` writes before the command is issued. -/
def command (ataCmd lba count dmaPhys byteCount : Nat) (isIdentify isWrite : Bool) : Command where
  cfl := 5
  w := if isWrite then 1 else 0
  prdtl := 1
  cfis :=
    { fisType := fisTypeRegH2d
      pmport := 0
      c := 1
      command := ataCmd
      featurel := 0
      lba0 := if isIdentify then 0 else lba % 2 ^ 8
      lba1 := if isIdentify then 0 else lba >>> 8 % 2 ^ 8
      lba2 := if isIdentify then 0 else lba >>> 16 % 2 ^ 8
      device := if isIdentify then 0 else 1 <<< 6
      lba3 := if isIdentify then 0 else lba >>> 24 % 2 ^ 8
      lba4 := if isIdentify then 0 else lba >>> 32 % 2 ^ 8
      lba5 := if isIdentify then 0 else lba >>> 40 % 2 ^ 8
      featureh := 0
      count := if isIdentify then 0 else count
      icc := 0
      control := 0 }
  prdt := ⟨dmaPhys % 2 ^ 32, dmaPhys >>> 32, 0, (byteCount - 1) % 2 ^ 22, 0, 0⟩

def FisRegH2d.startLba (fis : FisRegH2d) : Nat :=
  fis.lba0 + fis.lba1 * 2 ^ 8 + fis.lba2 * 2 ^ 16 + fis.lba3 * 2 ^ 24 + fis.lba4 * 2 ^ 32 + fis.lba5 * 2 ^ 40

def FisRegH2d.sectors (fis : FisRegH2d) : Nat := if fis.count = 0 then 65536 else fis.count

def PrdtEntry.address (prdt : PrdtEntry) : Nat := prdt.dba + prdt.dbau * 2 ^ 32

def Command.bytes (cmd : Command) : Nat := min (512 * cmd.cfis.sectors) (cmd.prdt.dbc + 1)

def Command.transfer (cmd : Command) (s : State) : State :=
  let start := 512 * cmd.cfis.startLba
  if cmd.cfis.command = ataCmdReadDmaEx ∧ cmd.w = 0 then
    { s with phys := paste s.phys cmd.prdt.address cmd.bytes fun i => s.disk (start + i) }
  else if cmd.cfis.command = ataCmdWriteDmaEx ∧ cmd.w = 1 then
    { s with disk := paste s.disk start cmd.bytes fun i => s.phys (cmd.prdt.address + i) }
  else s

def Command.access (cmd : Command) : BlockAccess := .sectors cmd.cfis.startLba cmd.cfis.sectors

/-- `failed` if the port stays busy, if there is an error in the task file or if the time is over. -/
def issueCmd (failed : Bool) (ataCmd lba count dmaPhys byteCount : Nat) (isIdentify isWrite : Bool) (s : State) : Int × State :=
  let cmd := command ataCmd lba count dmaPhys byteCount isIdentify isWrite
  let s := { s with toBlockState := s.access cmd.access }
  if failed then (-1, s) else (0, cmd.transfer s)

def maxPerCmd : Nat := scratchPages * 4096 / 512

/-- `kmemcpy(out + done * 512, s_scratch, chunk * 512)`. -/
def copyFromScratch (d : Driver) (done chunk : Nat) (s : State) : State :=
  let offset := done * 512 % 2 ^ 32
  let bytes := chunk * 512 % 2 ^ 32
  { s with
    buf := paste s.buf offset bytes fun i => s.phys (d.scratchPhys + i)
    accesses := .buffer offset bytes :: s.accesses }

/-- `kmemcpy(s_scratch, in + done * 512, chunk * 512)`. -/
def copyToScratch (d : Driver) (done chunk : Nat) (s : State) : State :=
  let offset := done * 512 % 2 ^ 32
  let bytes := chunk * 512 % 2 ^ 32
  { s with
    phys := paste s.phys d.scratchPhys bytes fun i => s.buf (offset + i)
    accesses := .buffer offset bytes :: s.accesses }

def readRound (d : Driver) (fails : Failures) (lba done chunk : Nat) (s : State) : Nat × State :=
  let r := issueCmd (fails done).isSome ataCmdReadDmaEx ((lba + done) % 2 ^ 64) (chunk % 2 ^ 16) d.scratchPhys (chunk * 512 % 2 ^ 32)
    false false s
  if r.1 ≠ 0 then (0, r.2) else (chunk, copyFromScratch d done chunk r.2)

def writeRound (d : Driver) (fails : Failures) (lba done chunk : Nat) (s : State) : Nat × State :=
  let r := issueCmd (fails done).isSome ataCmdWriteDmaEx ((lba + done) % 2 ^ 64) (chunk % 2 ^ 16) d.scratchPhys (chunk * 512 % 2 ^ 32)
    false true (copyToScratch d done chunk s)
  if r.1 ≠ 0 then (0, r.2) else (chunk, r.2)

def ahciBlockRead (d : Driver) (fails : Failures) (lba count : Nat) (s : State) : Int × State :=
  if d.abar = 0 ∨ d.port < 0 then (0, s)
  else
    let r := chunked maxPerCmd count (readRound d fails lba) s
    (wrapInt r.1, r.2)

def ahciBlockWrite (d : Driver) (fails : Failures) (lba count : Nat) (s : State) : Int × State :=
  if d.abar = 0 ∨ d.port < 0 then (0, s)
  else
    let r := chunked maxPerCmd count (writeRound d fails lba) s
    (wrapInt r.1, r.2)

section
variable {d : Driver} {lba count done chunk dmaPhys ataCmd : Nat} {isWrite : Bool} {fails : Failures} {s₀ : BlockState} {s : State}

theorem startLba_command (fits : lba < 2 ^ 48) (bytes : Nat) :
    (command ataCmd lba count dmaPhys bytes false isWrite).cfis.startLba = lba := by
  show lba % 2 ^ 8 + lba >>> 8 % 2 ^ 8 * 2 ^ 8 + lba >>> 16 % 2 ^ 8 * 2 ^ 16 + lba >>> 24 % 2 ^ 8 * 2 ^ 24 +
    lba >>> 32 % 2 ^ 8 * 2 ^ 32 + lba >>> 40 % 2 ^ 8 * 2 ^ 40 = lba
  simp only [Nat.shiftRight_eq_div_pow]
  omega

theorem address_command (bytes : Nat) :
    (command ataCmd lba count dmaPhys bytes false isWrite).prdt.address = dmaPhys := by
  show dmaPhys % 2 ^ 32 + dmaPhys >>> 32 * 2 ^ 32 = dmaPhys
  rw [Nat.shiftRight_eq_div_pow]
  omega

theorem sectors_command (some_ : 1 ≤ chunk) (bytes : Nat) :
    (command ataCmd lba chunk dmaPhys bytes false isWrite).cfis.sectors = chunk :=
  if_neg (by show chunk ≠ 0; omega)

theorem bytes_command (some_ : 1 ≤ chunk) (few : chunk ≤ 128) :
    (command ataCmd lba chunk dmaPhys (512 * chunk) false isWrite).bytes = 512 * chunk := by
  unfold Command.bytes
  rw [sectors_command some_]
  show min (512 * chunk) ((512 * chunk - 1) % 2 ^ 22 + 1) = 512 * chunk
  omega

theorem access_command (some_ : 1 ≤ chunk) (fits : lba < 2 ^ 48) (bytes : Nat) :
    (command ataCmd lba chunk dmaPhys bytes false isWrite).access = .sectors lba chunk := by
  unfold Command.access
  rw [startLba_command fits, sectors_command some_]

theorem issueCmd_read {failed : Bool} (some_ : 1 ≤ chunk) (few : chunk ≤ 128) (fits : lba < 2 ^ 48) :
    issueCmd failed ataCmdReadDmaEx lba chunk dmaPhys (512 * chunk) false false s =
      if failed then (-1, { s with accesses := .sectors lba chunk :: s.accesses })
      else (0, { s with
        phys := paste s.phys dmaPhys (512 * chunk) fun i => s.disk (512 * lba + i)
        accesses := .sectors lba chunk :: s.accesses }) := by
  have read : (command ataCmdReadDmaEx lba chunk dmaPhys (512 * chunk) false false).cfis.command = ataCmdReadDmaEx ∧
      (command ataCmdReadDmaEx lba chunk dmaPhys (512 * chunk) false false).w = 0 := ⟨rfl, rfl⟩
  unfold issueCmd Command.transfer
  dsimp only
  rw [access_command some_ fits, startLba_command fits, address_command, bytes_command some_ few, if_pos read]
  rfl

theorem issueCmd_write {failed : Bool} (some_ : 1 ≤ chunk) (few : chunk ≤ 128) (fits : lba < 2 ^ 48) :
    issueCmd failed ataCmdWriteDmaEx lba chunk dmaPhys (512 * chunk) false true s =
      if failed then (-1, { s with accesses := .sectors lba chunk :: s.accesses })
      else (0, { s with
        disk := paste s.disk (512 * lba) (512 * chunk) fun i => s.phys (dmaPhys + i)
        accesses := .sectors lba chunk :: s.accesses }) := by
  have write : (command ataCmdWriteDmaEx lba chunk dmaPhys (512 * chunk) false true).cfis.command = ataCmdWriteDmaEx ∧
      (command ataCmdWriteDmaEx lba chunk dmaPhys (512 * chunk) false true).w = 1 := ⟨rfl, rfl⟩
  have other : ¬ ((command ataCmdWriteDmaEx lba chunk dmaPhys (512 * chunk) false true).cfis.command = ataCmdReadDmaEx ∧
      (command ataCmdWriteDmaEx lba chunk dmaPhys (512 * chunk) false true).w = 0) := fun both => absurd (show ataCmdWriteDmaEx = ataCmdReadDmaEx from both.1) (by decide)
  unfold issueCmd Command.transfer
  dsimp only
  rw [access_command some_ fits, startLba_command fits, address_command, bytes_command some_ few, if_neg other, if_pos write]
  rfl

theorem round_fits (some_ : 1 ≤ chunk) (few : chunk ≤ 128) (within : done + chunk ≤ count) (small : count < 2 ^ 23)
    (reach : lba + count ≤ 2 ^ 48) : (lba + done) % 2 ^ 64 = lba + done ∧ chunk % 2 ^ 16 = chunk ∧ chunk * 512 % 2 ^ 32 = 512 * chunk ∧
      done * 512 % 2 ^ 32 = 512 * done ∧ (BlockAccess.sectors (lba + done) chunk).Inside lba count ∧
      (BlockAccess.buffer (512 * done) (512 * chunk)).Inside lba count := by
  refine ⟨Nat.mod_eq_of_lt (by omega), Nat.mod_eq_of_lt (by omega), bytes_small (by omega), bytes_small (by omega), ⟨by omega, by omega⟩, ?_⟩
  show 512 * done + 512 * chunk ≤ count * 512
  omega

theorem readRound_right (inv : HasRead lba count s₀ done s.toBlockState) (some_ : 1 ≤ chunk) (few : chunk ≤ 128)
    (within : done + chunk ≤ count) (small : count < 2 ^ 23) (reach : lba + count ≤ 2 ^ 48) :
    (readRound d fails lba done chunk s).1 ≤ chunk ∧
      HasRead lba count s₀ (done + (readRound d fails lba done chunk s).1) (readRound d fails lba done chunk s).2.toBlockState := by
  obtain ⟨address, sectors, bytes, offset, named, copied⟩ := round_fits some_ few within small reach
  unfold readRound copyFromScratch
  rw [address, sectors, bytes, offset, issueCmd_read some_ few (by omega)]
  cases (fails done).isSome with
  | true => exact ⟨Nat.zero_le _, inv.access named⟩
  | false =>
    have data : ∀ i, i < 512 * chunk → paste s.phys d.scratchPhys (512 * chunk) (fun k => s.disk (512 * (lba + done) + k))
        (d.scratchPhys + i) = s.disk (512 * (lba + done) + i) := fun i inside => by
      rw [paste_inside _ (by omega) (by omega), Nat.add_sub_cancel_left]
    exact ⟨Nat.le_refl _, ((inv.access named).next data).access copied⟩

theorem writeRound_right (inv : HasWritten lba count s₀ done s.toBlockState) (some_ : 1 ≤ chunk) (few : chunk ≤ 128)
    (within : done + chunk ≤ count) (small : count < 2 ^ 23) (reach : lba + count ≤ 2 ^ 48) :
    (writeRound d fails lba done chunk s).1 ≤ chunk ∧
      HasWritten lba count s₀ (done + (writeRound d fails lba done chunk s).1) (writeRound d fails lba done chunk s).2.toBlockState := by
  obtain ⟨address, sectors, bytes, offset, named, copied⟩ := round_fits some_ few within small reach
  unfold writeRound copyToScratch
  rw [address, sectors, bytes, offset, issueCmd_write some_ few (by omega)]
  cases (fails done).isSome with
  | true => exact ⟨Nat.zero_le _, (inv.access copied).access named⟩
  | false =>
    have data : ∀ i, i < 512 * chunk → paste s.phys d.scratchPhys (512 * chunk) (fun k => s.buf (512 * done + k))
        (d.scratchPhys + i) = s.buf (512 * done + i) := fun i inside => by
      rw [paste_inside _ (by omega) (by omega), Nat.add_sub_cancel_left]
    exact ⟨Nat.le_refl _, ((inv.access copied).access named).next data⟩

end

section
variable {disk : Device (2 ^ 48)} (d : Driver) (fails : Failures) (r : Request disk) (s : State)

theorem readRound_all {done count : Nat} (lba : Nat) (clean : fails done = none) :
    (readRound d fails lba done count s).1 = count := by
  unfold readRound issueCmd
  rw [clean]
  rfl

theorem writeRound_all {done count : Nat} (lba : Nat) (clean : fails done = none) :
    (writeRound d fails lba done count s).1 = count := by
  unfold writeRound issueCmd
  rw [clean]
  rfl

theorem ready : ¬ (d.abar = 0 ∨ d.port < 0) := fun missing =>
  missing.elim d.mapped fun negative => absurd d.attached (Int.not_le.mpr negative)

theorem ahciBlockRead_right :
    ReadRight r.lba r.count fails s.toBlockState (ahciBlockRead d fails r.lba r.count s).2.toBlockState
      (ahciBlockRead d fails r.lba r.count s).1 := by
  let Inv : Nat → State → Prop := fun done s' => HasRead r.lba r.count s.toBlockState done s'.toBlockState
  have result : Inv (chunked maxPerCmd r.count (readRound d fails r.lba) s).1 (chunked maxPerCmd r.count (readRound d fails r.lba) s).2 ∧
      (chunked maxPerCmd r.count (readRound d fails r.lba) s).1 ≤ r.count :=
    chunked_invariant (fun done s' more inv => readRound_right inv (chunk_some (by decide) more) (Nat.min_le_right _ _)
      (chunk_within more) r.small r.reach) (HasRead.start _)
  unfold ahciBlockRead
  rw [if_neg (ready d)]
  dsimp only
  exact result.1.right r.small result.2 fun clean =>
    chunked_complete (by decide) fun done s' more => readRound_all d fails s' r.lba (clean done more)

theorem ahciBlockWrite_right :
    WriteRight r.lba r.count fails s.toBlockState (ahciBlockWrite d fails r.lba r.count s).2.toBlockState
      (ahciBlockWrite d fails r.lba r.count s).1 := by
  let Inv : Nat → State → Prop := fun done s' => HasWritten r.lba r.count s.toBlockState done s'.toBlockState
  have result : Inv (chunked maxPerCmd r.count (writeRound d fails r.lba) s).1 (chunked maxPerCmd r.count (writeRound d fails r.lba) s).2 ∧
      (chunked maxPerCmd r.count (writeRound d fails r.lba) s).1 ≤ r.count :=
    chunked_invariant (fun done s' more inv => writeRound_right inv (chunk_some (by decide) more) (Nat.min_le_right _ _)
      (chunk_within more) r.small r.reach) (HasWritten.start _)
  unfold ahciBlockWrite
  rw [if_neg (ready d)]
  dsimp only
  exact result.1.right r.small result.2 fun clean =>
    chunked_complete (by decide) fun done s' more => writeRound_all d fails s' r.lba (clean done more)

end

end RexOs.Drivers.Ahci
