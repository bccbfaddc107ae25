import RexOs.Drivers.BlockIo
import Mathlib.Data.Nat.Bits

/-! Transfers of the ATA driver (`kernel/drivers/ata/ata.c`): LBA28 and programmed I/O.

A sector goes through the data register word by word. The device gives a block when it has it,
and it stores the blocks of a write command when it has all of them; it may report a failure
before each block or behind the last one.
-/

set_option autoImplicit false

namespace RexOs.Drivers.Ata

open RexOs.Library

def ataSrBsy : Nat := 0x80

def ataSrDrdy : Nat := 0x40

def ataSrDf : Nat := 0x20

def ataSrDrq : Nat := 0x08

def ataSrErr : Nat := 0x01

structure Registers where
  drive : Nat
  secCount : Nat
  lbaLo : Nat
  lbaMid : Nat
  lbaHi : Nat
  deriving DecidableEq, Repr

def Registers.startLba (r : Registers) : Nat := (r.drive &&& 0x0F) * 2 ^ 24 + r.lbaHi * 2 ^ 16 + r.lbaMid * 2 ^ 8 + r.lbaLo

def Registers.sectors (r : Registers) : Nat := if r.secCount = 0 then 256 else r.secCount

def Registers.access (r : Registers) : BlockAccess := .sectors r.startLba r.sectors

/-- The status in front of a block, as soon as the device is not busy. A command that fails after `j` blocks reports it from
then on. -/
def deviceStatus (failed : Option Nat) (block : Nat) : Nat :=
  if failed.all fun j => block < j then ataSrDrdy ||| ataSrDrq else ataSrDrdy ||| ataSrErr

def storeSent (regs : Registers) (failed : Option Nat) (sent : Mem) (s : BlockState) : BlockState :=
  if failed = none then { s with disk := paste s.disk (512 * regs.startLba) (512 * regs.sectors) sent } else s

/-- What `ata_poll` returns when the status stays so. -/
def ataPoll (s : Nat) : Int :=
  if s &&& ataSrErr ≠ 0 then -1
  else if s &&& ataSrDf ≠ 0 then -1
  else if s &&& ataSrBsy = 0 ∧ s &&& ataSrDrq ≠ 0 then 0
  else if s &&& ataSrBsy = 0 ∧ s &&& ataSrDrdy ≠ 0 ∧ s &&& ataSrDrq = 0 then 1
  else -1

/-- `outb` to the registers of the primary master. -/
def select (lba count : Nat) : Registers where
  drive := 0xE0 ||| (lba >>> 24 &&& 0x0F)
  secCount := count
  lbaLo := lba % 2 ^ 8
  lbaMid := lba >>> 8 % 2 ^ 8
  lbaHi := lba >>> 16 % 2 ^ 8

/-- `for (uint16_t s = 0; s < count; s++)`. -/
def readBlocks (regs : Registers) (failed : Option Nat) (buffer : Nat) : Nat → Nat → BlockState → Nat × BlockState
  | 0, actual, s => (actual, s)
  | left + 1, actual, s =>
      if ataPoll (deviceStatus failed actual) < 0 then (actual, s)
      else
        let block : Mem := fun i => s.disk (512 * (regs.startLba + actual) + i)
        let s := { s with buf := moveWords s.buf (buffer + 512 * actual) block 2 256 }
        readBlocks regs failed buffer left (actual + 1) (s.access (.buffer (buffer + 512 * actual) 512))

def ataReadSectors (present : Bool) (failed : Option Nat) (lba count buffer : Nat) (s : BlockState) : Nat × BlockState :=
  if !present then (0, s)
  else if count = 0 then (0, s)
  else
    let regs := select lba count
    readBlocks regs failed buffer count 0 (s.access regs.access)

/-- `for (uint8_t s = 0; s < count; s++)`, with the blocks that the device has. -/
def writeBlocks (failed : Option Nat) (buffer : Nat) : Nat → Nat → Mem → BlockState → Nat × Mem × BlockState
  | 0, actual, sent, s => (actual, sent, s)
  | left + 1, actual, sent, s =>
      if ataPoll (deviceStatus failed actual) < 0 then (actual, sent, s)
      else
        let block : Mem := fun i => s.buf (buffer + 512 * actual + i)
        writeBlocks failed buffer left (actual + 1) (moveWords sent (512 * actual) block 2 256)
          (s.access (.buffer (buffer + 512 * actual) 512))

/-- The status is not read behind the last block, nor is an error after the cache flush. -/
def ataWriteSectors (present : Bool) (failed : Option Nat) (lba count buffer : Nat) (s : BlockState) : Nat × BlockState :=
  if !present then (0, s)
  else if count = 0 then (0, s)
  else
    let regs := select lba count
    let r := writeBlocks failed buffer count 0 (fun _ => 0) (s.access regs.access)
    (r.1, storeSent regs failed r.2.1 r.2.2)

def readRound (present : Bool) (fails : Failures) (lba done chunk : Nat) (s : BlockState) : Nat × BlockState :=
  ataReadSectors present (fails done) ((lba + done) % 2 ^ 32) (chunk % 2 ^ 8) (done * 512 % 2 ^ 32) s

def writeRound (present : Bool) (fails : Failures) (lba done chunk : Nat) (s : BlockState) : Nat × BlockState :=
  ataWriteSectors present (fails done) ((lba + done) % 2 ^ 32) (chunk % 2 ^ 8) (done * 512 % 2 ^ 32) s

def ataBlockRead (present : Bool) (fails : Failures) (lba count : Nat) (s : BlockState) : Int × BlockState :=
  let r := chunked 255 count (readRound present fails lba) s
  (wrapInt r.1, r.2)

def ataBlockWrite (present : Bool) (fails : Failures) (lba count : Nat) (s : BlockState) : Int × BlockState :=
  let r := chunked 255 count (writeRound present fails lba) s
  (wrapInt r.1, r.2)

section
variable {lba count done chunk actual left buffer : Nat} {failed : Option Nat} {regs : Registers} {s₀ s : BlockState} {sent : Mem}

theorem poll_data : ataPoll (ataSrDrdy ||| ataSrDrq) = 0 := by decide

theorem poll_error : ataPoll (ataSrDrdy ||| ataSrErr) = -1 := by decide

theorem poll_failed : ataPoll (deviceStatus failed actual) < 0 ↔ ∃ j, failed = some j ∧ j ≤ actual := by
  unfold deviceStatus
  cases failed with
  | none =>
    rw [Option.all_none, if_pos rfl, poll_data]
    exact ⟨fun negative => absurd negative (by decide), fun ⟨j, some_, _⟩ => by cases some_⟩
  | some j =>
    rw [Option.all_some]
    rcases Nat.lt_or_ge actual j with before | behind
    · rw [if_pos (decide_eq_true before), poll_data]
      refine ⟨fun negative => absurd negative (by decide), fun ⟨j', same, behind⟩ => ?_⟩
      cases same
      exact absurd before (Nat.not_lt.mpr behind)
    · rw [if_neg (by rw [decide_eq_true_iff]; exact Nat.not_lt.mpr behind), poll_error]
      exact ⟨fun _ => ⟨j, rfl, behind⟩, fun _ => by decide⟩

theorem drive_low : ∀ n, n < 16 → (0xE0 ||| n) &&& 0x0F = n := by decide

theorem startLba_select (count : Nat) (fits : lba < 2 ^ 28) : (select lba count).startLba = lba := by
  have high : lba >>> 24 &&& 0x0F = lba / 2 ^ 24 % 16 := by
    rw [Nat.shiftRight_eq_div_pow]
    exact Nat.and_two_pow_sub_one_eq_mod _ 4
  show ((0xE0 ||| (lba >>> 24 &&& 0x0F)) &&& 0x0F) * 2 ^ 24 + lba >>> 16 % 2 ^ 8 * 2 ^ 16 + lba >>> 8 % 2 ^ 8 * 2 ^ 8 + lba % 2 ^ 8 = lba
  rw [high, drive_low _ (Nat.mod_lt _ (by decide)), Nat.shiftRight_eq_div_pow, Nat.shiftRight_eq_div_pow]
  omega

theorem sectors_select (some_ : 1 ≤ count) : (select lba count).sectors = count :=
  if_neg (by show count ≠ 0; omega)

theorem readBlocks_right (failed : Option Nat) (start : regs.startLba = lba + done) (within : done + actual + left ≤ count)
    (inv : HasRead lba count s₀ (done + actual) s) :
    HasRead lba count s₀ (done + (readBlocks regs failed (512 * done) left actual s).1)
        (readBlocks regs failed (512 * done) left actual s).2 ∧
      (readBlocks regs failed (512 * done) left actual s).1 ≤ actual + left ∧
      (failed = none → (readBlocks regs failed (512 * done) left actual s).1 = actual + left) := by
  induction left generalizing actual s with
  | zero => exact ⟨inv, Nat.le_refl _, fun _ => rfl⟩
  | succ left ih =>
    rw [readBlocks]
    split
    · rename_i error
      obtain ⟨j, some_, _⟩ := poll_failed.mp error
      exact ⟨inv, by omega, fun none_ => by rw [none_] at some_; cases some_⟩
    · have place : 512 * done + 512 * actual = 512 * (done + actual) := by omega
      have copied : (BlockAccess.buffer (512 * (done + actual)) 512).Inside lba count := by
        show 512 * (done + actual) + 512 ≤ count * 512
        omega
      have data : ∀ i, i < 512 * 1 → s.disk (512 * (regs.startLba + actual) + i) = s.disk (512 * (lba + (done + actual)) + i) :=
        fun i _ => by rw [start, Nat.add_assoc]
      have next := (inv.next data).access copied
      have room : done + (actual + 1) + left ≤ count := by omega
      dsimp only
      rw [moveWords_eq, place]
      obtain ⟨kept, few, all⟩ := ih room next
      exact ⟨kept, few.trans (by omega), fun none_ => (all none_).trans (by omega)⟩

theorem writeBlocks_right (failed : Option Nat) (within : done + actual + left ≤ count) (inv : HasWritten lba count s₀ done s)
    (data : ∀ i, i < 512 * actual → sent i = s₀.buf (512 * done + i)) :
    HasWritten lba count s₀ done (writeBlocks failed (512 * done) left actual sent s).2.2 ∧
      (∀ i, i < 512 * (writeBlocks failed (512 * done) left actual sent s).1 →
        (writeBlocks failed (512 * done) left actual sent s).2.1 i = s₀.buf (512 * done + i)) := by
  induction left generalizing actual s sent with
  | zero => exact ⟨inv, data⟩
  | succ left ih =>
    rw [writeBlocks]
    split
    · exact ⟨inv, data⟩
    · have copied : (BlockAccess.buffer (512 * done + 512 * actual) 512).Inside lba count := by
        show 512 * done + 512 * actual + 512 ≤ count * 512
        omega
      dsimp only
      rw [moveWords_eq]
      have more : ∀ i, i < 512 * (actual + 1) →
          paste sent (512 * actual) (2 * 256) (fun i => s.buf (512 * done + 512 * actual + i)) i = s₀.buf (512 * done + i) := by
        intro i small
        rcases Nat.lt_or_ge i (512 * actual) with old | new
        · rw [paste_outside _ (Or.inl old), data i old]
        · rw [paste_inside _ new (by omega), inv.buf, Nat.add_assoc, Nat.add_sub_cancel' new]
      have room : done + (actual + 1) + left ≤ count := by omega
      exact ih room (inv.access copied) more

theorem writeBlocks_disk : (writeBlocks failed buffer left actual sent s).2.2.disk = s.disk := by
  induction left generalizing actual s sent with
  | zero => rfl
  | succ left ih =>
    rw [writeBlocks]
    split
    · rfl
    · exact ih

theorem writeBlocks_most : actual ≤ (writeBlocks failed buffer left actual sent s).1 ∧
    (writeBlocks failed buffer left actual sent s).1 ≤ actual + left := by
  induction left generalizing actual s sent with
  | zero => exact ⟨Nat.le_refl _, Nat.le_refl _⟩
  | succ left ih =>
    rw [writeBlocks]
    split
    · exact ⟨Nat.le_refl _, Nat.le_add_right _ _⟩
    · obtain ⟨low, high⟩ := ih
      exact ⟨(Nat.le_succ _).trans low, high.trans (by omega)⟩

theorem writeBlocks_all : (writeBlocks none buffer left actual sent s).1 = actual + left := by
  induction left generalizing actual s sent with
  | zero => rfl
  | succ left ih =>
    have good : ¬ ataPoll (deviceStatus none actual) < 0 := by
      rw [poll_failed]
      exact fun ⟨j, some_, _⟩ => by cases some_
    rw [writeBlocks, if_neg good]
    exact ih.trans (by omega)

theorem writeBlocks_early : (writeBlocks (some 0) buffer left 0 sent s).1 = 0 := by
  cases left with
  | zero => rfl
  | succ left => rw [writeBlocks, if_pos (poll_failed.mpr ⟨0, rfl, Nat.le_refl 0⟩)]

theorem writeBlocks_late (late : failed ≠ some 0) (some_ : 1 ≤ left) : 1 ≤ (writeBlocks failed buffer left 0 sent s).1 := by
  obtain ⟨n, rfl⟩ := Nat.exists_eq_add_of_le' some_
  have good : ¬ ataPoll (deviceStatus failed 0) < 0 := fun error => by
    obtain ⟨j, same, none_⟩ := poll_failed.mp error
    rw [Nat.le_zero.mp none_] at same
    exact late same
  rw [writeBlocks, if_neg good]
  exact writeBlocks_most.1

end

section
variable {lba count done chunk : Nat} {fails : Failures} {s₀ s : BlockState}

theorem access_select (some_ : 1 ≤ chunk) (fits : lba < 2 ^ 28) : (select lba chunk).access = .sectors lba chunk := by
  unfold Registers.access
  rw [startLba_select _ fits, sectors_select some_]

theorem address_small (within : done + chunk ≤ count) (some_ : 1 ≤ chunk) (reach : lba + count ≤ 2 ^ 28) :
    (lba + done) % 2 ^ 32 = lba + done ∧ lba + done < 2 ^ 28 := by
  have small : lba + done < 2 ^ 28 := by omega
  exact ⟨Nat.mod_eq_of_lt (small.trans (by decide)), small⟩

theorem readRound_right (inv : HasRead lba count s₀ done s) (some_ : 1 ≤ chunk) (few : chunk ≤ 255)
    (within : done + chunk ≤ count) (small : count < 2 ^ 23) (reach : lba + count ≤ 2 ^ 28) :
    HasRead lba count s₀ (done + (readRound true fails lba done chunk s).1) (readRound true fails lba done chunk s).2 ∧
      (readRound true fails lba done chunk s).1 ≤ chunk ∧
      (fails done = none → (readRound true fails lba done chunk s).1 = chunk) := by
  obtain ⟨address, fits⟩ := address_small within some_ reach
  have sectors : chunk % 2 ^ 8 = chunk := Nat.mod_eq_of_lt (by omega)
  have named : (BlockAccess.sectors (lba + done) chunk).Inside lba count := ⟨by omega, by omega⟩
  have room : done + 0 + chunk ≤ count := by omega
  unfold readRound ataReadSectors
  rw [address, sectors, bytes_small (n := done) (by omega), if_neg (by decide), if_neg (by omega)]
  dsimp only
  rw [access_select some_ fits]
  have given := readBlocks_right (fails done) (startLba_select chunk fits) room (inv.access named)
  rwa [Nat.zero_add] at given

theorem writeRound_eq (some_ : 1 ≤ chunk) (few : chunk ≤ 255) (within : done + chunk ≤ count) (small : count < 2 ^ 23)
    (reach : lba + count ≤ 2 ^ 28) : writeRound true fails lba done chunk s =
      ((writeBlocks (fails done) (512 * done) chunk 0 (fun _ => 0) (s.access (.sectors (lba + done) chunk))).1,
        storeSent (select (lba + done) chunk) (fails done)
          (writeBlocks (fails done) (512 * done) chunk 0 (fun _ => 0) (s.access (.sectors (lba + done) chunk))).2.1
          (writeBlocks (fails done) (512 * done) chunk 0 (fun _ => 0) (s.access (.sectors (lba + done) chunk))).2.2) := by
  obtain ⟨address, fits⟩ := address_small within some_ reach
  have sectors : chunk % 2 ^ 8 = chunk := Nat.mod_eq_of_lt (by omega)
  unfold writeRound ataWriteSectors
  rw [address, sectors, bytes_small (n := done) (by omega), if_neg (by decide), if_neg (by omega)]
  dsimp only
  rw [access_select some_ fits]

theorem storeSent_failed {regs : Registers} {failed : Option Nat} {sent : Mem} (error : failed ≠ none) :
    storeSent regs failed sent s = s :=
  if_neg error

theorem storeSent_select {sent : Mem} (some_ : 1 ≤ chunk) (fits : lba < 2 ^ 28) :
    storeSent (select lba chunk) none sent s = { s with disk := paste s.disk (512 * lba) (512 * chunk) sent } := by
  unfold storeSent
  rw [if_pos rfl, startLba_select _ fits, sectors_select some_]

theorem writeRound_right (inv : HasWritten lba count s₀ done s) (some_ : 1 ≤ chunk) (few : chunk ≤ 255)
    (within : done + chunk ≤ count) (small : count < 2 ^ 23) (reach : lba + count ≤ 2 ^ 28)
    (early : fails done = none ∨ fails done = some 0) :
    HasWritten lba count s₀ (done + (writeRound true fails lba done chunk s).1) (writeRound true fails lba done chunk s).2 := by
  have named : (BlockAccess.sectors (lba + done) chunk).Inside lba count := ⟨by omega, by omega⟩
  obtain ⟨-, fits⟩ := address_small within some_ reach
  have room : done + 0 + chunk ≤ count := by omega
  have nothing : ∀ i, i < 512 * 0 → (fun _ => 0 : Mem) i = s₀.buf (512 * done + i) := fun i none_ => by omega
  obtain ⟨kept, has⟩ := writeBlocks_right (fails done) room (inv.access named) nothing
  rw [writeRound_eq some_ few within small reach]
  dsimp only
  rcases early with clean | error
  · rw [clean] at kept has ⊢
    rw [writeBlocks_all, Nat.zero_add] at has ⊢
    rw [storeSent_select some_ fits]
    exact kept.next fun i inside => by rw [has i inside, kept.buf]
  · rw [error] at kept ⊢
    rw [storeSent_failed (by decide), writeBlocks_early]
    exact kept

theorem writeRound_disk (fails : Failures) (s : BlockState) (some_ : 1 ≤ chunk) (few : chunk ≤ 255) (within : done + chunk ≤ count) (small : count < 2 ^ 23)
    (reach : lba + count ≤ 2 ^ 28) {x : Nat} (outside : fails done ≠ none ∨ x < 512 * (lba + done) ∨ 512 * (lba + done + chunk) ≤ x) :
    (writeRound true fails lba done chunk s).2.disk x = s.disk x := by
  obtain ⟨-, fits⟩ := address_small within some_ reach
  rw [writeRound_eq some_ few within small reach]
  dsimp only
  cases result : fails done with
  | none =>
    have apart := outside.resolve_left fun error => error result
    rw [storeSent_select some_ fits]
    dsimp only
    rw [paste_outside _ (by omega), writeBlocks_disk]
    rfl
  | some j =>
    rw [storeSent_failed (Option.some_ne_none j), writeBlocks_disk]
    rfl

theorem writeRound_count (fails : Failures) (s : BlockState) (some_ : 1 ≤ chunk) (few : chunk ≤ 255) (within : done + chunk ≤ count) (small : count < 2 ^ 23)
    (reach : lba + count ≤ 2 ^ 28) : (writeRound true fails lba done chunk s).1 ≤ chunk ∧
      (fails done ≠ some 0 → 1 ≤ (writeRound true fails lba done chunk s).1) ∧
      (fails done = none → (writeRound true fails lba done chunk s).1 = chunk) ∧
      (fails done = some 0 → (writeRound true fails lba done chunk s).1 = 0) := by
  rw [writeRound_eq some_ few within small reach]
  refine ⟨writeBlocks_most.2.trans (Nat.le_of_eq (Nat.zero_add chunk)), fun late => writeBlocks_late late some_, fun clean => ?_,
    fun early => ?_⟩
  · rw [clean]
    exact writeBlocks_all.trans (Nat.zero_add chunk)
  · rw [early]
    exact writeBlocks_early

end

end RexOs.Drivers.Ata
