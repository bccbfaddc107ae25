import RexOs.Drivers.Ahci
import RexOs.Drivers.Ata

/-! Requests to the disks are one transfer, whatever chunks they are carried out in.

A write command of the ATA driver is counted as soon as its blocks have been sent, so it must not
fail after that.
-/

set_option autoImplicit false

namespace RexOs.Drivers

open RexOs.Library

structure BlockIoRight {sata : Device (2 ^ 48)} {ata : Device (2 ^ 28)} (d : Ahci.Driver) (fails : Failures) (r : Request sata)
    (r' : Request ata) : Prop where
  ahciRead : ∀ s, ReadRight r.lba r.count fails s.toBlockState (Ahci.ahciBlockRead d fails r.lba r.count s).2.toBlockState
    (Ahci.ahciBlockRead d fails r.lba r.count s).1
  ahciWrite : ∀ s, WriteRight r.lba r.count fails s.toBlockState (Ahci.ahciBlockWrite d fails r.lba r.count s).2.toBlockState
    (Ahci.ahciBlockWrite d fails r.lba r.count s).1
  ataRead : ∀ s, ReadRight r'.lba r'.count fails s (Ata.ataBlockRead true fails r'.lba r'.count s).2
    (Ata.ataBlockRead true fails r'.lba r'.count s).1
  ataWrite : ∀ s, WriteRight r'.lba r'.count fails s (Ata.ataBlockWrite true fails r'.lba r'.count s).2
    (Ata.ataBlockWrite true fails r'.lba r'.count s).1

/-- Commands of 255 sectors have been carried out up to `done`. -/
def Complete (fails : Failures) (done : Nat) : Prop := ∃ k, done = 255 * k ∧ ∀ k', k' < k → fails (255 * k') = none

def FailsEarly (fails : Failures) (count : Nat) : Prop :=
  ∀ done, done < count → Complete fails done → fails done = none ∨ fails done = some 0

section
variable {disk : Device (2 ^ 28)} {fails : Failures} {done : Nat} {r : Request disk} {s : BlockState}

theorem Complete.next (complete : Complete fails done) (clean : fails done = none) : Complete fails (done + 255) := by
  obtain ⟨k, rfl, before⟩ := complete
  refine ⟨k + 1, by omega, fun k' small => ?_⟩
  rcases Nat.lt_or_eq_of_le (Nat.le_of_lt_succ small) with earlier | rfl
  · exact before k' earlier
  · exact clean

theorem Complete.before {done' : Nat} (later : Complete fails done') (complete : Complete fails done) (less : done < done') :
    fails done = none ∧ done + 255 ≤ done' := by
  obtain ⟨k, rfl, -⟩ := complete
  obtain ⟨k', rfl, before⟩ := later
  exact ⟨before k (by omega), by omega⟩

theorem ataBlockRead_right (fails : Failures) (r : Request disk) (s : BlockState) :
    ReadRight r.lba r.count fails s (Ata.ataBlockRead true fails r.lba r.count s).2 (Ata.ataBlockRead true fails r.lba r.count s).1 := by
  have round : ∀ done s', done < r.count → HasRead r.lba r.count s done s' →
      HasRead r.lba r.count s (done + (Ata.readRound true fails r.lba done (min (r.count - done) 255) s').1)
          (Ata.readRound true fails r.lba done (min (r.count - done) 255) s').2 ∧
        (Ata.readRound true fails r.lba done (min (r.count - done) 255) s').1 ≤ min (r.count - done) 255 ∧
        (fails done = none → (Ata.readRound true fails r.lba done (min (r.count - done) 255) s').1 = min (r.count - done) 255) :=
    fun done s' more inv => Ata.readRound_right inv (chunk_some (by decide) more) (Nat.min_le_right _ _) (chunk_within more) r.small r.reach
  have step : ∀ done s', done < r.count → HasRead r.lba r.count s done s' →
      (Ata.readRound true fails r.lba done (min (r.count - done) 255) s').1 ≤ min (r.count - done) 255 ∧
        HasRead r.lba r.count s (done + (Ata.readRound true fails r.lba done (min (r.count - done) 255) s').1)
          (Ata.readRound true fails r.lba done (min (r.count - done) 255) s').2 :=
    fun done s' more inv => ⟨(round done s' more inv).2.1, (round done s' more inv).1⟩
  have result := chunked_invariant step (HasRead.start s)
  unfold Ata.ataBlockRead
  dsimp only
  refine result.1.right r.small result.2 fun clean => ?_
  refine (chunked_stopped step (HasRead.start s)).resolve_right fun ⟨s', inv, more, stopped⟩ => ?_
  have whole := (round _ s' more inv).2.2 (clean _ more)
  rw [stopped] at whole
  exact absurd whole (Nat.ne_of_lt (chunk_some (by decide) more))

theorem ataBlockWrite_right (early : FailsEarly fails r.count) (s : BlockState) : WriteRight r.lba r.count fails s
    (Ata.ataBlockWrite true fails r.lba r.count s).2 (Ata.ataBlockWrite true fails r.lba r.count s).1 := by
  let Inv : Nat → BlockState → Prop := fun done s' => HasWritten r.lba r.count s done s' ∧ (done = r.count ∨ Complete fails done)
  have step : ∀ done s', done < r.count → Inv done s' →
      (Ata.writeRound true fails r.lba done (min (r.count - done) 255) s').1 ≤ min (r.count - done) 255 ∧
        Inv (done + (Ata.writeRound true fails r.lba done (min (r.count - done) 255) s').1)
          (Ata.writeRound true fails r.lba done (min (r.count - done) 255) s').2 := by
    rintro done s' more ⟨inv, progress⟩
    have complete := progress.resolve_left (Nat.ne_of_lt more)
    have early' := early done more complete
    have some_ : 1 ≤ min (r.count - done) 255 := chunk_some (by decide) more
    have kept := Ata.writeRound_right inv some_ (Nat.min_le_right _ _) (chunk_within more) r.small r.reach early'
    obtain ⟨most, -, all, none_⟩ := Ata.writeRound_count fails s' some_ (Nat.min_le_right _ _) (chunk_within more)
      r.small r.reach
    refine ⟨most, kept, ?_⟩
    rcases early' with clean | error
    · rw [all clean]
      rcases Nat.le_total (r.count - done) 255 with last | full
      · rw [Nat.min_eq_left last]
        exact Or.inl (Nat.add_sub_cancel' (Nat.le_of_lt more))
      · rw [Nat.min_eq_right full]
        exact Or.inr (complete.next clean)
    · rw [none_ error]
      exact progress
  have start : Inv 0 s := ⟨HasWritten.start s, Or.inr ⟨0, rfl, fun k' none_ => absurd none_ (Nat.not_lt_zero k')⟩⟩
  have result : Inv (chunked 255 r.count (Ata.writeRound true fails r.lba) s).1 (chunked 255 r.count (Ata.writeRound true fails r.lba) s).2 ∧
      (chunked 255 r.count (Ata.writeRound true fails r.lba) s).1 ≤ r.count := chunked_invariant step start
  unfold Ata.ataBlockWrite
  dsimp only
  refine result.1.1.right r.small result.2 fun clean => ?_
  exact chunked_complete (by decide) fun done s' more => (Ata.writeRound_count fails s' (chunk_some (by decide) more) (Nat.min_le_right _ _)
    (chunk_within more) r.small r.reach).2.2.1 (clean done more)

theorem early_of_right (right : ∀ s, WriteRight r.lba r.count fails s (Ata.ataBlockWrite true fails r.lba r.count s).2
    (Ata.ataBlockWrite true fails r.lba r.count s).1) : FailsEarly fails r.count := by
  intro bad inside complete
  by_contra late
  rw [not_or] at late
  let start : BlockState := ⟨fun _ => 0, fun _ => 1, []⟩
  let Inv : Nat → BlockState → Prop := fun done s' => s'.disk (512 * (r.lba + bad)) = 0 ∧ (bad < done ∨ done ≤ bad ∧ Complete fails done)
  have step : ∀ done s', done < r.count → Inv done s' →
      (Ata.writeRound true fails r.lba done (min (r.count - done) 255) s').1 ≤ min (r.count - done) 255 ∧
        Inv (done + (Ata.writeRound true fails r.lba done (min (r.count - done) 255) s').1)
          (Ata.writeRound true fails r.lba done (min (r.count - done) 255) s').2 := by
    rintro done s' more ⟨old, place⟩
    have some_ : 1 ≤ min (r.count - done) 255 := chunk_some (by decide) more
    obtain ⟨most, late', all, -⟩ := Ata.writeRound_count fails s' some_ (Nat.min_le_right _ _) (chunk_within more)
      r.small r.reach
    have intact := fun outside => (Ata.writeRound_disk fails s' (x := 512 * (r.lba + bad)) some_ (Nat.min_le_right _ 255)
      (chunk_within more) r.small r.reach outside).trans old
    refine ⟨most, ?_⟩
    rcases place with behind | ⟨le, progress⟩
    · exact ⟨intact (Or.inr (Or.inl (by omega))), Or.inl (by omega)⟩
    · rcases Nat.lt_or_eq_of_le le with less | rfl
      · obtain ⟨clean, room⟩ := complete.before progress less
        have full : min (r.count - done) 255 = 255 := by omega
        have same := intact (Or.inr (Or.inr (by omega)))
        rw [full] at all same ⊢
        rw [all clean]
        exact ⟨same, Or.inr ⟨room, progress.next clean⟩⟩
      · exact ⟨intact (Or.inl late.1), Or.inl (Nat.lt_add_of_pos_right (late' late.2))⟩
  have first : Inv 0 start := ⟨rfl, Or.inr ⟨Nat.zero_le _, 0, rfl, fun k' none_ => absurd none_ (Nat.not_lt_zero k')⟩⟩
  have result : Inv (chunked 255 r.count (Ata.writeRound true fails r.lba) start).1
      (chunked 255 r.count (Ata.writeRound true fails r.lba) start).2 ∧
        (chunked 255 r.count (Ata.writeRound true fails r.lba) start).1 ≤ r.count := chunked_invariant step first
  have counted : bad < (chunked 255 r.count (Ata.writeRound true fails r.lba) start).1 := by
    rcases chunked_stopped step first with all | ⟨s', ⟨-, behind | ⟨le, progress⟩⟩, more, stopped⟩
    · rw [all]
      exact inside
    · exact behind
    · obtain ⟨-, late', all, -⟩ := Ata.writeRound_count fails s' (chunk_some (by decide) more) (Nat.min_le_right _ 255)
        (chunk_within more) r.small r.reach
      have progressed : 1 ≤ 0 := by
        rw [← stopped]
        refine late' fun early => ?_
        rcases Nat.lt_or_eq_of_le le with less | same
        · rw [(complete.before progress less).1] at early
          cases early
        · rw [same] at early
          exact late.2 early
      exact absurd progressed (by decide)
  have sector := (right start).sector bad 0
  unfold Ata.ataBlockWrite at sector
  dsimp only at sector
  rw [wrapInt_small (Nat.lt_of_le_of_lt result.2 r.small), Nat.add_zero, result.1.1] at sector
  exact absurd (sector (Int.ofNat_lt.mpr counted) (by decide)) (show (0 : UInt8) ≠ 1 by decide)

end

/-- Requests are one transfer if and only if no write command of the ATA driver fails after its first block. -/
theorem blockIo_iff {sata : Device (2 ^ 48)} {ata : Device (2 ^ 28)} (d : Ahci.Driver) (fails : Failures) (r : Request sata)
    (r' : Request ata) : BlockIoRight d fails r r' ↔ FailsEarly fails r'.count :=
  ⟨fun right => early_of_right right.ataWrite, fun early => ⟨Ahci.ahciBlockRead_right d fails r, Ahci.ahciBlockWrite_right d fails r,
    ataBlockRead_right fails r', ataBlockWrite_right early⟩⟩

/-- A drive that accepts the block of a write command and then reports an error: the sector is counted, but the disk does not
have it. -/
theorem ataBlockWrite_late :
    let r := Ata.ataBlockWrite true (fun _ => some 1) 0 1 ⟨fun _ => 0, fun _ => 1, []⟩
    r.1 = 1 ∧ r.2.disk 0 = 0 ∧ r.2.buf 0 = 1 ∧ ¬ WriteRight 0 1 (fun _ => some 1) ⟨fun _ => 0, fun _ => 1, []⟩ r.2 r.1 := by
  refine ⟨by decide +kernel, by decide +kernel, by decide +kernel, fun right => ?_⟩
  exact absurd (right.sector 0 0 (by decide +kernel) (by decide)) (by decide +kernel)

end RexOs.Drivers
