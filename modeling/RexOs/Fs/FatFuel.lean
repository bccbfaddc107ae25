import RexOs.Fs.Fat32Dir
import RexOs.Library.Safe

/-! More fuel does not change what a call returns. -/

set_option autoImplicit false

namespace RexOs.Fs

open RexOs.Library

section
variable (dev : Device) (v : Volume)

theorem skipLoop_settles (offset cluster clusterOffset : Nat) (fs : State) :
    Settles fun fuel => skipLoop dev v offset fuel cluster clusterOffset fs := by
  intro fuel
  induction fuel generalizing cluster clusterOffset fs with
  | zero => exact nofun
  | succ fuel ih =>
    intro r
    dsimp only
    rw [skipLoop, skipLoop]
    refine ite_returns ?_ id
    dsimp only
    exact ite_returns id (ih _ _ _ r)

theorem readLoop_settles (offset size cluster clusterOffset : Nat) (out : List UInt8) (fs : State) :
    Settles fun fuel => readLoop dev v offset size fuel cluster clusterOffset out fs := by
  intro fuel
  induction fuel generalizing cluster clusterOffset out fs with
  | zero => exact nofun
  | succ fuel ih =>
    intro r
    dsimp only
    rw [readLoop, readLoop]
    refine ite_returns ?_ id
    obtain ⟨buf, fs'⟩ := readCluster dev v fs cluster
    cases buf with
    | none => exact id
    | some cbuf => exact ih _ _ _ _ r

theorem seekLoop_settles (offset : Nat) (at_ : Cursor) (fs : State) :
    Settles fun fuel => seekLoop dev v offset fuel at_ fs := by
  intro fuel
  induction fuel generalizing at_ fs with
  | zero => exact nofun
  | succ fuel ih =>
    intro r
    dsimp only
    rw [seekLoop, seekLoop]
    refine ite_returns ?_ id
    dsimp only
    exact ite_returns (ite_returns id (ih _ _ r)) (ih _ _ r)

theorem writeLoop_settles (start offset : Nat) (buffer : List UInt8) (at_ : Cursor) (outPos : Nat) (fs : State) :
    Settles fun fuel => writeLoop dev v start offset buffer fuel at_ outPos fs := by
  intro fuel
  induction fuel generalizing at_ outPos fs with
  | zero => exact nofun
  | succ fuel ih =>
    intro r
    dsimp only
    rw [writeLoop, writeLoop]
    refine ite_returns ?_ id
    obtain ⟨target, fs'⟩ := writeTarget dev v start at_ fs
    cases target with
    | none => exact id
    | some cluster =>
      dsimp only
      obtain ⟨buf, fs''⟩ := readCluster dev v fs' cluster
      cases buf with
      | none => exact id
      | some cbuf => exact ih _ _ _ r

theorem fat32FindFreeDirent_settles (cluster : Nat) (fs : State) :
    Settles fun fuel => fat32FindFreeDirent dev v fuel fs cluster := by
  intro fuel
  induction fuel generalizing cluster fs with
  | zero => exact nofun
  | succ fuel ih =>
    intro r
    dsimp only
    rw [fat32FindFreeDirent, fat32FindFreeDirent]
    refine ite_returns ?_ id
    obtain ⟨place, fs'⟩ := freeSectorLoop dev (clusterToLba v cluster) v.sectorsPerCluster 0 fs
    cases place with
    | some place => exact id
    | none => exact ih _ _ r

theorem fat32Read_settles (fs : State) (i offset size : Nat) :
    Settles fun fuel => fat32Read dev v fuel fs i offset size := by
  unfold fat32Read
  cases fs.nodes[i]? with
  | none => exact Settles.const _
  | some p =>
    refine Settles.ite (Settles.const _) (Settles.ite (Settles.const _) ?_)
    refine Settles.bind (skipLoop_settles dev v _ _ _ fs) ?_
    rintro ⟨place, fs'⟩
    cases place with
    | none => exact Settles.const _
    | some place => exact readLoop_settles dev v _ _ _ _ _ _

theorem fat32Write_settles (fs : State) (i offset : Nat) (buffer : List UInt8) :
    Settles fun fuel => fat32Write dev v fuel fs i offset buffer := by
  unfold fat32Write
  cases fs.nodes[i]? with
  | none => exact Settles.const _
  | some p =>
    refine Settles.ite (Settles.const _) (Settles.ite (Settles.const _) ?_)
    dsimp only
    obtain ⟨start, fs'⟩ := firstCluster dev v fs i p.startCluster
    cases start with
    | none => exact Settles.const _
    | some start =>
      refine Settles.bind (seekLoop_settles dev v _ _ _) ?_
      rintro ⟨at_, fs''⟩
      cases at_ with
      | none => exact Settles.const _
      | some at_ => exact Settles.bind (writeLoop_settles dev v _ _ _ _ _ _) fun _ => Settles.const _

theorem fat32CreateImpl_settles (fs : State) (d : Nat) (name : List UInt8) :
    Settles fun fuel => fat32CreateImpl dev v fuel fs d name := by
  unfold fat32CreateImpl
  cases fs.nodes[d]? with
  | none => exact Settles.const _
  | some dp =>
    refine Settles.ite ?_ (Settles.const _)
    exact Settles.bind (fat32FindFreeDirent_settles dev v _ _) fun _ => Settles.const _

end

end RexOs.Fs
