import RexOs.Fs.FatCreate
import RexOs.Fs.FatFuel
import RexOs.Library.Run

/-! FAT32 files refine byte arrays in every history of creations, writes and reads.

The step relation admits every creation, every read and every write that starts at or
before the end of the file and ends below 4 GiB.
-/

set_option autoImplicit false

namespace RexOs.Fs

open RexOs.Library

inductive Op where
  | create (d : Nat) (name : List UInt8)
  | write (i offset : Nat) (buffer : List UInt8)
  | read (i offset size : Nat)

inductive Step (dev : Device) (v : Volume) : State → Op → State → Prop where
  | create {fs fs' : State} {d : Nat} {name : List UInt8} {child : Option Nat} :
      Returns (fun fuel => fat32CreateImpl dev v fuel fs d name) (child, fs') → Step dev v fs (.create d name) fs'
  | write {fs fs' : State} {i offset n : Nat} {buffer : List UInt8} :
      (∀ p, fs.nodes[i]? = some p → offset ≤ p.size) → offset + buffer.length < 2 ^ 32 →
      Returns (fun fuel => fat32Write dev v fuel fs i offset buffer) (n, fs') → Step dev v fs (.write i offset buffer) fs'
  | read {fs fs' : State} {i offset size : Nat} {out : List UInt8} :
      offset + size < 2 ^ 64 → Returns (fun fuel => fat32Read dev v fuel fs i offset size) (out, fs') →
      Step dev v fs (.read i offset size) fs'

section
variable {dev : Device} {v : Volume} {clusters : Nat} {closed : List Entry} {fs fs' start : State} {ops : List Op}

theorem step_wellFormed (ok : Reliable dev) {op : Op} (formed : WellFormed v clusters closed fs)
    (step : Step dev v fs op fs') : WellFormed v clusters closed fs' := by
  cases step with
  | @create _ d name _ returns =>
    exact (returns.holds (fat32CreateImpl_settles dev v fs d name) fun _ enough =>
      fat32CreateImpl_ok ok formed d name enough).formed
  | @write _ i offset n buffer le bound returns =>
    rcases node_or_other fs i false with ⟨p, found, file⟩ | other
    · obtain ⟨_, p', cs', phase, _⟩ := returns.holds (fat32Write_settles dev v fs i offset buffer) fun _ enough =>
        fat32Write_ok ok formed found file (le p found) bound enough
      exact ⟨formed.geometry, cs', phase.own⟩
    · obtain ⟨fuel, returned⟩ := returns
      cases (fat32Write_other other buffer).symm.trans returned
      exact formed
  | @read _ i offset size out bound returns =>
    rcases node_or_other fs i false with ⟨p, found, file⟩ | other
    · obtain ⟨t, same⟩ := returns.holds (fat32Read_settles dev v fs i offset size) fun _ enough =>
        fat32Read_ok ok formed found file bound enough
      cases same
      exact ⟨formed.geometry, formed.owned⟩
    · obtain ⟨fuel, returned⟩ := returns
      cases (fat32Read_other other size).symm.trans returned
      exact formed

theorem run_wellFormed (ok : Reliable dev) (formed : WellFormed v clusters closed start)
    (run : Run (Step dev v) start ops fs) : WellFormed v clusters closed fs :=
  run.invariant _ formed fun _ _ _ formed step => step_wellFormed ok formed step

/-- In every history a write is a write of an array of bytes and a read is a read of one. -/
theorem fat32_refines_arrays (ok : Reliable dev) (formed : WellFormed v clusters closed start)
    (run : Run (Step dev v) start ops fs) :
    (∀ i p offset buffer, fs.nodes[i]? = some p → p.isDir = false → offset ≤ p.size →
      offset + buffer.length < 2 ^ 32 →
      ∃ n fs', Returns (fun fuel => fat32Write dev v fuel fs i offset buffer) (n, fs') ∧ n ≤ buffer.length ∧
        (∃ p', fs'.nodes = fs.nodes.set i p' ∧ p'.isDir = false ∧ contents v fs'.disk p'.toEntry =
          splice (contents v fs.disk p.toEntry) offset (buffer.take n)) ∧
        Keeps v (objects fs.nodes closed) (some (.inl i)) fs.disk fs'.disk) ∧
    ∀ i p offset size, fs.nodes[i]? = some p → p.isDir = false → offset + size < 2 ^ 64 →
      ∃ fs', Returns (fun fuel => fat32Read dev v fuel fs i offset size)
          (((contents v fs.disk p.toEntry).drop offset).take size, fs') ∧
        fs'.nodes = fs.nodes ∧ fs'.disk = fs.disk := by
  have formed := run_wellFormed ok formed run
  constructor
  · intro i p offset buffer found file le bound
    obtain ⟨⟨n, fs'⟩, returns, fits, p', cs', phase, equal⟩ :=
      Safe.returns (f := fun fuel => fat32Write dev v fuel fs i offset buffer)
        (fat32Write_ok ok formed found file le bound (Nat.lt_succ_self _))
    exact ⟨n, fs', returns, fits, ⟨p', phase.nodes, phase.file, equal⟩, phase.keeps⟩
  · intro i p offset size found file bound
    obtain ⟨_, returns, t, rfl⟩ := Safe.returns (f := fun fuel => fat32Read dev v fuel fs i offset size)
      (fat32Read_ok ok formed found file bound (Nat.lt_succ_self _))
    exact ⟨fs.after fs.disk t, returns, rfl, rfl⟩

def smallVolume : Volume :=
  { fatStartLba := 1, clusterBeginLba := 3, sectorsPerCluster := 1, bytesPerCluster := 512, rootCluster := 2,
    fatSize := 1 }

def smallDisk : Mem := fun a =>
  if 512 ≤ a ∧ a < 1536 ∧ ¬ (16 ≤ a % 512 ∧ a % 512 < 24) then 0xFF else 0

def rootNode : Node :=
  { isDir := true, startCluster := 2, size := 0, direntSector := 0, direntOff := 0
    name := [], length := 0, children := [1], childrenCap := 8, childrenLoaded := true }

def fileNode : Node :=
  { isDir := false, startCluster := 3, size := 3, direntSector := 3, direntOff := 0
    name := [97], length := 3, children := [], childrenCap := 0, childrenLoaded := false }

def oneFile : State := ⟨smallDisk, [rootNode, fileNode], 0⟩

theorem smallVolume_geometry : Geometry smallVolume 4 :=
  ⟨by decide, by decide, by decide, by decide, by decide, by decide, by decide, by decide⟩

theorem smallDisk_free : FreeInside smallVolume 4 smallDisk := by
  have inside : ∀ c < 128, 2 ≤ c → entry smallVolume smallDisk c = 0 → c < 4 + 2 := by decide +kernel
  exact fun c two listed => inside c listed two

theorem smallDisk_chain {c : Nat} (inside : InVolume 4 c) (ends : clusterEndMark ≤ entry smallVolume smallDisk c) :
    IsChain smallVolume 4 smallDisk c [c] := IsChain.single ends inside

theorem oneFile_objects {o : Object} {e : Entry} (found : objects oneFile.nodes [] o = some e) :
    o = .inl 0 ∧ e = rootNode.toEntry ∨ o = .inl 1 ∧ e = fileNode.toEntry := by
  rcases o with i | j
  · match i with
    | 0 => exact Or.inl ⟨rfl, (Option.some.inj found).symm⟩
    | 1 => exact Or.inr ⟨rfl, (Option.some.inj found).symm⟩
    | _ + 2 => simp [objects, oneFile] at found
  · simp [objects] at found

def oneFileChains : Object → List Nat
  | .inl i => [i + 2]
  | .inr _ => []

theorem oneFile_owned {m : Mem} (same : ∀ c < 128, entry smallVolume m c = entry smallVolume smallDisk c) :
    WellFormed smallVolume 4 [] { oneFile with disk := m } := by
  have chain (c : Nat) (inside : InVolume 4 c) (ends : clusterEndMark ≤ entry smallVolume smallDisk c) :
      IsChain smallVolume 4 m c [c] := by
    rw [← same c (Nat.lt_trans inside.2 (by decide))] at ends
    exact IsChain.single ends inside
  have free : FreeInside smallVolume 4 m := smallDisk_free.congr fun c listed zero => by rwa [← same c listed]
  refine ⟨smallVolume_geometry, oneFileChains, free, ?_, ?_, ?_, ?_, ?_⟩
  · intro o e found
    rcases oneFile_objects found with ⟨rfl, rfl⟩ | ⟨rfl, rfl⟩
    · exact chain 2 ⟨by decide, by decide⟩ (by decide +kernel)
    · exact chain 3 ⟨by decide, by decide⟩ (by decide +kernel)
  · intro o e found file
    rcases oneFile_objects found with ⟨rfl, rfl⟩ | ⟨rfl, rfl⟩
    · cases file
    · decide
  · intro o o' e e' found found' ne c member
    rcases oneFile_objects found with ⟨rfl, rfl⟩ | ⟨rfl, rfl⟩ <;>
      rcases oneFile_objects found' with ⟨rfl, rfl⟩ | ⟨rfl, rfl⟩ <;> simp_all [oneFileChains]
  · intro i e found file real
    rcases oneFile_objects found with ⟨_, rfl⟩ | ⟨_, rfl⟩
    · cases file
    · exact ⟨.inl 0, rootNode.toEntry, rfl, rfl, 2, by decide, 0, by decide, 0, by decide, rfl, rfl⟩
  · intro j e found
    simp [objects] at found

theorem oneFile_wellFormed : WellFormed smallVolume 4 [] oneFile := oneFile_owned fun _ _ => rfl

/-- A file is created beside the one of `oneFile`, a byte is appended to it, and it is read. -/
theorem fat32_refines_arrays_append : ∃ fs p fs', Run (Step reliable smallVolume) oneFile
      [.create 0 [98], .write 1 3 [7]] fs ∧ fs.nodes[1]? = some p ∧
    Returns (fun fuel => fat32Read reliable smallVolume fuel fs 1 0 4)
      (((contents smallVolume fs.disk p.toEntry).drop 0).take 4, fs') := by
  have ok := reliable_ok
  obtain ⟨⟨child, fs₁⟩, returns, created⟩ := Safe.returns
    (f := fun fuel => fat32CreateImpl reliable smallVolume fuel oneFile 0 [98])
    (fat32CreateImpl_ok ok oneFile_wellFormed 0 [98] (Nat.lt_succ_self _))
  have other : some 1 ≠ child := fun same => by cases (created.empty 1 same.symm).1
  obtain ⟨p₁, found₁, kept⟩ := Option.map_eq_some_iff.mp ((created.same 1 other).trans rfl : _ = some fileNode.toEntry)
  have isFile : p₁.isDir = false := congrArg Entry.isDir kept
  have size : p₁.size = 3 := congrArg Entry.size kept
  have run₁ : Run (Step reliable smallVolume) oneFile [.create 0 [98]] fs₁ := Run.nil.snoc (.create returns)
  -- the byte goes to the end of the file
  obtain ⟨n, fs₂, written, _, ⟨p₂, nodes, isFile₂, _⟩, _⟩ :=
    (fat32_refines_arrays ok oneFile_wellFormed run₁).1 1 p₁ 3 [7] found₁ isFile (Nat.le_of_eq size.symm) (by decide)
  have le : ∀ p, fs₁.nodes[1]? = some p → 3 ≤ p.size := by
    intro p found
    rw [found₁] at found
    cases found
    exact Nat.le_of_eq size.symm
  have run₂ : Run (Step reliable smallVolume) oneFile [.create 0 [98], .write 1 3 [7]] fs₂ :=
    run₁.snoc (.write le (by decide) written)
  have inside : 1 < fs₁.nodes.length := (List.getElem?_eq_some_iff.mp found₁).1
  have found₂ : fs₂.nodes[1]? = some p₂ := by rw [nodes, List.getElem?_set_self inside]
  obtain ⟨fs₃, read, _⟩ := (fat32_refines_arrays ok oneFile_wellFormed run₂).2 1 p₂ 0 4 found₂ isFile₂ (by decide)
  exact ⟨fs₂, p₂, fs₃, run₂, found₂, read⟩

end

/-! The clusters that the call adds are filled with zeros. The clusters that the file had before are
not touched, so the gap reads as zeros only if they have zeros there. A file that was just
created has a cluster with the bytes of whoever had it before.
-/

variable {dev : Device} {v : Volume} {clusters : Nat} {closed : List Entry} {fs fs' : State} {i offset : Nat}
variable {p : Node} {buffer : List UInt8}

def GapClear (v : Volume) (m : Mem) (p : Node) (offset : Nat) : Prop :=
  ∀ x, p.size ≤ x → x < offset → x < (chain v m p.startCluster).length * v.bytesPerCluster →
    fileByte v m (chain v m p.startCluster) x = 0

theorem fat32Write_gap (ok : Reliable dev) (formed : WellFormed v clusters closed fs) (found : fs.nodes[i]? = some p)
    (file : p.isDir = false) (gap : p.size < offset) {fuel : Nat} (enough : offset + buffer.length < fuel) :
    Safe (fat32Write dev v fuel fs i offset buffer) fun r => 0 < r.1 → ∃ p' cs',
      Phase v clusters closed fs i p' r.2 cs' ∧ p'.size = u32 (offset + r.1) ∧
      offset < (cs' (.inl i)).length * v.bytesPerCluster ∧
      ∀ x < offset, fileByte v r.2.disk (cs' (.inl i)) x =
        if x < (chain v fs.disk p.startCluster).length * v.bytesPerCluster then
          fileByte v fs.disk (chain v fs.disk p.startCluster) x
        else 0 := by
  obtain ⟨geo, cs, own⟩ := formed
  rw [(own.chains _ _ (objects_node found closed)).chain_eq geo]
  refine (fat32Write_effect ok geo own found file enough).mono fun r effect positive => ?_
  cases effect with
  | empty => cases positive
  | unplaced => cases positive
  | unreached => cases positive
  | @written start fs₁ cs₁ m ds n t begins writes some fits reach short =>
    obtain ⟨cs', final, clusters_, kept⟩ := begins.phase.grown ok geo writes (by simp only; omega) reach t
    refine ⟨_, cs', final, rfl, by rw [clusters_]; omega, ?_⟩
    intro x before
    have within : x < ds.length * v.bytesPerCluster := by omega
    have longer := Nat.mul_le_mul_right v.bytesPerCluster begins.longer
    rw [clusters_]
    refine (kept x within).trans ?_
    rw [writes.bytes x within, if_neg (by omega)]
    by_cases old : x < (cs₁ (.inl i)).length * v.bytesPerCluster
    · rw [if_pos old, begins.bytes x old]
    · rw [if_neg old, if_neg (by omega)]

theorem zero_range_iff {f : Nat → UInt8} {size low high : Nat} (order : low < high) :
    (((List.range size).map f).drop low).take (high - low) = List.replicate (high - low) 0 ↔
      high ≤ size ∧ ∀ x, low ≤ x → x < high → f x = 0 := by
  constructor
  · intro zeros
    have length := congrArg List.length zeros
    simp only [List.length_take, List.length_drop, List.length_map, List.length_range, List.length_replicate] at length
    refine ⟨by omega, ?_⟩
    intro x above below
    have byte := congrArg (·[x - low]?) zeros
    simp only [List.getElem?_take, List.getElem?_drop, List.getElem?_map, List.getElem?_replicate] at byte
    rw [if_pos (by omega), if_pos (by omega), Nat.add_sub_cancel' above, List.getElem?_range (by omega)] at byte
    exact Option.some.inj byte
  · rintro ⟨inside, zero⟩
    apply List.ext_getElem
    · simp only [List.length_take, List.length_drop, List.length_map, List.length_range, List.length_replicate]
      omega
    · intro k _ small
      rw [List.length_replicate] at small
      simp only [List.getElem_take, List.getElem_drop, List.getElem_map, List.getElem_range, List.getElem_replicate]
      exact zero _ (Nat.le_add_right _ _) (by omega)

/-- The gap reads as zeros if and only if the recorded size reaches the offset and the clusters that
the file had were clear. -/
theorem gap_reads_zero (ok : Reliable dev) (formed : WellFormed v clusters closed fs) (found : fs.nodes[i]? = some p)
    (file : p.isDir = false) (gap : p.size < offset) (data : 0 < buffer.length)
    (writes : Returns (fun fuel => fat32Write dev v fuel fs i offset buffer) (buffer.length, fs')) :
    (∃ fs'', Returns (fun fuel => fat32Read dev v fuel fs' i p.size (offset - p.size))
        (List.replicate (offset - p.size) 0, fs'')) ↔
      offset ≤ u32 (offset + buffer.length) ∧ GapClear v fs.disk p offset := by
  obtain ⟨p', cs', phase, size, reach, bytes⟩ := writes.holds (fat32Write_settles dev v fs i offset buffer)
    (fun _ enough => fat32Write_gap ok formed found file gap enough) data
  have geo := formed.geometry
  have formed' : WellFormed v clusters closed fs' := ⟨geo, cs', phase.own⟩
  have word : p.size + (offset - p.size) < 2 ^ 64 := by
    have := phase.chain.bytes_lt geo
    omega
  have reads (fuel : Nat) (enough : p'.size < fuel) : Safe (fat32Read dev v fuel fs' i p.size (offset - p.size)) fun r =>
      ∃ t, r = (((contents v fs'.disk p'.toEntry).drop p.size).take (offset - p.size), fs'.after fs'.disk t) :=
    fat32Read_ok ok formed' phase.node phase.file word enough
  rw [← size, GapClear]
  -- The gap is zero in the new clusters, and what it was in the old ones.
  have clear : (∀ x, p.size ≤ x → x < offset → fileByte v fs'.disk (cs' (.inl i)) x = 0) ↔
      ∀ x, p.size ≤ x → x < offset → x < (chain v fs.disk p.startCluster).length * v.bytesPerCluster →
        fileByte v fs.disk (chain v fs.disk p.startCluster) x = 0 := by
    refine forall_congr' fun x => forall_congr' fun _ => forall_congr' fun before => ?_
    rw [bytes x before]
    split
    · rename_i old
      exact ⟨fun zero _ => zero, fun zero => zero old⟩
    · rename_i fresh
      exact ⟨fun _ old => absurd old fresh, fun _ => rfl⟩
  rw [← clear, ← zero_range_iff gap, ← phase.contents_chain geo]
  constructor
  · rintro ⟨fs'', returns⟩
    obtain ⟨t, same⟩ := returns.holds (fat32Read_settles dev v fs' i p.size (offset - p.size)) reads
    exact (Prod.mk.inj same).1.symm
  · intro zeros
    obtain ⟨_, returns, t, rfl⟩ := Safe.returns (f := fun fuel => fat32Read dev v fuel fs' i p.size (offset - p.size))
      (reads (p'.size + 1) (Nat.lt_succ_self _))
    rw [zeros] at returns
    exact ⟨_, returns⟩

section
variable {α : Type}

def outcome (r : Except Fault (α × State)) (fs : State) : State :=
  match r with
  | .ok (_, fs') => fs'
  | .error _ => fs

theorem outcome_eq {r : Except Fault (α × State)} {a : α} (fs : State) (first : r.toOption.map Prod.fst = some a) :
    r = .ok (a, outcome r fs) := by
  cases r with
  | error _ => cases first
  | ok r =>
    cases r with
    | mk b fs' =>
      cases first
      rfl

end

/-- The file of `oneFile` has three bytes and a cluster of zeros. -/
theorem gap_reads_zero_oneFile : ∃ fs' fs'',
    Returns (fun fuel => fat32Write reliable smallVolume fuel oneFile 1 10 [7]) (1, fs') ∧
      Returns (fun fuel => fat32Read reliable smallVolume fuel fs' 1 3 7) (List.replicate 7 0, fs'') := by
  have wrote : (fat32Write reliable smallVolume 20 oneFile 1 10 [7]).toOption.map Prod.fst = some 1 := by decide +kernel
  have wrote := outcome_eq oneFile wrote
  have clear : ∀ x < 10, 3 ≤ x → x < 512 → fileByte smallVolume smallDisk [3] x = 0 := by decide +kernel
  have one : chain smallVolume smallDisk 3 = [3] := by decide +kernel
  have gap : GapClear smallVolume oneFile.disk fileNode 10 := by
    intro x low high within
    rw [show chain smallVolume oneFile.disk fileNode.startCluster = [3] from one] at within ⊢
    exact clear x high low within
  obtain ⟨fs'', read⟩ := (gap_reads_zero reliable_ok oneFile_wellFormed rfl rfl (by decide) (by decide)
    ⟨20, wrote⟩).mpr ⟨by decide, gap⟩
  exact ⟨_, fs'', ⟨20, wrote⟩, read⟩

def staleDisk : Mem := fun a => if 2560 ≤ a ∧ a < 3072 then 0x41 else smallDisk a

def staleCluster : State := { oneFile with disk := staleDisk }

theorem staleCluster_wellFormed : WellFormed smallVolume 4 [] staleCluster := oneFile_owned (by decide +kernel)

def created : State := outcome (fat32CreateImpl reliable smallVolume 20 staleCluster 0 [98]) staleCluster

def sparse : State := outcome (fat32Write reliable smallVolume 20 created 2 4 [7]) created

theorem created_file_leaks : ¬ ∀ dev v clusters closed start ops fs i p offset buffer fs', Reliable dev →
    WellFormed v clusters closed start → Run (Step dev v) start ops fs → fs.nodes[i]? = some p → p.isDir = false →
    p.size < offset → 0 < buffer.length → offset + buffer.length < 2 ^ 32 →
    Returns (fun fuel => fat32Write dev v fuel fs i offset buffer) (buffer.length, fs') →
    ∃ fs'', Returns (fun fuel => fat32Read dev v fuel fs' i p.size (offset - p.size))
      (List.replicate (offset - p.size) 0, fs'') := by
  intro all
  have creates : fat32CreateImpl reliable smallVolume 20 staleCluster 0 [98] = .ok (some 2, created) :=
    outcome_eq staleCluster (by decide +kernel)
  have writes : fat32Write reliable smallVolume 20 created 2 4 [7] = .ok (1, sparse) :=
    outcome_eq created (by decide +kernel)
  have reads : fat32Read reliable smallVolume 20 sparse 2 0 4 = .ok ([0x41, 0x41, 0x41, 0x41], _) :=
    outcome_eq sparse (by decide +kernel)
  have node : (created.nodes[2]?.map fun p => (p.isDir, p.size)) = some (false, 0) := by decide +kernel
  obtain ⟨p, found, fields⟩ := Option.map_eq_some_iff.mp node
  obtain ⟨file, size⟩ := Prod.mk.inj fields
  have run : Run (Step reliable smallVolume) staleCluster [.create 0 [98]] created := Run.nil.snoc (.create ⟨20, creates⟩)
  obtain ⟨fs'', zeros⟩ := all reliable smallVolume 4 [] staleCluster _ created 2 p 4 [7] sparse reliable_ok
    staleCluster_wellFormed run found file (by omega) (by decide) (by decide) ⟨20, writes⟩
  rw [size] at zeros
  -- Every read with enough fuel gives the bytes of the file that is gone.
  have same := zeros.holds (fat32Read_settles reliable smallVolume sparse 2 0 4) fun fuel (enough : 20 < fuel) =>
    (⟨_, (fat32Read_settles reliable smallVolume sparse 2 0 4).le reads (Nat.le_of_lt enough), rfl⟩ :
      Safe (fat32Read reliable smallVolume fuel sparse 2 0 4) fun r => r.1 = [0x41, 0x41, 0x41, 0x41])
  cases same

end RexOs.Fs
