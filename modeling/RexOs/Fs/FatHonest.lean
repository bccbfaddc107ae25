import RexOs.Fs.FatFailures
import RexOs.Fs.FatOffsets
import RexOs.Fs.FatHistory
import RexOs.Fs.FatWindow

/-! What `fat32_write` promises with the number that it returns.

The driver does not look at the results of its block writes, and keeps the size of a file in 32
bits. So the number is honest if no write fails while the call runs and the size field can hold the
end of the data.
-/

set_option autoImplicit false

namespace RexOs.Fs

open RexOs.Library

variable {dev : Device} {v : Volume} {clusters start : Nat} {closed : List Entry} {fs fs' fs₁ : State} {m m' : Mem} {i : Nat}
variable {p p' : Node} {cs cs₁ : Object → List Nat} {a b c offset n : Nat} {e : Entry} {buffer : List UInt8} {ds ds' : List Nat}
variable {g : Nat → UInt8}

def freeClusters (v : Volume) (clusters : Nat) (m : Mem) : Finset Nat :=
  (Finset.range (clusters + 2)).filter fun c => 2 ≤ c ∧ entry v m c = 0

theorem mem_freeClusters : c ∈ freeClusters v clusters m ↔ InVolume clusters c ∧ entry v m c = 0 := by
  simp only [freeClusters, Finset.mem_filter, Finset.mem_range, InVolume]
  constructor
  · rintro ⟨high, low, free⟩
    exact ⟨⟨low, high⟩, free⟩
  · rintro ⟨⟨low, high⟩, free⟩
    exact ⟨high, low, free⟩

theorem freeClusters_congr (geo : Geometry v clusters) (same : ∀ c < v.fatSize * entriesPerSec, entry v m' c = entry v m c) :
    freeClusters v clusters m' = freeClusters v clusters m := by
  ext c
  rw [mem_freeClusters, mem_freeClusters]
  constructor
  · rintro ⟨inside, free⟩
    exact ⟨inside, (same c (inside.listed geo)).symm.trans free⟩
  · rintro ⟨inside, free⟩
    exact ⟨inside, (same c (inside.listed geo)).trans free⟩

theorem Writes.room (geo : Geometry v clusters) (writes : Writes v clusters start m ds m' ds' a b g)
    (used : ∀ c ∈ ds, entry v m c ≠ 0) :
    ds'.length + (freeClusters v clusters m').card = ds.length + (freeClusters v clusters m).card := by
  -- the free clusters afterwards are those before without the new ones
  obtain ⟨new, rfl⟩ := writes.grows.more
  obtain ⟨-, nodup, apart⟩ := List.nodup_append.mp writes.chain.nodup
  have fresh : new.toFinset ⊆ freeClusters v clusters m := by
    intro c member
    have member := List.mem_toFinset.mp member
    have all : c ∈ ds ++ new := List.mem_append_right ds member
    exact mem_freeClusters.mpr ⟨writes.chain.inside c all, writes.grows.fresh c all fun old => apart c old c member rfl⟩
  have left : freeClusters v clusters m' = freeClusters v clusters m \ new.toFinset := by
    ext c
    rw [Finset.mem_sdiff, mem_freeClusters, mem_freeClusters, List.mem_toFinset]
    constructor
    · rintro ⟨inside, free⟩
      have out : c ∉ ds ++ new := fun member => writes.chain.nonzero member free
      rw [writes.grows.entries c (inside.listed geo) out] at free
      exact ⟨⟨inside, free⟩, fun member => out (List.mem_append_right ds member)⟩
    · rintro ⟨⟨inside, free⟩, out⟩
      have out : c ∉ ds ++ new := by
        intro member
        rcases List.mem_append.mp member with old | member
        · exact used c old free
        · exact out member
      exact ⟨inside, (writes.grows.entries c (inside.listed geo) out).trans free⟩
  have count := Finset.card_sdiff_add_card_eq_card fresh
  rw [List.toFinset_card_of_nodup nodup] at count
  rw [left, List.length_append]
  omega

theorem Full.none_free (ok : Reliable dev) (geo : Geometry v clusters) (full : Full dev v m) : freeClusters v clusters m = ∅ := by
  obtain ⟨fs, rfl, none⟩ := full
  apply Finset.eq_empty_of_forall_notMem
  intro c member
  obtain ⟨inside, free⟩ := mem_freeClusters.mp member
  rcases alloc_gives ok v fs with ⟨t, gives, noEntry⟩ | ⟨k, m, t, gives, first, -⟩
  · refine noEntry ⟨c, inside.listed geo, ?_, ?_⟩
    · rw [← geo.entry_word fs.disk (inside.listed geo)]
      exact free
    · have small := inside.small geo
      rw [u32, Nat.mod_eq_of_lt (by omega)]
      exact inside.1
  · -- cluster 0 is never given out
    rw [gives] at none
    have real := first.free.2
    omega

theorem setSizeField_same {off size : Nat} (buf : Mem) (fits : size < 2 ^ 32) :
    sizeField (setSizeField buf off size) off = if size = keepField then sizeField buf off else size := by
  rw [setSizeField]
  by_cases keep : size = keepField
  · rw [if_neg (not_not.mpr keep), if_pos keep]
  · rw [if_pos keep, if_neg keep, sizeField, load_store fits]

theorem setSizeField_cluster (buf : Mem) (off size : Nat) : clusterField (setSizeField buf off size) off = clusterField buf off := by
  rw [setSizeField]
  split
  · rw [clusterField, clusterField, load_store_apart (by omega), load_store_apart (by omega)]
  · rfl

theorem setClusterField_size (buf : Mem) (off c : Nat) : sizeField (setClusterField buf off c) off = sizeField buf off := by
  rw [setClusterField]
  split
  · rw [sizeField, sizeField, load_store_apart (by omega), load_store_apart (by omega)]
  · rfl

theorem setClusterField_same {off c : Nat} (buf : Mem) (fits : c < 2 ^ 32) :
    clusterField (setClusterField buf off c) off = if c = keepField then clusterField buf off else c := by
  rw [setClusterField]
  by_cases keep : c = keepField
  · rw [if_neg (not_not.mpr keep), if_pos keep]
  · obtain ⟨high, low, whole⟩ := cluster_halves fits
    rw [if_pos keep, if_neg keep, clusterField, load_store_apart (by omega), load_store high, load_store low, whole]

structure Recorded (m : Mem) (e : Entry) : Prop where
  real : e.direntSector ≠ 0
  cluster : clusterField m (slotAddr e) = e.startCluster
  size : sizeField m (slotAddr e) = e.size

theorem Recorded.same (recorded : Recorded m e) (same : SameEntry m (slotAddr e) m' (slotAddr e)) : Recorded m' e :=
  ⟨recorded.real, same.cluster.trans recorded.cluster, same.size.trans recorded.size⟩

theorem fat32UpdateDirent_fields (ok : Reliable dev) (found : fs.nodes[i]? = some p) (real : p.direntSector ≠ 0)
    (inside : p.direntOff + 32 ≤ sectorSize) {newSize newCluster : Nat} (size : newSize < 2 ^ 32) (cluster : newCluster < 2 ^ 32)
    (updated : fat32UpdateDirent dev fs i newSize newCluster = fs') :
    sizeField fs'.disk (slotAddr p.toEntry) =
        (if newSize = keepField then sizeField fs.disk (slotAddr p.toEntry) else newSize) ∧
      clusterField fs'.disk (slotAddr p.toEntry) =
        if newCluster = keepField then clusterField fs.disk (slotAddr p.toEntry) else newCluster := by
  have before : SameEntry fs.disk (slotAddr p.toEntry) (fun k => fs.disk (p.direntSector * sectorSize + k)) p.direntOff := by
    intro k _
    rw [slotAddr, Nat.add_assoc]
  have written (data : Mem) : SameEntry data p.direntOff (paste fs.disk (p.direntSector * sectorSize) (1 * sectorSize) data)
      (slotAddr p.toEntry) := by
    intro k small
    rw [slotAddr, Nat.one_mul, Nat.add_assoc, paste_inside _ (Nat.le_add_right _ _) (by omega), Nat.add_sub_cancel_left]
  rw [fat32UpdateDirent_eq ok found real] at updated
  rw [← updated, after_disk]
  constructor
  · rw [(written _).size, setClusterField_size, setSizeField_same _ size, before.size]
  · rw [(written _).cluster, setClusterField_same _ cluster, setSizeField_cluster, before.cluster]

theorem Slot.room (slot : Slot v ds e) : e.direntOff + 32 ≤ sectorSize := by
  obtain ⟨_, _, _, _, k, few, _, off⟩ := slot
  rw [off, sectorSize]
  omega

theorem fat32UpdateDirent_entry (ok : Reliable dev) (geo : Geometry v clusters) (found : fs.nodes[i]? = some p)
    (real : p.direntSector ≠ 0) (slot : Slot v ds p.toEntry) {newSize newCluster : Nat}
    (updated : fat32UpdateDirent dev fs i newSize newCluster = fs') (listed : c < v.fatSize * entriesPerSec) :
    entry v fs'.disk c = entry v fs.disk c := by
  obtain ⟨_, _, _, _, _, _, sector, _⟩ := slot
  rw [fat32UpdateDirent_eq ok found real] at updated
  rw [← updated, after_disk]
  refine entry_paste geo _ _ listed (Nat.mul_le_mul_right _ ?_)
  omega

theorem Owns.keeps_recorded {obj : Object → Option Entry} (own : Owns v clusters obj cs m) (geo : Geometry v clusters)
    (found : obj (.inl i) = some e) (file : e.isDir = false) (writes : Writes v clusters start m (cs (.inl i)) m' ds a b g)
    (recorded : Recorded m e) : Recorded m' e :=
  recorded.same (own.home_kept geo found file writes (own.homes i e found file recorded.real))

theorem Begins.recorded (ok : Reliable dev) (geo : Geometry v clusters)
    (own : Owns v clusters (objects fs.nodes closed) cs fs.disk) (found : fs.nodes[i]? = some p) (file : p.isDir = false)
    (begins : Begins dev v clusters closed fs i p cs start fs₁ cs₁) (recorded : Recorded fs.disk p.toEntry) :
    Recorded fs₁.disk { p.toEntry with startCluster := start } ∧
      (cs₁ (.inl i)).length + (freeClusters v clusters fs₁.disk).card =
        (cs (.inl i)).length + (freeClusters v clusters fs.disk).card := by
  have node := objects_node found closed
  have chain := begins.phase.chain.chain_eq geo
  obtain ⟨-, first⟩ | ⟨none, ⟨t, first, -⟩ | ⟨c, m, t, first, inside, writes⟩⟩ :=
    firstCluster_steps ok geo own.free i p.startCluster fun _ => 0
  · rw [begins.first] at first
    cases first
    rw [← chain, (own.chains _ _ node).chain_eq geo]
    exact ⟨recorded, rfl⟩
  · rw [begins.first] at first
    cases first
  · rw [begins.first] at first
    obtain ⟨is, updated⟩ := Prod.mk.inj first
    cases is
    obtain ⟨noCluster, -⟩ := own.empty node none file
    have writes : Writes v clusters start fs.disk (cs (.inl i)) m [start] 0 0 fun _ => 0 := by rwa [noCluster]
    have kept := own.keeps_recorded geo node file writes recorded
    obtain ⟨_, _, _, _, slot⟩ := own.homes i _ node file recorded.real
    have found' : ((fs.setNode i fun p => { p with startCluster := start }).after m t).nodes[i]? =
        some { p with startCluster := start } := by
      rw [after_nodes, setNode_nodes found, List.getElem?_set_self (List.getElem?_eq_some_iff.mp found).1]
    have below := inside.below geo
    simp only [clusterEndMark] at below
    obtain ⟨size, cluster⟩ := fat32UpdateDirent_fields ok found' recorded.real slot.room (by decide) (by omega) updated.symm
    have entries := fun c listed => @fat32UpdateDirent_entry dev v clusters _ _ i _ c _ ok geo found' recorded.real slot _ _
      updated.symm listed
    have one : cs₁ (.inl i) = [start] := by
      rw [← chain]
      exact (writes.chain.congr fun c member => entries c ((writes.chain.inside c member).listed geo)).chain_eq geo
    refine ⟨⟨recorded.real, ?_, ?_⟩, ?_⟩
    · rw [cluster, if_neg (by rw [keepField]; omega)]
    · rw [size, if_pos rfl]
      exact kept.size
    · rw [freeClusters_congr geo entries, one]
      exact writes.room geo fun c member => (own.chains _ _ node).nonzero member

theorem recordSize_fields (ok : Reliable dev) (geo : Geometry v clusters) (phase : Phase v clusters closed fs i p' fs₁ cs₁)
    (writes : Writes v clusters p'.startCluster fs₁.disk (cs₁ (.inl i)) m ds a b g) (recorded : Recorded fs₁.disk p'.toEntry)
    {newEnd : Nat} (grows : newEnd > p'.size) (t : Nat) :
    sizeField (recordSize dev (fs₁.after m t) i p'.size newEnd).disk (slotAddr p'.toEntry) =
        (if u32 newEnd = keepField then p'.size else u32 newEnd) ∧
      clusterField (recordSize dev (fs₁.after m t) i p'.size newEnd).disk (slotAddr p'.toEntry) = p'.startCluster := by
  have kept := phase.own.keeps_recorded geo phase.entry phase.file writes recorded
  obtain ⟨_, _, _, _, slot⟩ := phase.own.homes i _ phase.entry phase.file recorded.real
  rw [recordSize, if_pos grows]
  have found : ((fs₁.after m t).setNode i fun p => { p with size := u32 newEnd, length := newEnd }).nodes[i]? =
      some { p' with size := u32 newEnd, length := newEnd } := by
    have node : (fs₁.after m t).nodes[i]? = some p' := phase.node
    rw [setNode_nodes node, List.getElem?_set_self (List.getElem?_eq_some_iff.mp node).1]
  obtain ⟨size, cluster⟩ := fat32UpdateDirent_fields ok found recorded.real slot.room (Nat.mod_lt newEnd (by decide))
    (by decide : keepField < 2 ^ 32) rfl
  constructor
  · exact size.trans (by rw [← kept.size]; rfl)
  · exact cluster.trans ((if_pos rfl).trans kept.cluster)

/-- The first `n` bytes of the buffer are in the clusters of the file from the offset on, and the size
that is recorded is the old one or the end of these bytes. -/
structure Honest (v : Volume) (m : Mem) (p p' : Node) (offset : Nat) (buffer : List UInt8) (n : Nat) : Prop where
  count : n ≤ buffer.length
  stored : ∀ k < n, offset + k < (chain v m p'.startCluster).length * v.bytesPerCluster ∧
    fileByte v m (chain v m p'.startCluster) (offset + k) = buffer.getD k 0
  size : p'.size = if n = 0 then p.size else max p.size (offset + n)
  recorded : Recorded m p'.toEntry

/-- How many bytes the clusters of the file and the free ones have room for behind the offset. -/
def writable (v : Volume) (clusters : Nat) (m : Mem) (start offset size : Nat) : Nat :=
  min size (((chain v m start).length + (freeClusters v clusters m).card) * v.bytesPerCluster - offset)

/-- The file stays below `(uint32_t)-1` bytes, or does not grow. -/
def SizeFits (v : Volume) (clusters : Nat) (m : Mem) (p : Entry) (offset size : Nat) : Prop :=
  writable v clusters m p.startCluster offset size = 0 ∨
    offset + writable v clusters m p.startCluster offset size ≤ p.size ∨
    offset + writable v clusters m p.startCluster offset size < keepField

theorem WriteTail.count (ok : Reliable dev) (geo : Geometry v clusters) {size : Nat} (ch : IsChain v clusters fs₁.disk start ds)
    (tail : WriteTail dev v clusters start fs₁ i size ds offset buffer (n, fs')) :
    n = min buffer.length ((ds.length + (freeClusters v clusters fs₁.disk).card) * v.bytesPerCluster - offset) := by
  have used : ∀ c ∈ ds, entry v fs₁.disk c ≠ 0 := fun c member => ch.nonzero member
  cases tail with
  | unreached t extended short full =>
    have room := extended.room geo used
    rw [full.none_free ok geo, Finset.card_empty, Nat.add_zero] at room
    rw [← room, Nat.sub_eq_zero_of_le short, Nat.min_zero]
  | written t writes some fits reach short =>
    rw [← writes.room geo used, Nat.add_mul]
    rcases Nat.eq_or_lt_of_le fits with all | less
    · omega
    · -- the write stopped early, so no cluster is free behind it
      obtain ⟨ends, full⟩ := short less
      rw [full.none_free ok geo, Finset.card_empty, Nat.zero_mul]
      omega

theorem WriteEffect.count (ok : Reliable dev) (geo : Geometry v clusters)
    (own : Owns v clusters (objects fs.nodes closed) cs fs.disk) (found : fs.nodes[i]? = some p) (file : p.isDir = false)
    (recorded : Recorded fs.disk p.toEntry) (effect : WriteEffect dev v clusters closed fs i p cs offset buffer (n, fs')) :
    n = writable v clusters fs.disk p.startCluster offset buffer.length := by
  have node := objects_node found closed
  have chain := (own.chains _ _ node).chain_eq geo
  rw [writable, show Fs.chain v fs.disk p.startCluster = cs (.inl i) from chain]
  cases effect with
  | empty none => rw [none, Nat.zero_min]
  | unplaced t none full =>
    rw [(own.empty node none file).1, full.none_free ok geo]
    simp
  | @unreached start fs₁ cs₁ m ds t begins extended short full =>
    have tail : WriteTail dev v clusters start fs₁ i p.size (cs₁ (.inl i)) offset buffer (0, fs₁.after m t) :=
      .unreached t extended short full
    rw [← (begins.recorded ok geo own found file recorded).2]
    exact tail.count ok geo begins.phase.chain
  | @written start fs₁ cs₁ m ds n t begins writes some fits reach short =>
    have tail : WriteTail dev v clusters start fs₁ i p.size (cs₁ (.inl i)) offset buffer
        (n, recordSize dev (fs₁.after m t) i p.size (offset + n)) := .written t writes some fits reach short
    rw [← (begins.recorded ok geo own found file recorded).2]
    exact tail.count ok geo begins.phase.chain

theorem Writes.stored (writes : Writes v clusters start m ds m' ds' offset (offset + n) fun x => buffer.getD (x - offset) 0)
    (reach : offset + n ≤ ds'.length * v.bytesPerCluster) {m'' : Mem} (linked : Fs.chain v m'' start = ds')
    (same : ∀ x < ds'.length * v.bytesPerCluster, fileByte v m'' ds' x = fileByte v m' ds' x) :
    ∀ k < n, offset + k < (Fs.chain v m'' start).length * v.bytesPerCluster ∧
      fileByte v m'' (Fs.chain v m'' start) (offset + k) = buffer.getD k 0 := by
  intro k less
  have within : offset + k < ds'.length * v.bytesPerCluster := by omega
  rw [linked]
  refine ⟨within, (same _ within).trans ((writes.bytes _ within).trans ?_)⟩
  rw [if_pos (by omega), Nat.add_sub_cancel_left]

theorem WriteEffect.honest_iff (ok : Reliable dev) (geo : Geometry v clusters)
    (own : Owns v clusters (objects fs.nodes closed) cs fs.disk) (found : fs.nodes[i]? = some p) (file : p.isDir = false)
    (recorded : Recorded fs.disk p.toEntry) (effect : WriteEffect dev v clusters closed fs i p cs offset buffer (n, fs')) :
    (∃ p', fs'.nodes[i]? = some p' ∧ Honest v fs'.disk p p' offset buffer n) ↔
      SizeFits v clusters fs.disk p.toEntry offset buffer.length := by
  rw [SizeFits, ← effect.count ok geo own found file recorded]
  cases effect with
  | empty none => exact iff_of_true ⟨p, found, Nat.zero_le _, fun k less => absurd less (Nat.not_lt_zero k), rfl, recorded⟩ (Or.inl rfl)
  | unplaced t none full =>
    exact iff_of_true ⟨p, found, Nat.zero_le _, fun k less => absurd less (Nat.not_lt_zero k), rfl, recorded⟩ (Or.inl rfl)
  | @unreached start fs₁ cs₁ m ds t begins extended short full =>
    have phase := begins.phase
    have kept := phase.own.keeps_recorded geo phase.entry phase.file extended (begins.recorded ok geo own found file recorded).1
    exact iff_of_true ⟨_, phase.node, Nat.zero_le _, fun k less => absurd less (Nat.not_lt_zero k), rfl, kept⟩ (Or.inl rfl)
  | @written start fs₁ cs₁ m ds n t begins writes some fits reach short =>
    have phase := begins.phase
    have begun := (begins.recorded ok geo own found file recorded).1
    have positive : n ≠ 0 := by omega
    by_cases grows : offset + n > p.size
    · obtain ⟨size, cluster⟩ := recordSize_fields ok geo phase writes begun grows t
      obtain ⟨cs', final, clusters_, bytes⟩ := phase.grown ok geo writes grows reach t
      have linked := final.chain.chain_eq geo
      rw [clusters_] at linked
      have all : max p.size (offset + n) = offset + n := by omega
      constructor
      · rintro ⟨p', node, honest⟩
        rw [final.node] at node
        cases node
        have whole : u32 (offset + n) = offset + n := honest.size.trans ((if_neg positive).trans all)
        -- `(uint32_t)-1` tells `fat32_update_dirent` to keep the old size
        have said := size.symm.trans honest.recorded.size
        have below : u32 (offset + n) < 2 ^ 32 := Nat.mod_lt _ (by decide)
        have other : offset + n ≠ keepField := by
          intro keep
          rw [if_pos (whole.trans keep)] at said
          have same : p.size = u32 (offset + n) := said
          omega
        rw [keepField] at other ⊢
        omega
      · intro fits'
        rw [keepField] at fits'
        have whole : u32 (offset + n) = offset + n := Nat.mod_eq_of_lt (by omega)
        have other : u32 (offset + n) ≠ keepField := by
          rw [keepField]
          omega
        rw [if_neg other] at size
        refine ⟨_, final.node, fits, writes.stored reach linked bytes, ?_, begun.real, cluster, size⟩
        rw [if_neg positive, all]
        exact whole
    · rw [recordSize, if_neg grows]
      have kept := phase.own.keeps_recorded geo phase.entry phase.file writes begun
      have all : max p.size (offset + n) = p.size := by omega
      refine iff_of_true ⟨_, phase.node, fits, writes.stored reach (writes.chain.chain_eq geo) fun _ _ => rfl, ?_, kept⟩
        (Or.inr (Or.inl (Nat.not_lt.mp grows)))
      rw [if_neg positive, all]

/-- If no operation fails while it runs, the count that `fat32_write` returns is honest if and only if the
end of what is written fits in the size field. -/
theorem write_counts_honest (formed : WellFormed v clusters closed fs) (found : fs.nodes[i]? = some p)
    (file : p.isDir = false) (recorded : Recorded fs.disk p.toEntry)
    (returned : Returns (fun fuel => fat32Write dev v fuel fs i offset buffer) (n, fs'))
    (calm : ∀ t, fs.clock ≤ t → t < fs'.clock → dev.readOk t = true ∧ dev.allocOk t = true)
    (writes : ∀ t, fs.clock ≤ t → t < fs'.clock → dev.writeOk t = true) :
    (∃ p', fs'.nodes[i]? = some p' ∧ Honest v fs'.disk p p' offset buffer n) ↔
      SizeFits v clusters fs.disk p.toEntry offset buffer.length := by
  obtain ⟨geo, cs, own⟩ := formed
  have reliably : Returns (fun fuel => fat32Write reliable v fuel fs i offset buffer) (n, fs') := by
    obtain ⟨fuel, result⟩ := returned
    refine ⟨fuel, ((fat32Write_timed dev reliable v fuel i offset buffer fs _ result).same ?_).trans result⟩
    intro t low high
    obtain ⟨read, alloc⟩ := calm t low high
    exact ⟨read.symm, (writes t low high).symm, alloc.symm⟩
  -- in the time of the call the device is as good as one that never fails
  have effect := reliably.holds (fat32Write_settles reliable v fs i offset buffer) fun _ enough =>
    fat32Write_effect reliable_ok geo own found file enough
  exact effect.honest_iff reliable_ok geo own found file recorded

/-- The file of `oneFile` with its directory entry. -/
def recordedDisk : Mem := store (store smallDisk 1562 2 3) 1564 4 3

def recordedFile : State := { oneFile with disk := recordedDisk }

theorem recordedFile_wellFormed : WellFormed smallVolume 4 [] recordedFile := oneFile_owned (by decide +kernel)

theorem recordedFile_recorded : Recorded recordedFile.disk fileNode.toEntry :=
  ⟨by decide, by decide +kernel, by decide +kernel⟩

/-- A byte is appended. -/
theorem write_counts_honest_append : ∃ fs' p',
    Returns (fun fuel => fat32Write reliable smallVolume fuel recordedFile 1 3 [7]) (1, fs') ∧
      fs'.nodes[1]? = some p' ∧ Honest smallVolume fs'.disk fileNode p' 3 [7] 1 := by
  have wrote : (fat32Write reliable smallVolume 20 recordedFile 1 3 [7]).toOption.map Prod.fst = some 1 := by decide +kernel
  have returned : Returns (fun fuel => fat32Write reliable smallVolume fuel recordedFile 1 3 [7]) (1, _) :=
    ⟨20, outcome_eq recordedFile wrote⟩
  have few : writable smallVolume 4 recordedFile.disk fileNode.startCluster 3 [(7 : UInt8)].length ≤ 1 := Nat.min_le_left _ _
  have fits : SizeFits smallVolume 4 recordedFile.disk fileNode.toEntry 3 [(7 : UInt8)].length := by
    right
    right
    rw [keepField]
    omega
  obtain ⟨p', node, honest⟩ := (write_counts_honest recordedFile_wellFormed rfl rfl recordedFile_recorded returned
    (fun _ _ _ => ⟨rfl, rfl⟩) fun _ _ _ => rfl).mpr fits
  exact ⟨_, p', returned, node, honest⟩

/-- No write succeeds, and the driver reports that the byte was written. -/
theorem lost_write_counted : ¬ ∀ (dev : Device) (v : Volume) (clusters : Nat) (closed : List Entry) (fs fs' : State) (i : Nat)
    (p : Node) (offset n : Nat) (buffer : List UInt8), (∀ t, dev.readOk t = true) → (∀ t, dev.allocOk t = true) →
    WellFormed v clusters closed fs → fs.nodes[i]? = some p → p.isDir = false → Recorded fs.disk p.toEntry →
    Returns (fun fuel => fat32Write dev v fuel fs i offset buffer) (n, fs') →
    ∃ p', fs'.nodes[i]? = some p' ∧ Honest v fs'.disk p p' offset buffer n := by
  intro all
  have wrote : (fat32Write readOnly smallVolume 20 recordedFile 1 0 [7]).toOption.map Prod.fst = some 1 := by decide +kernel
  have result := outcome_eq recordedFile wrote
  obtain ⟨p', node, honest⟩ := all readOnly smallVolume 4 [] recordedFile _ 1 fileNode 0 1 [7] (fun _ => rfl) (fun _ => rfl)
    recordedFile_wellFormed rfl rfl recordedFile_recorded ⟨20, result⟩
  have start : ((outcome (fat32Write readOnly smallVolume 20 recordedFile 1 0 [7]) recordedFile).nodes[1]?.map fun p =>
      p.startCluster) = some 3 := by decide +kernel
  rw [node] at start
  have start : p'.startCluster = 3 := Option.some.inj start
  have stored := (honest.stored 0 (by decide)).2
  rw [start] at stored
  have lost : fileByte smallVolume (outcome (fat32Write readOnly smallVolume 20 recordedFile 1 0 [7]) recordedFile).disk
      (chain smallVolume (outcome (fat32Write readOnly smallVolume 20 recordedFile 1 0 [7]) recordedFile).disk 3) 0 = 0 := by
    decide +kernel
  rw [Nat.zero_add, lost] at stored
  cases stored

end RexOs.Fs
