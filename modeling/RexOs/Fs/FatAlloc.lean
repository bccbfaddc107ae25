import RexOs.Fs.FatWords

/-! What `fat_alloc_cluster` gives.

The search covers whole sectors of the table, whose entries are usually more than the volume has
clusters, and it does not know where the volume ends.
-/

set_option autoImplicit false

namespace RexOs.Fs

open RexOs.Library

/-- `total_sectors_32` of the boot sector at `partLba`, which the driver does not read. -/
def totalSectors (m : Mem) (partLba : Nat) : Nat := load m (partLba * sectorSize + 32) 4

def Bpb.clusters (bpb : Bpb) (total : Nat) : Nat :=
  (total - (bpb.reservedSectors + bpb.numFats * bpb.fatSize32)) / bpb.sectorsPerCluster

structure FreeCluster (v : Volume) (clusters : Nat) (m : Mem) (c : Nat) : Prop where
  inside : InVolume clusters c
  number : c < 2 ^ 32
  listed : c < v.fatSize * entriesPerSec
  free : lowBits (word v m 0 c) = 0

/-- The cluster `c` that is returned is 0 exactly if none is free. Otherwise it was free and gets an
end mark in each of the tables, and nothing else changes in them. -/
structure AllocContract (v : Volume) (copies clusters : Nat) (m : Mem) (c : Nat) (m' : Mem) : Prop where
  none : c = 0 ↔ ∀ x, ¬ FreeCluster v clusters m x
  free : c ≠ 0 → FreeCluster v clusters m c
  marked : c ≠ 0 → ∀ copy < copies, clusterEndMark ≤ lowBits (word v m' copy c) ∧
    highBits (word v m' copy c) = highBits (word v m copy c)
  others : ∀ copy < copies, ∀ x < v.fatSize * entriesPerSec, x ≠ c → word v m' copy x = word v m copy x

structure FirstFree (v : Volume) (m : Mem) (k : Nat) : Prop where
  listed : k < v.fatSize * entriesPerSec
  free : LooksFree v m k
  first : ∀ k' < k, ¬ LooksFree v m k'

/-- That entry, if there is one, is the entry of a cluster of the volume. Its reserved bits are set in the
first two tables, and in the others it has an end mark. -/
def AllocFits (v : Volume) (copies clusters : Nat) (m : Mem) : Prop :=
  ∀ k, FirstFree v m k → k < clusters + 2 ∧ ∀ copy < copies,
    (copy < 2 → highBits (word v m copy k) = 0xF0000000) ∧ (2 ≤ copy → clusterEndMark ≤ lowBits (word v m copy k))

variable {dev : Device} {v : Volume} {m m' : Mem} {c k copies clusters : Nat}

def Marked (v : Volume) (m : Mem) (k : Nat) (m' : Mem) : Prop :=
  v.fatSize + k / 128 < 2 ^ 32 → SetsWords v m k markWord m'

theorem markWord_eq (e : Nat) : markWord e = 0xFFFFFFFF := by
  have below : markWord e < 2 ^ 32 := Nat.or_lt_two_pow (Nat.and_lt_two_pow _ (by decide)) (by decide)
  have above : 0xFFFFFFFF ≤ markWord e := Nat.right_le_or
  omega

theorem markWord_fits : ∀ e < 2 ^ 32, markWord e < 2 ^ 32 := by
  intro e _
  rw [markWord_eq]
  decide

theorem copySectors (v : Volume) (sec : Nat) : u32 (v.fatStartLba + sec) = u32 (v.fatStartLba + 0 * v.fatSize + sec) ∧
    u32 (v.fatStartLba + v.fatSize + sec) = u32 (v.fatStartLba + 1 * v.fatSize + sec) := by
  rw [Nat.zero_mul, Nat.add_zero, Nat.one_mul]
  exact ⟨rfl, rfl⟩

theorem markEntry_written (v : Volume) (m : Mem) (copy sec : Nat) {j : Nat} (small : j < entriesPerSec) :
    paste m (u32 (v.fatStartLba + copy * v.fatSize + sec) * sectorSize) (1 * sectorSize)
        (markEntry (fun i => m (u32 (v.fatStartLba + copy * v.fatSize + sec) * sectorSize + i)) j) =
      store m (wordPlace v copy (sec * entriesPerSec + j)) 4 (markWord (word v m copy (sec * entriesPerSec + j))) := by
  simp only [entriesPerSec, sectorSize] at small
  have row : (sec * 128 + j) / 128 = sec := by omega
  have column : (sec * 128 + j) % 128 = j := by omega
  have index : sec * entriesPerSec + j = sec * 128 + j := rfl
  have inside : 4 * j + 4 ≤ sectorSize := by
    rw [sectorSize]
    omega
  rw [Nat.one_mul, word, wordPlace, index, row, column]
  exact sector_word m _ inside markWord

theorem allocLoop_gives (ok : Reliable dev) : ∀ (rounds sec : Nat) (fs : State), sec + rounds = v.fatSize →
    (∀ k < sec * entriesPerSec, ¬ LooksFree v fs.disk k) →
    (∃ t, allocLoop dev v rounds sec fs = (0, fs.after fs.disk t) ∧ ¬ FreeEntry v fs.disk) ∨
      ∃ k m t, allocLoop dev v rounds sec fs = (u32 k, fs.after m t) ∧ FirstFree v fs.disk k ∧ Marked v fs.disk k m := by
  intro rounds
  induction rounds with
  | zero =>
    intro sec fs all used
    left
    refine ⟨fs.clock, rfl, ?_⟩
    rintro ⟨k, listed, free⟩
    exact used k (by rwa [← all] at listed) free
  | succ rounds ih =>
    intro sec fs all used
    rw [allocLoop, readBlocks_ok ok]
    dsimp only
    cases found : freeEntryLoop (fun i => fs.disk (u32 (v.fatStartLba + sec) * sectorSize + i)) sec entriesPerSec 0 with
    | none =>
      apply ih (sec + 1) (fs.after fs.disk (fs.clock + 1)) (by omega)
      intro k high
      by_cases before : k < sec * entriesPerSec
      · exact used k before
      · exact searched_none found (Nat.not_lt.mp before) high
    | some j =>
      obtain ⟨small, free, first⟩ := searched_some found
      have listed : sec * entriesPerSec + j < v.fatSize * entriesPerSec := by
        have more : (sec + 1) * entriesPerSec ≤ v.fatSize * entriesPerSec := Nat.mul_le_mul_right _ (by omega)
        rw [Nat.succ_mul] at more
        omega
      have table : v.fatSize > 0 := by omega
      obtain ⟨firstSector, secondSector⟩ := copySectors v sec
      right
      refine ⟨sec * entriesPerSec + j, _, fs.clock + 1 + 1 + 1 + 1, ?_, ⟨listed, free, fun k less => ?_⟩,
        stores_setWords markWord_fits listed⟩
      · simp only [writeBlocks_ok ok, markSecond, table, if_true, readBlocks_ok ok, after_disk, after_after, after_clock,
          firstSector, secondSector, markEntry_written v _ _ _ small, word]
      · by_cases before : k < sec * entriesPerSec
        · exact used k before
        · exact first k (Nat.not_lt.mp before) less

theorem alloc_gives (ok : Reliable dev) (v : Volume) (fs : State) :
    (∃ t, fatAllocCluster dev v fs = (0, fs.after fs.disk t) ∧ ¬ FreeEntry v fs.disk) ∨
      ∃ k m t, fatAllocCluster dev v fs = (u32 k, fs.after m t) ∧ FirstFree v fs.disk k ∧ Marked v fs.disk k m :=
  allocLoop_gives ok v.fatSize 0 fs (Nat.zero_add _) fun k less => absurd less (by omega)

theorem highBits_markWord (e : Nat) : highBits (markWord e) = 0xF0000000 := by
  rw [markWord_eq]
  decide

theorem lowBits_markWord (e : Nat) : clusterEndMark ≤ lowBits (markWord e) := by
  rw [markWord_eq]
  decide

theorem FreeCluster.looksFree (free : FreeCluster v clusters m c) : LooksFree v m c := by
  refine ⟨free.free, ?_⟩
  rw [u32, Nat.mod_eq_of_lt free.number]
  exact free.inside.1

theorem FirstFree.unique {k' : Nat} (first : FirstFree v m k) (first' : FirstFree v m k') : k = k' := by
  rcases Nat.lt_trichotomy k k' with less | same | less
  · exact absurd first.free (first'.first k less)
  · exact same
  · exact absurd first'.free (first.first k' less)

theorem contract_full (copies clusters : Nat) (full : ¬ FreeEntry v m) : AllocContract v copies clusters m 0 m ∧ AllocFits v copies clusters m := by
  constructor
  · constructor
    · exact iff_of_true rfl fun x free => full ⟨x, free.listed, free.looksFree⟩
    · exact fun some_ => absurd rfl some_
    · exact fun some_ => absurd rfl some_
    · exact fun _ _ _ _ _ => rfl
  · exact fun k first => absurd ⟨k, first.listed, first.free⟩ full

theorem found_room (room : 0 < clusters → copies * v.fatSize + clusters < 2 ^ 32) (low : 2 ≤ u32 k) (inside : k < clusters + 2) :
    u32 k = k ∧ (0 < copies → v.fatSize + k / 128 < 2 ^ 32) := by
  have some_ : 0 < clusters := by
    by_contra none
    have small : u32 k ≤ k := Nat.mod_le _ _
    omega
  have few := room some_
  constructor
  · rw [u32] at low ⊢
    omega
  · intro one
    have first : 1 * v.fatSize ≤ copies * v.fatSize := Nat.mul_le_mul_right _ one
    omega

theorem copy_small {copy x : Nat} (tables : copies * v.fatSize < 2 ^ 32) (few : copy < copies)
    (listed : x < v.fatSize * entriesPerSec) : copy * v.fatSize + x / 128 < 2 ^ 32 := by
  have row := rows_lt listed
  have next : (copy + 1) * v.fatSize ≤ copies * v.fatSize := Nat.mul_le_mul_right _ few
  rw [Nat.succ_mul] at next
  omega

theorem contract_found (room : 0 < clusters → copies * v.fatSize + clusters < 2 ^ 32) (first : FirstFree v m k)
    (marked : Marked v m k m') : AllocContract v copies clusters m (u32 k) m' ↔ AllocFits v copies clusters m := by
  have low : 2 ≤ u32 k := first.free.2
  constructor
  · intro contract k' first'
    obtain rfl := first.unique first'
    have free := contract.free (by omega)
    -- a cluster that is returned for an entry far behind was looked at before
    have whole : u32 k = k := by
      by_contra wrapped
      have less : u32 k < k := Nat.lt_of_le_of_ne (Nat.mod_le _ _) wrapped
      exact first.first _ less free.looksFree
    have inside : k < clusters + 2 := whole ▸ free.inside.2
    obtain ⟨_, small⟩ := found_room room low inside
    refine ⟨inside, fun copy few => ?_⟩
    have set := marked (small (by omega))
    obtain ⟨low', high⟩ := contract.marked (by omega) copy few
    rw [whole] at low' high
    have tables : copies * v.fatSize < 2 ^ 32 := by
      have := room (by omega)
      omega
    constructor
    · intro two
      rw [← high, set.set copy two, highBits_markWord]
    · intro more
      rwa [set.others copy k (copy_small tables few first.listed) first.listed (by omega)] at low'
  · intro fits
    obtain ⟨inside, copiesFit⟩ := fits k first
    obtain ⟨whole, small⟩ := found_room room low inside
    have free : FreeCluster v clusters m k := ⟨⟨by omega, inside⟩, by rw [← whole]; exact Nat.mod_lt _ (by decide), first.listed, first.free.1⟩
    have tables : copies * v.fatSize < 2 ^ 32 := by
      have := room (by omega)
      omega
    rw [whole]
    constructor
    · exact iff_of_false (by omega) fun none => none k free
    · exact fun _ => free
    · intro _ copy few
      have set := marked (small (by omega))
      obtain ⟨two, more⟩ := copiesFit copy few
      by_cases pair : copy < 2
      · rw [set.set copy pair, highBits_markWord, two pair]
        exact ⟨lowBits_markWord _, rfl⟩
      · rw [set.others copy k (copy_small tables few first.listed) first.listed (by omega)]
        exact ⟨more (Nat.not_lt.mp pair), rfl⟩
    · intro copy few x listed other
      have set := marked (small (by omega))
      exact set.others copy x (copy_small tables few listed) listed fun both => other both.2

theorem clusters_room (bpb : Bpb) (m : Mem) (partLba : Nat) (some_ : 0 < bpb.clusters (totalSectors m partLba)) :
    bpb.numFats * bpb.fatSize32 + bpb.clusters (totalSectors m partLba) < 2 ^ 32 := by
  have total : totalSectors m partLba < 2 ^ 32 := load_lt m _ 4
  rw [Bpb.clusters] at some_ ⊢
  have sectors : 0 < bpb.sectorsPerCluster := by
    by_contra none
    rw [Nat.eq_zero_of_not_pos none, Nat.div_zero] at some_
    exact absurd some_ (Nat.lt_irrefl 0)
  have fewer := Nat.div_le_self (totalSectors m partLba - (bpb.reservedSectors + bpb.numFats * bpb.fatSize32)) bpb.sectorsPerCluster
  omega

/-- On a device that works `fat_alloc_cluster` keeps the contract exactly if the first entry that
looks free fits. -/
theorem alloc_contract (ok : Reliable dev) (bpb : Bpb) (partLba : Nat) (boot : Mem) (fs : State) :
    AllocContract (bpb.volume partLba) bpb.numFats (bpb.clusters (totalSectors boot partLba)) fs.disk
        (fatAllocCluster dev (bpb.volume partLba) fs).1 (fatAllocCluster dev (bpb.volume partLba) fs).2.disk ↔
      AllocFits (bpb.volume partLba) bpb.numFats (bpb.clusters (totalSectors boot partLba)) fs.disk := by
  rcases alloc_gives ok (bpb.volume partLba) fs with ⟨t, gives, full⟩ | ⟨k, m, t, gives, first, marked⟩
  · rw [gives]
    obtain ⟨contract, fits⟩ := contract_full bpb.numFats (bpb.clusters (totalSectors boot partLba)) full
    exact iff_of_true contract fits
  · rw [gives]
    exact contract_found (clusters_room bpb boot partLba) first marked

/-- A volume of 103 blocks: one reserved block, two tables of one block and 100 clusters, none of
them used. The highest byte of the entry of cluster 2 is `reserved`. -/
def emptyVolume (reserved : UInt8) : Mem := fun a =>
  if a = 32 then 103 else if a = 523 ∨ a = 1035 then reserved else bootSector 2 a

theorem emptyVolume_first (reserved : UInt8) (free : lowBits (word ((bootBpb 2).volume 0) (emptyVolume reserved) 0 2) = 0) :
    FirstFree ((bootBpb 2).volume 0) (emptyVolume reserved) 2 := by
  refine ⟨by decide, ⟨free, by decide⟩, fun k less => ?_⟩
  rintro ⟨_, real⟩
  rw [u32, Nat.mod_eq_of_lt (by omega)] at real
  omega

theorem alloc_contract_reserved :
    AllocContract ((bootBpb 2).volume 0) 2 100 (emptyVolume 0xF0)
      (fatAllocCluster reliable ((bootBpb 2).volume 0) ⟨emptyVolume 0xF0, [], 0⟩).1
      (fatAllocCluster reliable ((bootBpb 2).volume 0) ⟨emptyVolume 0xF0, [], 0⟩).2.disk := by
  apply (alloc_contract reliable_ok (bootBpb 2) 0 (emptyVolume 0xF0) ⟨emptyVolume 0xF0, [], 0⟩).mpr
  intro k first
  obtain rfl := first.unique (emptyVolume_first 0xF0 (by decide))
  refine ⟨by decide, fun copy few => ⟨fun two => ?_, fun more => absurd few (Nat.not_lt.mpr more)⟩⟩
  rcases (by omega : copy = 0 ∨ copy = 1) with rfl | rfl <;> decide

/-- The entry of the first cluster is zero, and afterwards its reserved bits are set. -/
theorem reserved_bits_lost : ¬ ∀ dev start partLba bpb fs, Reliable dev → Mounts dev start partLba bpb →
    AllocContract (bpb.volume partLba) bpb.numFats (bpb.clusters (totalSectors start.disk partLba)) fs.disk
      (fatAllocCluster dev (bpb.volume partLba) fs).1 (fatAllocCluster dev (bpb.volume partLba) fs).2.disk := by
  intro all
  have mounts : Mounts reliable ⟨emptyVolume 0, [], 0⟩ 0 (bootBpb 2) := ⟨rfl, rfl, rfl⟩
  have contract := all reliable ⟨emptyVolume 0, [], 0⟩ 0 (bootBpb 2) ⟨emptyVolume 0, [], 0⟩ reliable_ok mounts
  have first₂ := emptyVolume_first 0 (by decide)
  rcases alloc_gives reliable_ok ((bootBpb 2).volume 0) ⟨emptyVolume 0, [], 0⟩ with ⟨t, gives, full⟩ | ⟨k, m, t, gives, first, marked⟩
  · exact full ⟨2, first₂.listed, first₂.free⟩
  · rw [gives] at contract
    obtain rfl := first.unique first₂
    have fits := (contract_found (clusters_room (bootBpb 2) (emptyVolume 0) 0) first marked).mp contract
    exact absurd ((fits 2 first).2 0 (by decide)).1 (by decide)

end RexOs.Fs
