import RexOs.Fs.FatTable
import RexOs.Library.Run
import Mathlib.Order.Interval.Finset.Nat

/-! Mounting a volume, and its copies of the table.

`fat32_init` takes the place of the data area from the number of tables in the boot
sector. The functions that change the table do not know that number: they change two
copies, one `fat_size` behind the other.
-/

set_option autoImplicit false

namespace RexOs.Fs

open RexOs.Library

/-- The fields of `fat32_bpb_t` that are read; of `fs_type` the first five letters. -/
structure Bpb where
  bytesPerSector : Nat
  sectorsPerCluster : Nat
  reservedSectors : Nat
  numFats : Nat
  fatSize32 : Nat
  rootCluster : Nat
  fsType : List UInt8
  signature : Nat
  deriving DecidableEq, Repr

def Bpb.ofSector (buf : Mem) : Bpb where
  bytesPerSector := load buf 11 2
  sectorsPerCluster := load buf 13 1
  reservedSectors := load buf 14 2
  numFats := load buf 16 1
  fatSize32 := load buf 36 4
  rootCluster := load buf 44 4
  fsType := [buf 82, buf 83, buf 84, buf 85, buf 86]
  signature := load buf 510 2

/-- `"FAT32"`. -/
def fat32Type : List UInt8 := [0x46, 0x41, 0x54, 0x33, 0x32]

def noPartition : Nat := 0xFFFFFFFF

/-- The first of the four partitions from `i` on whose type is one of FAT32. -/
def partitionLoop (buf : Mem) : Nat → Nat → Nat
  | 0, _ => noPartition
  | rounds + 1, i =>
      let type := buf (0x1BE + 16 * i + 4)
      if type = 0x0B ∨ type = 0x0C ∨ type = 0x1B ∨ type = 0x1C then load buf (0x1BE + 16 * i + 8) 4
      else partitionLoop buf rounds (i + 1)

section
variable (dev : Device)

def findFat32Partition (fs : State) : Nat × State :=
  match readBlocks dev fs 0 1 with
  | (none, fs) => (noPartition, fs)
  | (some buf, fs) =>
      let bpb := Bpb.ofSector buf
      if bpb.signature = 0xAA55 ∧ bpb.bytesPerSector = 512 ∧ bpb.fsType = fat32Type then (0, fs)
      else (partitionLoop buf 4 0, fs)

def Bpb.volume (bpb : Bpb) (partLba : Nat) : Volume :=
  let fatStartLba := u32 (partLba + bpb.reservedSectors)
  { fatStartLba := fatStartLba
    clusterBeginLba := u32 (fatStartLba + u32 (bpb.numFats * bpb.fatSize32))
    sectorsPerCluster := bpb.sectorsPerCluster
    bytesPerCluster := bpb.sectorsPerCluster * sectorSize
    rootCluster := bpb.rootCluster
    fatSize := bpb.fatSize32 }

/-- `fat32_init` on the first block device: the mounted volume. -/
def fat32Init (fs : State) : Option Volume × State :=
  match findFat32Partition dev fs with
  | (partLba, fs) =>
      if partLba = noPartition then (none, fs)
      else
        match readBlocks dev fs partLba 1 with
        | (none, fs) => (none, fs)
        | (some bsBuf, fs) =>
            let bpb := Bpb.ofSector bsBuf
            if bpb.bytesPerSector ≠ 512 then (none, fs)
            else if bpb.fatSize32 = 0 then (none, fs)
            else (some (bpb.volume partLba), fs)

end

/-- `fat32_init` finds the boot sector at `partLba` and accepts it. -/
structure Mounts (dev : Device) (fs : State) (partLba : Nat) (bpb : Bpb) : Prop where
  place : (findFat32Partition dev fs).1 = partLba
  sector : Bpb.ofSector (fun i => fs.disk (partLba * sectorSize + i)) = bpb
  mounted : (fat32Init dev fs).1 = some (bpb.volume partLba)

/-- The volume has clusters, a table that covers them, and block numbers of 32 bits. -/
structure Bpb.Fits (bpb : Bpb) (partLba clusters : Nat) : Prop where
  sectors : 0 < bpb.sectorsPerCluster
  some : 0 < clusters
  covered : clusters + 2 ≤ bpb.fatSize32 * entriesPerSec
  marks : clusters + 2 ≤ clusterEndMark
  addressable : partLba + bpb.reservedSectors + bpb.numFats * bpb.fatSize32 +
    clusters * bpb.sectorsPerCluster ≤ 2 ^ 32

/-- The byte belongs to one of the `copies` tables. -/
def InCopies (v : Volume) (copies a : Nat) : Prop :=
  ∃ i < copies, (v.fatStartLba + i * v.fatSize) * sectorSize ≤ a ∧ a < (v.fatStartLba + (i + 1) * v.fatSize) * sectorSize

def InData (v : Volume) (clusters a : Nat) : Prop :=
  v.clusterBeginLba * sectorSize ≤ a ∧ a < (v.clusterBeginLba + clusters * v.sectorsPerCluster) * sectorSize

def CopiesEqual (v : Volume) (copies : Nat) (m : Mem) : Prop :=
  ∀ i < copies, ∀ o < v.fatSize * sectorSize,
    m ((v.fatStartLba + i * v.fatSize) * sectorSize + o) = m (v.fatStartLba * sectorSize + o)

inductive FatOp where
  | setEntry (cluster value : Nat)
  | allocCluster
  | freeChain (cluster : Nat)
  deriving DecidableEq, Repr

/-- A chain of the volume ends after less than `clusters + 2` rounds. -/
def FatOp.apply (dev : Device) (v : Volume) (clusters : Nat) (fs : State) : FatOp → Except Fault State
  | .setEntry cluster value => .ok (fatSetEntry dev v fs cluster value)
  | .allocCluster => .ok (fatAllocCluster dev v fs).2
  | .freeChain cluster => fatFreeChain dev v (clusters + 2) fs cluster

def IsLink (c : Nat) : Prop := 2 ≤ c ∧ c < clusterEndMark

def LinksInside (v : Volume) (clusters : Nat) (m : Mem) : Prop :=
  ∀ c, InVolume clusters c → IsLink (entry v m c) → InVolume clusters (entry v m c)

def FatOp.Inside (v : Volume) (clusters : Nat) (m : Mem) : FatOp → Prop
  | .setEntry cluster _ => InVolume clusters cluster
  | .allocCluster => True
  | .freeChain cluster => LinksInside v clusters m ∧ (IsLink cluster → InVolume clusters cluster)

def FatStep (dev : Device) (v : Volume) (clusters : Nat) (fs : State) (op : FatOp) (next : State) : Prop :=
  op.Inside v clusters fs.disk ∧ op.apply dev v clusters fs = .ok next

def TablesKept (dev : Device) (v : Volume) (clusters copies : Nat) (start : State) : Prop :=
  ∀ ops fs, Run (FatStep dev v clusters) start ops fs →
    (∀ a, ¬ InCopies v copies a → fs.disk a = start.disk a) ∧
    (∀ a, InData v clusters a → fs.disk a = start.disk a) ∧
    (CopiesEqual v copies start.disk → CopiesEqual v copies fs.disk)

/-- One entry of the first table and the word `fat_size` blocks behind it change alike. -/
def Updates (v : Volume) (m m' : Mem) : Prop :=
  ∃ c < v.fatSize * entriesPerSec, ∃ f : Nat → Nat,
    m' = store (store m (entryAddr v c) 4 (f (load m (entryAddr v c) 4))) (entryAddr v c + v.fatSize * sectorSize) 4
      (f (load m (entryAddr v c + v.fatSize * sectorSize) 4))

section
variable {dev : Device} {v : Volume} {clusters : Nat} {fs : State} {m m' : Mem} {c x : Nat}

theorem entry_fits (listed : c < v.fatSize * entriesPerSec) : 4 * c + 4 ≤ v.fatSize * sectorSize := by
  simp only [entriesPerSec, sectorSize] at *
  omega

theorem Updates.outside (changed : Updates v m m') {a : Nat} (outside : ¬ InCopies v 2 a) : m' a = m a := by
  obtain ⟨c, listed, f, rfl⟩ := changed
  have fits := entry_fits listed
  have first : a < v.fatStartLba * sectorSize ∨ v.fatStartLba * sectorSize + v.fatSize * sectorSize ≤ a := by
    by_contra inside
    refine outside ⟨0, by decide, ?_, ?_⟩
    · rw [Nat.zero_mul, Nat.add_zero]
      omega
    · rw [Nat.zero_add, Nat.one_mul, Nat.add_mul]
      omega
  have second : a < v.fatStartLba * sectorSize + v.fatSize * sectorSize ∨
      v.fatStartLba * sectorSize + v.fatSize * sectorSize + v.fatSize * sectorSize ≤ a := by
    by_contra inside
    refine outside ⟨1, by decide, ?_, ?_⟩
    · rw [Nat.one_mul, Nat.add_mul]
      omega
    · rw [Nat.add_mul, Nat.mul_assoc]
      omega
  rw [store_outside, store_outside] <;> rw [entryAddr] <;> omega

theorem Updates.equal (changed : Updates v m m') (equal : CopiesEqual v 2 m) : CopiesEqual v 2 m' := by
  obtain ⟨c, listed, f, rfl⟩ := changed
  have fits := entry_fits listed
  have base : ∀ o, (v.fatStartLba + 1 * v.fatSize) * sectorSize + o =
      v.fatStartLba * sectorSize + v.fatSize * sectorSize + o := by
    intro o
    rw [Nat.one_mul, Nat.add_mul]
  have twin : ∀ o < v.fatSize * sectorSize, m (v.fatStartLba * sectorSize + v.fatSize * sectorSize + o) =
      m (v.fatStartLba * sectorSize + o) := by
    intro o small
    rw [← base]
    exact equal 1 (by decide) o small
  have far : entryAddr v c + v.fatSize * sectorSize = v.fatStartLba * sectorSize + v.fatSize * sectorSize + 4 * c := by
    rw [entryAddr]
    omega
  have word : load m (entryAddr v c + v.fatSize * sectorSize) 4 = load m (entryAddr v c) 4 := by
    rw [far, entryAddr, ← load_shift, ← load_shift]
    apply load_congr
    intro x low high
    exact twin x (by omega)
  intro i two o small
  obtain rfl | rfl : i = 0 ∨ i = 1 := by omega
  · rw [Nat.zero_mul, Nat.add_zero]
  · -- the same store at the same place of each copy
    rw [base, word]
    generalize f (load m (entryAddr v c) 4) = e
    have near : ∀ m' : Mem, store m' (entryAddr v c + v.fatSize * sectorSize) 4 e (v.fatStartLba * sectorSize + o) =
        m' (v.fatStartLba * sectorSize + o) := fun m' => store_outside m' _ _ _ (Or.inl (by rw [entryAddr]; omega))
    have shifted := store_shift m (v.fatStartLba * sectorSize) (4 * c) 4 e o
    rw [near, entryAddr, ← shifted, ← entryAddr, far, ← store_shift]
    apply store_congr
    rw [store_outside _ _ _ _ (Or.inr (by rw [entryAddr]; omega))]
    exact twin o small

/-- What is written to an entry that is read as `e`. -/
def setWord (x e : Nat) : Nat := e &&& 0xF0000000 ||| x &&& 0x0FFFFFFF

/-- What `fat_alloc_cluster` writes to an entry that is read as `e`. -/
def markWord (e : Nat) : Nat := e &&& 0xF0000000 ||| 0xFFFFFFFF

theorem sector_word (m : Mem) (sec : Nat) {ent : Nat} (inside : ent + 4 ≤ sectorSize) (f : Nat → Nat) :
    paste m (sec * sectorSize) sectorSize
      (store (fun i => m (sec * sectorSize + i)) ent 4 (f (load (fun i => m (sec * sectorSize + i)) ent 4))) =
    store m (sec * sectorSize + ent) 4 (f (load m (sec * sectorSize + ent) 4)) := by
  rw [load_shift, paste_store _ _ inside]

theorem fatSetEntry_stores (ok : Reliable dev) (fs : State) (x : Nat) (table : 0 < v.fatSize) (small : c < 2 ^ 28)
    (first : v.fatStartLba + c / 128 < 2 ^ 32) :
    ∃ t, fatSetEntry dev v fs c x = fs.after
      (let m := store fs.disk (entryAddr v c) 4 (setWord x (load fs.disk (entryAddr v c) 4))
       let second := u32 (v.fatStartLba + c / 128 + v.fatSize) * sectorSize + 4 * (c % 128)
       store m second 4 (setWord x (load m second 4))) t := by
  have whole : u32 (c * 4) = c * 4 := Nat.mod_eq_of_lt (by omega)
  have sector : fatSectorOf v c = v.fatStartLba + c / 128 := by
    have part : c * 4 / 512 = c / 128 := by omega
    rw [fatSectorOf, whole, sectorSize, part, u32, Nat.mod_eq_of_lt first]
  have place : u32 (c * 4) % sectorSize = 4 * (c % 128) := by
    rw [whole, sectorSize]
    omega
  have here : u32 (v.fatStartLba + c / 128 + 0 * v.fatSize) = v.fatStartLba + c / 128 := by
    rw [Nat.zero_mul, Nat.add_zero, u32, Nat.mod_eq_of_lt first]
  have inside : 4 * (c % 128) + 4 ≤ sectorSize := by
    rw [sectorSize]
    omega
  have word : ∀ (m : Mem) (sec : Nat), paste m (sec * sectorSize) sectorSize
      (store (fun i => m (sec * sectorSize + i)) (4 * (c % 128)) 4
        (load (fun i => m (sec * sectorSize + i)) (4 * (c % 128)) 4 &&& 0xF0000000 ||| x &&& 0x0FFFFFFF)) =
      store m (sec * sectorSize + 4 * (c % 128)) 4 (setWord x (load m (sec * sectorSize + 4 * (c % 128)) 4)) :=
    fun m sec => sector_word m sec inside (setWord x)
  have near : (v.fatStartLba + c / 128) * sectorSize + 4 * (c % 128) = entryAddr v c := by
    simp only [entryAddr, sectorSize]
    omega
  simp only [fatSetEntry, table, if_true, setEntryLoop, readBlocks_ok ok, writeBlocks_ok ok, sector, place, here,
    after_disk, after_after, word, near, Nat.zero_add, Nat.one_mul]
  exact ⟨_, rfl⟩

theorem entry_second (v : Volume) (c : Nat) :
    (v.fatStartLba + c / 128 + v.fatSize) * sectorSize + 4 * (c % 128) = entryAddr v c + v.fatSize * sectorSize := by
  simp only [entryAddr, sectorSize]
  omega

theorem fatSetEntry_updates (ok : Reliable dev) (fs : State) (x : Nat) (room : v.fatStartLba + 2 * v.fatSize ≤ 2 ^ 32)
    (listed : c < v.fatSize * entriesPerSec) (small : c < 2 ^ 28) :
    ∃ m t, fatSetEntry dev v fs c x = fs.after m t ∧ Updates v fs.disk m := by
  have fits := entry_fits listed
  have rows : c / 128 < v.fatSize := by
    simp only [entriesPerSec, sectorSize] at listed
    omega
  obtain ⟨t, done⟩ := @fatSetEntry_stores dev v c ok fs x (by omega) small (by omega)
  have second : u32 (v.fatStartLba + c / 128 + v.fatSize) = v.fatStartLba + c / 128 + v.fatSize :=
    Nat.mod_eq_of_lt (by omega)
  simp only [second, entry_second] at done
  refine ⟨_, t, done, c, listed, setWord x, ?_⟩
  rw [load_store_apart (Or.inr (by omega))]

theorem allocLoop_updates (ok : Reliable dev) (room : v.fatStartLba + 2 * v.fatSize ≤ 2 ^ 32) :
    ∀ (rounds sec : Nat) (fs : State), sec + rounds = v.fatSize →
      ∃ c m t, allocLoop dev v rounds sec fs = (c, fs.after m t) ∧ (m = fs.disk ∨ Updates v fs.disk m) := by
  intro rounds
  induction rounds with
  | zero =>
    intro sec fs _
    exact ⟨0, fs.disk, fs.clock, rfl, Or.inl rfl⟩
  | succ rounds ih =>
    intro sec fs all
    obtain ⟨here, second⟩ := sectors_exact v sec (by omega) (by omega)
    simp only [allocLoop, readBlocks_ok ok, here]
    cases found : freeEntryLoop (fun i => fs.disk ((v.fatStartLba + sec) * sectorSize + i)) sec entriesPerSec 0 with
    | none => exact ih (sec + 1) (fs.after fs.disk (fs.clock + 1)) (by omega)
    | some j =>
      obtain ⟨-, few, -, -⟩ := freeEntryLoop_some found
      simp only [entriesPerSec, sectorSize] at few
      -- entry `j` of the sector is that of cluster `128 * sec + j`
      have quotient : (sec * 128 + j) / 128 = sec := by omega
      have rest : (sec * 128 + j) % 128 = j := by omega
      have listed : sec * 128 + j < v.fatSize * entriesPerSec := by
        simp only [entriesPerSec, sectorSize]
        omega
      have near : (v.fatStartLba + sec) * sectorSize + 4 * j = entryAddr v (sec * 128 + j) := by
        simp only [entryAddr, sectorSize]
        omega
      have far := entry_second v (sec * 128 + j)
      rw [quotient, rest] at far
      have inside : 4 * j + 4 ≤ sectorSize := by
        rw [sectorSize]
        omega
      have mark : ∀ (m : Mem) (sec : Nat), paste m (sec * sectorSize) sectorSize
          (markEntry (fun i => m (sec * sectorSize + i)) j) =
          store m (sec * sectorSize + 4 * j) 4 (markWord (load m (sec * sectorSize + 4 * j) 4)) :=
        fun m sec => sector_word m sec inside markWord
      have table : v.fatSize > 0 := by omega
      have fits := entry_fits listed
      simp only [writeBlocks_ok ok, markSecond, table, if_true, readBlocks_ok ok, second, after_disk, after_after,
        Nat.one_mul, mark, near, far]
      refine ⟨_, _, _, rfl, Or.inr ⟨_, listed, markWord, ?_⟩⟩
      rw [load_store_apart (Or.inr (by omega))]

def linked (v : Volume) (clusters : Nat) (m : Mem) : Finset Nat :=
  (Finset.Ico 2 (clusters + 2)).filter fun c => entry v m c ≠ 0

theorem linked_card_le (v : Volume) (clusters : Nat) (m : Mem) : (linked v clusters m).card ≤ clusters := by
  refine Nat.le_trans (Finset.card_filter_le _ _) ?_
  simp

theorem SetsEntry.linked (geo : Geometry v clusters) (set : SetsEntry v m c 0 m') (inside : InVolume clusters c)
    (used : entry v m c ≠ 0) : (linked v clusters m').card < (linked v clusters m).card := by
  apply Finset.card_lt_card
  have covered := geo.covered
  refine Finset.ssubset_iff_of_subset ?_ |>.mpr ⟨c, ?_, ?_⟩
  · intro c' member
    simp only [Fs.linked, Finset.mem_filter, Finset.mem_Ico] at member ⊢
    obtain ⟨range, used'⟩ := member
    refine ⟨range, ?_⟩
    by_cases same : c' = c
    · rw [same]
      exact used
    · rwa [set.there c' (by omega) same] at used'
  · simp only [Fs.linked, Finset.mem_filter, Finset.mem_Ico]
    exact ⟨inside, used⟩
  · simp only [Fs.linked, Finset.mem_filter, not_and, not_not]
    exact fun _ => set.here

theorem SetsEntry.linksInside (geo : Geometry v clusters) (set : SetsEntry v m c 0 m') (closed : LinksInside v clusters m) :
    LinksInside v clusters m' := by
  intro c' inside link
  have covered := geo.covered
  by_cases same : c' = c
  · rw [same, set.here] at link
    exact absurd link.1 (by decide)
  · have kept := set.there c' (by have := inside.2; omega) same
    rw [kept] at link ⊢
    exact closed c' inside link

theorem fatFreeChain_updates (ok : Reliable dev) (geo : Geometry v clusters) :
    ∀ (fuel : Nat) (fs : State) (c : Nat), 0 < fuel → LinksInside v clusters fs.disk →
      (IsLink c → InVolume clusters c ∧ (linked v clusters fs.disk).card + 2 ≤ fuel) →
      ∃ m t, fatFreeChain dev v fuel fs c = .ok (fs.after m t) ∧ Relation.ReflTransGen (Updates v) fs.disk m := by
  intro fuel
  induction fuel with
  | zero =>
    intro fs c some
    exact absurd some (Nat.lt_irrefl 0)
  | succ fuel ih =>
    intro fs c _ closed chain
    rw [fatFreeChain]
    by_cases link : 2 ≤ c ∧ c < clusterEndMark
    · rw [if_pos link]
      obtain ⟨inside, enough⟩ := chain link
      have listed : c < v.fatSize * entriesPerSec := Nat.lt_of_lt_of_le inside.2 geo.covered
      have small : c < 2 ^ 28 := Nat.lt_trans link.2 (by decide)
      have room : v.fatStartLba + 2 * v.fatSize ≤ 2 ^ 32 := by
        have := geo.copies
        have := geo.addressable
        omega
      simp only [fatNextCluster_ok ok geo fs listed small]
      obtain ⟨m, t, done, set⟩ := fatSetEntry_ok ok geo (fs.after fs.disk (fs.clock + 1)) listed small
        (show 0 < 2 ^ 28 by decide)
      obtain ⟨m', t', done', update⟩ := fatSetEntry_updates ok (fs.after fs.disk (fs.clock + 1)) 0 room listed small
      have same : m' = m := by
        rw [done] at done'
        exact (congrArg State.disk done').symm
      subst same
      rw [done, after_after]
      have onward : IsLink (entry v fs.disk c) → InVolume clusters (entry v fs.disk c) ∧
          (linked v clusters m').card + 2 ≤ fuel := by
        intro next
        have used : entry v fs.disk c ≠ 0 := by
          intro zero
          rw [zero] at next
          exact absurd next.1 (by decide)
        have fewer := set.linked geo inside used
        rw [after_disk] at fewer
        exact ⟨closed c inside next, by omega⟩
      obtain ⟨m'', t'', rest, more⟩ := ih (fs.after m' t) (entry v fs.disk c) (by omega) (set.linksInside geo closed) onward
      exact ⟨m'', t'', rest, Relation.ReflTransGen.head update more⟩
    · rw [if_neg link]
      exact ⟨fs.disk, fs.clock, rfl, Relation.ReflTransGen.refl⟩

end

section
variable {dev : Device} {fs fs' : State} {partLba clusters : Nat} {bpb : Bpb} {buf buf' : Mem}

theorem Bpb.ofSector_congr (agree : ∀ i < sectorSize, buf i = buf' i) : Bpb.ofSector buf = Bpb.ofSector buf' := by
  have word : ∀ a n, a + n ≤ sectorSize → load buf a n = load buf' a n :=
    fun a n inside => load_congr fun x _ high => agree x (Nat.lt_of_lt_of_le high inside)
  simp only [Bpb.ofSector]
  rw [word 11 2, word 13 1, word 14 2, word 16 1, word 36 4, word 44 4, word 510 2, agree 82, agree 83, agree 84, agree 85,
    agree 86] <;> decide

theorem partitionLoop_congr (agree : ∀ i < sectorSize, buf i = buf' i) :
    ∀ rounds i, i + rounds ≤ 4 → partitionLoop buf rounds i = partitionLoop buf' rounds i := by
  intro rounds
  induction rounds with
  | zero =>
    intro i _
    rfl
  | succ rounds ih =>
    intro i few
    have type := agree (0x1BE + 16 * i + 4) (by simp only [sectorSize]; omega)
    have lba : load buf (0x1BE + 16 * i + 8) 4 = load buf' (0x1BE + 16 * i + 8) 4 :=
      load_congr fun x _ high => agree x (by simp only [sectorSize]; omega)
    simp only [partitionLoop, type, lba, ih (i + 1) (by omega)]

theorem Mounts.congr (ok : Reliable dev) (mounts : Mounts dev fs partLba bpb)
    (first : ∀ i < sectorSize, fs'.disk (0 * sectorSize + i) = fs.disk (0 * sectorSize + i))
    (boot : ∀ i < sectorSize, fs'.disk (partLba * sectorSize + i) = fs.disk (partLba * sectorSize + i)) :
    Mounts dev fs' partLba bpb := by
  have sector : Bpb.ofSector (fun i => fs'.disk (partLba * sectorSize + i)) = bpb :=
    (Bpb.ofSector_congr boot).trans mounts.sector
  have place : (findFat32Partition dev fs').1 = partLba := by
    have same := mounts.place
    simp only [findFat32Partition, readBlocks_ok ok] at same ⊢
    rw [Bpb.ofSector_congr first, partitionLoop_congr first 4 0 (by decide)]
    split at same
    · rename_i whole
      rw [if_pos whole]
      exact same
    · rename_i parts
      rw [if_neg parts]
      exact same
  have disk : ∀ fs : State, (findFat32Partition dev fs).2.disk = fs.disk := by
    intro fs
    simp only [findFat32Partition, readBlocks_ok ok]
    split <;> rfl
  refine ⟨place, sector, ?_⟩
  have same := mounts.mounted
  simp only [fat32Init, readBlocks_ok ok, place, mounts.place, disk, sector, mounts.sector] at same ⊢
  split at same
  · cases same
  rename_i found
  rw [if_neg found]
  split at same
  · cases same
  rename_i size
  rw [if_neg size]
  split at same
  · cases same
  rename_i table
  rw [if_neg table]

theorem Bpb.Fits.volume (fits : bpb.Fits partLba clusters) :
    (bpb.volume partLba).fatStartLba = partLba + bpb.reservedSectors ∧
      (bpb.volume partLba).clusterBeginLba = partLba + bpb.reservedSectors + bpb.numFats * bpb.fatSize32 := by
  have room := fits.addressable
  have data : 0 < clusters * bpb.sectorsPerCluster := Nat.mul_pos fits.some fits.sectors
  have start : u32 (partLba + bpb.reservedSectors) = partLba + bpb.reservedSectors := Nat.mod_eq_of_lt (by omega)
  have tables : u32 (bpb.numFats * bpb.fatSize32) = bpb.numFats * bpb.fatSize32 := Nat.mod_eq_of_lt (by omega)
  refine ⟨start, ?_⟩
  simp only [Bpb.volume, start, tables]
  exact Nat.mod_eq_of_lt (by omega)

theorem Bpb.Fits.table (fits : bpb.Fits partLba clusters) : 0 < bpb.fatSize32 := by
  have covered := fits.covered
  apply Nat.pos_of_ne_zero
  intro none
  rw [none, Nat.zero_mul] at covered
  omega

theorem Mounts.geometry (mounts : Mounts dev fs partLba bpb) (fits : bpb.Fits partLba clusters) (two : bpb.numFats = 2) :
    Geometry (bpb.volume partLba) clusters where
  sectors := fits.sectors
  small := by
    have byte := load_lt (fun i => fs.disk (partLba * sectorSize + i)) 13 1
    have field := congrArg Bpb.sectorsPerCluster mounts.sector
    simp only [Bpb.ofSector] at field
    rw [field] at byte
    exact byte
  bytes := rfl
  table := fits.table
  copies := by rw [fits.volume.1, fits.volume.2, two]; rfl
  covered := fits.covered
  marks := fits.marks
  addressable := by
    rw [fits.volume.2]
    exact fits.addressable

theorem run_updates (ok : Reliable dev) {v : Volume} (geo : Geometry v clusters) {start : State} {ops : List FatOp}
    (run : Run (FatStep dev v clusters) start ops fs) : Relation.ReflTransGen (Updates v) start.disk fs.disk := by
  have room : v.fatStartLba + 2 * v.fatSize ≤ 2 ^ 32 := by
    have := geo.copies
    have := geo.addressable
    omega
  refine run.invariant (fun fs => Relation.ReflTransGen (Updates v) start.disk fs.disk) .refl ?_
  rintro fs op next before ⟨inside, done⟩
  cases op with
  | setEntry cluster value =>
    have listed : cluster < v.fatSize * entriesPerSec := Nat.lt_of_lt_of_le inside.2 geo.covered
    have small : cluster < 2 ^ 28 := Nat.lt_of_lt_of_le inside.2 (Nat.le_trans geo.marks (by decide))
    obtain ⟨m, t, after, update⟩ := fatSetEntry_updates ok fs value room listed small
    simp only [FatOp.apply, after, Except.ok.injEq] at done
    subst done
    exact before.tail update
  | allocCluster =>
    obtain ⟨c, m, t, after, update⟩ := allocLoop_updates ok room v.fatSize 0 fs (Nat.zero_add _)
    simp only [FatOp.apply, fatAllocCluster, after, Except.ok.injEq] at done
    subst done
    rcases update with same | update
    · rw [after_disk, same]
      exact before
    · exact before.tail update
  | freeChain cluster =>
    obtain ⟨closed, chain⟩ := inside
    have few := linked_card_le v clusters fs.disk
    obtain ⟨m, t, after, updates⟩ := fatFreeChain_updates ok geo (clusters + 2) fs cluster (by omega) closed
      (fun link => ⟨chain link, by omega⟩)
    simp only [FatOp.apply, after, Except.ok.injEq] at done
    subst done
    exact before.trans updates

theorem updates_outside {v : Volume} {m m' : Mem} (updates : Relation.ReflTransGen (Updates v) m m') {a : Nat}
    (outside : ¬ InCopies v 2 a) : m' a = m a := by
  induction updates with
  | refl => rfl
  | tail _ update ih => exact (update.outside outside).trans ih

theorem updates_equal {v : Volume} {m m' : Mem} (updates : Relation.ReflTransGen (Updates v) m m')
    (equal : CopiesEqual v 2 m) : CopiesEqual v 2 m' := by
  induction updates with
  | refl => exact equal
  | tail _ update ih => exact update.equal ih

theorem tablesKept_two (ok : Reliable dev) {v : Volume} (geo : Geometry v clusters) (start : State) :
    TablesKept dev v clusters 2 start := by
  intro ops fs run
  have updates := run_updates ok geo run
  refine ⟨fun a apart => updates_outside updates apart, fun a inside => updates_outside updates ?_, updates_equal updates⟩
  rintro ⟨i, few, _, high⟩
  have low := inside.1
  rw [geo.copies] at low
  have last : (v.fatStartLba + (i + 1) * v.fatSize) * sectorSize ≤ (v.fatStartLba + 2 * v.fatSize) * sectorSize :=
    Nat.mul_le_mul_right _ (Nat.add_le_add_left (Nat.mul_le_mul_right _ (by omega)) _)
  omega

/-- A value for an entry that is read as `e` which is not its own. -/
def otherValue (e : Nat) : Nat := (e + 1) % 2 ^ 28

theorem setWord_lt (x e : Nat) : setWord x e < 256 ^ 4 :=
  Nat.or_lt_two_pow (n := 32) (Nat.and_lt_two_pow _ (by decide)) (Nat.and_lt_two_pow _ (by decide))

theorem setWord_otherValue (e : Nat) : setWord (otherValue e) e ≠ e := by
  intro same
  have low : setWord (otherValue e) e &&& 0x0FFFFFFF = e &&& 0x0FFFFFFF := by rw [same]
  rw [setWord, keep_high, Nat.and_assoc, Nat.and_self, mask_eq, mask_eq, otherValue] at low
  omega

section
variable {v : Volume} (ok : Reliable dev) (table : 0 < v.fatSize) (size : v.fatSize < 2 ^ 32)
  (start : v.fatStartLba < 2 ^ 32) (some : 0 < clusters)
include ok table size start some

theorem run_changes (fs : State) (x : Nat) :
    ∃ next, Run (FatStep dev v clusters) fs [.setEntry 2 x] next ∧
      load next.disk (entryAddr v 2) 4 = setWord x (load fs.disk (entryAddr v 2) 4) ∧
      (v.fatStartLba + v.fatSize < 2 ^ 32 →
        load next.disk (entryAddr v 2 + v.fatSize * sectorSize) 4 =
          setWord x (load fs.disk (entryAddr v 2 + v.fatSize * sectorSize) 4) ∧
        ∀ a, entryAddr v 2 + v.fatSize * sectorSize + 4 ≤ a → next.disk a = fs.disk a) := by
  obtain ⟨t, done⟩ := @fatSetEntry_stores dev v 2 ok fs x table (by decide) start
  have wide : sectorSize ≤ v.fatSize * sectorSize := Nat.le_mul_of_pos_left _ table
  have run : Run (FatStep dev v clusters) fs ([] ++ [.setEntry 2 x]) (fatSetEntry dev v fs 2 x) :=
    Run.nil.snoc ⟨⟨Nat.le_refl 2, by omega⟩, rfl⟩
  refine ⟨fatSetEntry dev v fs 2 x, run, ?_, fun room => ?_⟩
  · -- the second word is in another sector
    have apart : u32 (v.fatStartLba + 2 / 128 + v.fatSize) ≠ v.fatStartLba := by
      simp only [u32]
      omega
    rw [done, after_disk]
    rw [load_store_apart, load_store (setWord_lt _ _)]
    simp only [entryAddr, sectorSize]
    omega
  · have second : u32 (v.fatStartLba + 2 / 128 + v.fatSize) = v.fatStartLba + 2 / 128 + v.fatSize :=
      Nat.mod_eq_of_lt (by omega)
    simp only [sectorSize] at wide
    simp only [second, entry_second v 2] at done
    rw [done, after_disk]
    refine ⟨?_, fun a beyond => ?_⟩
    · rw [load_store (setWord_lt _ _), load_store_apart (Or.inr (by simp only [sectorSize]; omega))]
    · rw [store_outside _ _ _ _ (Or.inr beyond), store_outside _ _ _ _ (Or.inr (by omega))]

end

def mirrored (v : Volume) (copies : Nat) (m : Mem) : Mem := fun a =>
  if v.fatStartLba * sectorSize ≤ a ∧ a < (v.fatStartLba + copies * v.fatSize) * sectorSize then
    m (v.fatStartLba * sectorSize + (a - v.fatStartLba * sectorSize) % (v.fatSize * sectorSize))
  else m a

theorem mirrored_equal {v : Volume} {copies : Nat} (m : Mem) : CopiesEqual v copies (mirrored v copies m) := by
  have read : ∀ i < copies, ∀ o < v.fatSize * sectorSize,
      mirrored v copies m ((v.fatStartLba + i * v.fatSize) * sectorSize + o) = m (v.fatStartLba * sectorSize + o) := by
    intro i few o small
    have place : (v.fatStartLba + i * v.fatSize) * sectorSize + o =
        v.fatStartLba * sectorSize + (o + (v.fatSize * sectorSize) * i) := by
      rw [Nat.add_mul, Nat.mul_comm i, Nat.mul_right_comm]
      omega
    have last : (v.fatSize * sectorSize) * i + v.fatSize * sectorSize ≤ (v.fatSize * sectorSize) * copies := by
      rw [← Nat.mul_succ]
      exact Nat.mul_le_mul_left _ few
    have total : (v.fatStartLba + copies * v.fatSize) * sectorSize =
        v.fatStartLba * sectorSize + (v.fatSize * sectorSize) * copies := by
      rw [Nat.add_mul, Nat.mul_comm copies, Nat.mul_right_comm]
    rw [place, mirrored, if_pos ⟨by omega, by omega⟩, Nat.add_sub_cancel_left, Nat.add_mul_mod_self_left,
      Nat.mod_eq_of_lt small]
  intro i few o small
  have first := read 0 (by omega) o small
  rw [Nat.zero_mul, Nat.add_zero] at first
  rw [read i few o small, first]

theorem mirrored_first {v : Volume} {copies : Nat} (m : Mem) {a : Nat}
    (below : a < v.fatStartLba * sectorSize + v.fatSize * sectorSize) : mirrored v copies m a = m a := by
  unfold mirrored
  split
  · rename_i inside
    rw [Nat.mod_eq_of_lt (by omega), Nat.add_sub_cancel' inside.1]
  · rfl

theorem tables_too_few (ok : Reliable dev) (fits : bpb.Fits partLba clusters) (size : bpb.fatSize32 < 2 ^ 32)
    (few : bpb.numFats < 2) (fs : State) : ¬ TablesKept dev (bpb.volume partLba) clusters bpb.numFats fs := by
  intro kept
  obtain ⟨first, _⟩ := fits.volume
  have room := fits.addressable
  have data : 0 < clusters * bpb.sectorsPerCluster := Nat.mul_pos fits.some fits.sectors
  have start : (bpb.volume partLba).fatStartLba < 2 ^ 32 := by
    rw [first]
    omega
  have wide : sectorSize ≤ (bpb.volume partLba).fatSize * sectorSize := Nat.le_mul_of_pos_left _ fits.table
  obtain none | one : bpb.numFats = 0 ∨ bpb.numFats = 1 := by omega
  · -- there is no table at all
    obtain ⟨next, run, changed, _⟩ := run_changes ok fits.table size start fits.some fs
      (otherValue (load fs.disk (entryAddr (bpb.volume partLba) 2) 4))
    have other : load next.disk (entryAddr (bpb.volume partLba) 2) 4 ≠
        load fs.disk (entryAddr (bpb.volume partLba) 2) 4 := by
      rw [changed]
      exact setWord_otherValue _
    obtain ⟨a, _, _, differ⟩ := load_ne other
    refine differ ((kept _ next run).1 a ?_)
    rw [none]
    rintro ⟨i, impossible, _⟩
    exact absurd impossible (Nat.not_lt_zero i)
  · obtain ⟨next, run, _, second⟩ := run_changes ok fits.table size start fits.some fs
      (otherValue (load fs.disk (entryAddr (bpb.volume partLba) 2 + (bpb.volume partLba).fatSize * sectorSize) 4))
    have inside : (bpb.volume partLba).fatStartLba + (bpb.volume partLba).fatSize < 2 ^ 32 := by
      rw [one, Nat.one_mul] at room
      rw [first]
      simp only [Bpb.volume]
      omega
    obtain ⟨changed, _⟩ := second inside
    have other : load next.disk (entryAddr (bpb.volume partLba) 2 + (bpb.volume partLba).fatSize * sectorSize) 4 ≠
        load fs.disk (entryAddr (bpb.volume partLba) 2 + (bpb.volume partLba).fatSize * sectorSize) 4 := by
      rw [changed]
      exact setWord_otherValue _
    obtain ⟨a, low, _, differ⟩ := load_ne other
    refine differ ((kept _ next run).1 a ?_)
    rw [one]
    rintro ⟨i, single, _, high⟩
    obtain rfl : i = 0 := by omega
    rw [Nat.zero_add, Nat.one_mul, Nat.add_mul] at high
    rw [entryAddr] at low
    omega

theorem tables_too_many (ok : Reliable dev) (mounts : Mounts dev fs partLba bpb) (fits : bpb.Fits partLba clusters)
    (many : 2 < bpb.numFats) :
    ∃ start, Mounts dev start partLba bpb ∧ ¬ TablesKept dev (bpb.volume partLba) clusters bpb.numFats start := by
  obtain ⟨first, _⟩ := fits.volume
  have room := fits.addressable
  have data : 0 < clusters * bpb.sectorsPerCluster := Nat.mul_pos fits.some fits.sectors
  have three : 3 * bpb.fatSize32 ≤ bpb.numFats * bpb.fatSize32 := Nat.mul_le_mul_right _ many
  have wide : sectorSize ≤ (bpb.volume partLba).fatSize * sectorSize := Nat.le_mul_of_pos_left _ fits.table
  have table : 0 < (bpb.volume partLba).fatSize := fits.table
  have tables : (bpb.volume partLba).fatStartLba + 3 * (bpb.volume partLba).fatSize < 2 ^ 32 := by
    rw [first]
    simp only [Bpb.volume]
    omega
  have before : partLba ≤ (bpb.volume partLba).fatStartLba := by
    rw [first]
    exact Nat.le_add_right _ _
  generalize bpb.volume partLba = v at *
  have boot : ∀ lba ≤ partLba, ∀ i < sectorSize,
      mirrored v bpb.numFats fs.disk (lba * sectorSize + i) = fs.disk (lba * sectorSize + i) := by
    intro lba early i small
    apply mirrored_first
    have : lba * sectorSize ≤ v.fatStartLba * sectorSize := Nat.mul_le_mul_right _ (Nat.le_trans early before)
    omega
  refine ⟨fs.after (mirrored v bpb.numFats fs.disk) fs.clock,
    mounts.congr ok (boot 0 (Nat.zero_le _)) (boot partLba (Nat.le_refl _)), fun kept => ?_⟩
  generalize same : fs.after (mirrored v bpb.numFats fs.disk) fs.clock = start at kept
  have equal : CopiesEqual v bpb.numFats start.disk := by
    rw [← same]
    exact mirrored_equal _
  obtain ⟨next, run, changed, second⟩ := run_changes ok table (by omega) (by omega) fits.some start
    (otherValue (load start.disk (entryAddr v 2) 4))
  obtain ⟨_, beyond⟩ := second (by omega)
  have after := (kept _ next run).2.2 equal
  -- the word of the third table
  have twin : ∀ m, CopiesEqual v bpb.numFats m →
      load m ((v.fatStartLba + 2 * v.fatSize) * sectorSize + 4 * 2) 4 = load m (entryAddr v 2) 4 := by
    intro m copies
    rw [entryAddr, ← load_shift, ← load_shift]
    apply load_congr
    intro x _ high
    have sector : 12 ≤ sectorSize := by decide
    exact copies 2 many x (by omega)
  have third : load next.disk ((v.fatStartLba + 2 * v.fatSize) * sectorSize + 4 * 2) 4 =
      load start.disk ((v.fatStartLba + 2 * v.fatSize) * sectorSize + 4 * 2) 4 := by
    apply load_congr
    intro x low _
    apply beyond
    have sector : 4 ≤ sectorSize := by decide
    rw [Nat.add_mul, Nat.mul_assoc] at low
    rw [entryAddr]
    omega
  rw [twin next.disk after, twin start.disk equal, changed] at third
  exact setWord_otherValue _ third

end

/-- On a volume that `fat32_init` has mounted, runs write to the tables only and keep them
equal exactly if there are two of them. -/
theorem fat_tables_kept {dev : Device} (ok : Reliable dev) {fs : State} {partLba clusters : Nat} {bpb : Bpb}
    (mounts : Mounts dev fs partLba bpb) (fits : bpb.Fits partLba clusters) :
    (∀ start, Mounts dev start partLba bpb → TablesKept dev (bpb.volume partLba) clusters bpb.numFats start) ↔
      bpb.numFats = 2 := by
  have size : bpb.fatSize32 < 2 ^ 32 := by
    have word := load_lt (fun i => fs.disk (partLba * sectorSize + i)) 36 4
    have field := congrArg Bpb.fatSize32 mounts.sector
    simp only [Bpb.ofSector] at field
    rw [field] at word
    exact word
  constructor
  · intro kept
    by_contra other
    rcases Nat.lt_or_gt_of_ne other with few | many
    · exact tables_too_few ok fits size few fs (kept fs mounts)
    · obtain ⟨start, again, changed⟩ := tables_too_many ok mounts fits many
      exact changed (kept start again)
  · intro two start again
    rw [two]
    exact tablesKept_two ok (again.geometry fits two) start

/-- A boot sector in block 0: one reserved block, tables of one block, clusters of one block. -/
def bootSector (numFats : UInt8) : Mem := fun a =>
  if a = 12 then 2 else if a = 13 then 1 else if a = 14 then 1 else if a = 16 then numFats else if a = 36 then 1
  else if a = 44 then 2 else if a = 82 then 0x46 else if a = 83 then 0x41 else if a = 84 then 0x54
  else if a = 85 then 0x33 else if a = 86 then 0x32 else if a = 510 then 0x55 else if a = 511 then 0xAA else 0

def bootBpb (numFats : Nat) : Bpb := ⟨512, 1, 1, numFats, 1, 2, fat32Type, 0xAA55⟩

theorem bootBpb_fits (numFats : Nat) (few : numFats < 256) : (bootBpb numFats).Fits 0 100 :=
  ⟨Nat.one_pos, by decide, show 100 + 2 ≤ 1 * entriesPerSec by decide, by decide, by simp only [bootBpb]; omega⟩

theorem fat_tables_kept_twoTables :
    TablesKept reliable ((bootBpb 2).volume 0) 100 2 ⟨bootSector 2, [], 0⟩ := by
  have mounts : Mounts reliable ⟨bootSector 2, [], 0⟩ 0 (bootBpb 2) := ⟨rfl, rfl, rfl⟩
  exact (fat_tables_kept reliable_ok mounts (bootBpb_fits 2 (by decide))).mpr rfl _ mounts

/-- A volume with one table: `fat_set_entry` writes to its first cluster. -/
theorem single_table_overwritten : ¬ ∀ dev fs partLba clusters bpb, Reliable dev → Mounts dev fs partLba bpb →
    bpb.Fits partLba clusters → TablesKept dev (bpb.volume partLba) clusters bpb.numFats fs := by
  intro kept
  have mounts : Mounts reliable ⟨bootSector 1, [], 0⟩ 0 (bootBpb 1) := ⟨rfl, rfl, rfl⟩
  have fits := bootBpb_fits 1 (by decide)
  exact tables_too_few reliable_ok fits (by decide) (by decide) _
    (kept reliable _ 0 100 (bootBpb 1) reliable_ok mounts fits)

end RexOs.Fs
