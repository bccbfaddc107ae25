import RexOs.Fs.Fat32
import Mathlib.Data.Nat.Bitwise

/-! What the driver does to the table and to clusters, on a device that does not fail.

`entry` reads the first copy of the table and `clusterAddr` is where the bytes of a cluster start.
-/

set_option autoImplicit false

namespace RexOs.Fs

open RexOs.Library

def WritesSucceed (dev : Device) : Prop := ∀ t, dev.writeOk t = true

structure Reliable (dev : Device) : Prop where
  reads : ∀ t, dev.readOk t = true
  writes : ∀ t, dev.writeOk t = true
  allocs : ∀ t, dev.allocOk t = true

def reliable : Device := ⟨fun _ => true, fun _ => true, fun _ => true⟩

theorem reliable_ok : Reliable reliable := ⟨fun _ => rfl, fun _ => rfl, fun _ => rfl⟩

structure Geometry (v : Volume) (clusters : Nat) : Prop where
  sectors : 0 < v.sectorsPerCluster
  small : v.sectorsPerCluster < 256
  bytes : v.bytesPerCluster = v.sectorsPerCluster * sectorSize
  table : 0 < v.fatSize
  copies : v.clusterBeginLba = v.fatStartLba + 2 * v.fatSize
  covered : clusters + 2 ≤ v.fatSize * entriesPerSec
  marks : clusters + 2 ≤ clusterEndMark
  addressable : v.clusterBeginLba + clusters * v.sectorsPerCluster ≤ 2 ^ 32

def entryAddr (v : Volume) (c : Nat) : Nat := v.fatStartLba * sectorSize + 4 * c

def entry (v : Volume) (m : Mem) (c : Nat) : Nat := load m (entryAddr v c) 4 &&& 0x0FFFFFFF

def clusterAddr (v : Volume) (c : Nat) : Nat := (v.clusterBeginLba + (c - 2) * v.sectorsPerCluster) * sectorSize

def InVolume (clusters c : Nat) : Prop := 2 ≤ c ∧ c < clusters + 2

def State.after (fs : State) (m : Mem) (t : Nat) : State := { fs with disk := m, clock := t }

variable {dev : Device} {v : Volume} {clusters : Nat} {fs : State} {m m' : Mem} {c x t : Nat}

@[simp] theorem after_disk : (fs.after m t).disk = m := rfl
@[simp] theorem after_nodes : (fs.after m t).nodes = fs.nodes := rfl
@[simp] theorem after_clock : (fs.after m t).clock = t := rfl
@[simp] theorem after_after {t' : Nat} : (fs.after m t).after m' t' = fs.after m' t' := rfl

theorem mask_eq (n : Nat) : n &&& 0x0FFFFFFF = n % 2 ^ 28 := Nat.and_two_pow_sub_one_eq_mod n 28

theorem readBlocks_read (read : dev.readOk fs.clock = true) (lba n : Nat) :
    readBlocks dev fs lba n = (some fun i => fs.disk (lba * sectorSize + i), fs.after fs.disk (fs.clock + 1)) := by
  simp only [readBlocks, read, if_true, State.tick, State.after]

theorem readBlocks_unread (unread : dev.readOk fs.clock = false) (lba n : Nat) :
    readBlocks dev fs lba n = (none, fs.after fs.disk (fs.clock + 1)) := by
  simp only [readBlocks, unread, Bool.false_eq_true, if_false, State.tick, State.after]

theorem heapAlloc_at (dev : Device) (fs : State) : heapAlloc dev fs = (dev.allocOk fs.clock, fs.after fs.disk (fs.clock + 1)) := rfl

theorem writeBlocks_done (writes : WritesSucceed dev) (fs : State) (lba n : Nat) (buf : Mem) :
    writeBlocks dev fs lba n buf =
      (true, fs.after (paste fs.disk (lba * sectorSize) (n * sectorSize) buf) (fs.clock + 1)) := by
  simp only [writeBlocks, writes fs.clock, if_true, State.tick, State.after]

theorem readBlocks_ok (ok : Reliable dev) (fs : State) (lba n : Nat) :
    readBlocks dev fs lba n = (some fun i => fs.disk (lba * sectorSize + i), fs.after fs.disk (fs.clock + 1)) :=
  readBlocks_read (ok.reads fs.clock) lba n

theorem writeBlocks_ok (ok : Reliable dev) (fs : State) (lba n : Nat) (buf : Mem) :
    writeBlocks dev fs lba n buf =
      (true, fs.after (paste fs.disk (lba * sectorSize) (n * sectorSize) buf) (fs.clock + 1)) :=
  writeBlocks_done ok.writes fs lba n buf

theorem heapAlloc_ok (ok : Reliable dev) (fs : State) : heapAlloc dev fs = (true, fs.after fs.disk (fs.clock + 1)) := by
  rw [heapAlloc_at, ok.allocs]

theorem fatSectorOf_eq (geo : Geometry v clusters) (listed : c < v.fatSize * entriesPerSec) (small : c < 2 ^ 28) :
    fatSectorOf v c = v.fatStartLba + c / 128 ∧ u32 (c * 4) % sectorSize = 4 * (c % 128) := by
  have copies := geo.copies
  have room := geo.addressable
  have whole : u32 (c * 4) = c * 4 := Nat.mod_eq_of_lt (by omega)
  simp only [fatSectorOf, whole, sectorSize, entriesPerSec] at *
  refine ⟨?_, by omega⟩
  rw [u32, Nat.mod_eq_of_lt (by omega)]
  omega

theorem entry_sector (v : Volume) (m : Mem) (c : Nat) :
    load (fun i => m ((v.fatStartLba + c / 128) * sectorSize + i)) (4 * (c % 128)) 4 = load m (entryAddr v c) 4 := by
  have place : (v.fatStartLba + c / 128) * sectorSize + 4 * (c % 128) = entryAddr v c := by
    simp only [entryAddr, sectorSize]
    omega
  rw [load_shift, place]

theorem fatNextCluster_read (read : dev.readOk fs.clock = true) (geo : Geometry v clusters)
    (listed : c < v.fatSize * entriesPerSec) (small : c < 2 ^ 28) :
    fatNextCluster dev v fs c = (entry v fs.disk c, fs.after fs.disk (fs.clock + 1)) := by
  obtain ⟨sector, place⟩ := fatSectorOf_eq geo listed small
  have quarter : 4 * (4 * (c % 128) / 4) = 4 * (c % 128) := by omega
  simp only [fatNextCluster, readBlocks_read read, sector, place, quarter]
  rw [entry_sector, entry]

theorem fatNextCluster_unread (unread : dev.readOk fs.clock = false) :
    fatNextCluster dev v fs c = (0x0FFFFFFF, fs.after fs.disk (fs.clock + 1)) := by
  rw [fatNextCluster, readBlocks_unread unread]

theorem fatNextCluster_ok (ok : Reliable dev) (geo : Geometry v clusters) (fs : State)
    (listed : c < v.fatSize * entriesPerSec) (small : c < 2 ^ 28) :
    fatNextCluster dev v fs c = (entry v fs.disk c, fs.after fs.disk (fs.clock + 1)) :=
  fatNextCluster_read (ok.reads fs.clock) geo listed small

structure SetsEntry (v : Volume) (m : Mem) (c x : Nat) (m' : Mem) : Prop where
  here : entry v m' c = x
  there : ∀ c' < v.fatSize * entriesPerSec, c' ≠ c → entry v m' c' = entry v m c'
  data : ∀ a, v.clusterBeginLba * sectorSize ≤ a → m' a = m a

theorem setsEntry_of_stores (geo : Geometry v clusters) (listed : c < v.fatSize * entriesPerSec) {e e' : Nat}
    (word : e < 256 ^ 4) (value : e &&& 0x0FFFFFFF = x) :
    SetsEntry v m c x
      (store (store m (entryAddr v c) 4 e) (entryAddr v c + v.fatSize * sectorSize) 4 e') where
  here := by
    rw [entry, load_store_apart, load_store word, value]
    simp only [entryAddr, sectorSize, entriesPerSec] at *
    omega
  there := by
    intro c' listed' other
    simp only [sectorSize, entriesPerSec] at listed listed'
    rw [entry, load_store_apart, load_store_apart, ← entry]
    all_goals
      simp only [entryAddr, sectorSize]
      omega
  data := by
    intro a above
    have copies := geo.copies
    simp only [sectorSize, entriesPerSec] at listed above
    rw [store_outside, store_outside]
    all_goals
      simp only [entryAddr, sectorSize]
      omega

theorem keep_high (e x : Nat) : (e &&& 0xF0000000 ||| x) &&& 0x0FFFFFFF = x &&& 0x0FFFFFFF := by
  rw [Nat.and_or_distrib_right, Nat.and_assoc]
  simp

theorem sector_store (v : Volume) (m : Mem) (c copy e : Nat) :
    paste m ((v.fatStartLba + c / 128 + copy) * sectorSize) (1 * sectorSize)
      (store (fun i => m ((v.fatStartLba + c / 128 + copy) * sectorSize + i)) (4 * (c % 128)) 4 e) =
    store m (entryAddr v c + copy * sectorSize) 4 e := by
  have place : (v.fatStartLba + c / 128 + copy) * sectorSize + 4 * (c % 128) = entryAddr v c + copy * sectorSize := by
    simp only [entryAddr, sectorSize]
    omega
  rw [paste_store _ _ (by simp only [sectorSize]; omega), place]

theorem fatSetEntry_ok (ok : Reliable dev) (geo : Geometry v clusters) (fs : State)
    (listed : c < v.fatSize * entriesPerSec) (small : c < 2 ^ 28) (value : x < 2 ^ 28) :
    ∃ m t, fatSetEntry dev v fs c x = fs.after m t ∧ SetsEntry v fs.disk c x m := by
  obtain ⟨sector, place⟩ := fatSectorOf_eq geo listed small
  have copies := geo.copies
  have room := geo.addressable
  have first : u32 (v.fatStartLba + c / 128 + 0 * v.fatSize) = v.fatStartLba + c / 128 + 0 := by
    simp only [entriesPerSec, sectorSize] at listed
    rw [u32, Nat.mod_eq_of_lt (by omega)]
    omega
  have second : u32 (v.fatStartLba + c / 128 + (0 + 1) * v.fatSize) = v.fatStartLba + c / 128 + v.fatSize := by
    simp only [entriesPerSec, sectorSize] at listed
    rw [u32, Nat.mod_eq_of_lt (by omega)]
    omega
  have fits : ∀ e, e &&& 0xF0000000 ||| x &&& 0x0FFFFFFF < 256 ^ 4 := by
    intro e
    refine Nat.or_lt_two_pow (n := 32) (Nat.and_lt_two_pow _ (by decide)) (Nat.and_lt_two_pow _ (by decide))
  simp only [fatSetEntry, geo.table, if_true, setEntryLoop, readBlocks_ok ok, writeBlocks_ok ok, sector,
    place, first, second, after_disk, sector_store, after_after]
  refine ⟨_, _, rfl, ?_⟩
  rw [Nat.zero_mul, Nat.add_zero]
  refine setsEntry_of_stores geo listed (fits _) ?_
  rw [keep_high, Nat.and_assoc, Nat.and_self, mask_eq, Nat.mod_eq_of_lt value]

theorem freeEntryLoop_some {buf : Mem} {sec k : Nat} : ∀ {rounds j : Nat}, freeEntryLoop buf sec rounds j = some k →
    j ≤ k ∧ k < j + rounds ∧ load buf (4 * k) 4 &&& 0x0FFFFFFF = 0 ∧ 2 ≤ u32 (sec * entriesPerSec + k) := by
  intro rounds
  induction rounds with
  | zero =>
    intro j found
    cases found
  | succ rounds ih =>
    intro j found
    rw [freeEntryLoop] at found
    split at found
    · rename_i free
      cases found
      exact ⟨Nat.le_refl _, by omega, free⟩
    · obtain ⟨low, high, free⟩ := ih found
      exact ⟨by omega, by omega, free⟩

def FreeInside (v : Volume) (clusters : Nat) (m : Mem) : Prop :=
  ∀ c, 2 ≤ c → c < v.fatSize * entriesPerSec → entry v m c = 0 → c < clusters + 2

/-- What an allocation from sector `sec` on returns. -/
def Allocates (v : Volume) (clusters : Nat) (m : Mem) (c : Nat) (m' : Mem) : Prop :=
  c = 0 ∧ m' = m ∨ InVolume clusters c ∧ entry v m c = 0 ∧ SetsEntry v m c 0x0FFFFFFF m'

theorem sectors_exact (v : Volume) (sec : Nat) (room : v.fatStartLba + 2 * v.fatSize ≤ 2 ^ 32) (inside : sec < v.fatSize) :
    u32 (v.fatStartLba + sec) = v.fatStartLba + sec ∧ u32 (v.fatStartLba + v.fatSize + sec) = v.fatStartLba + sec + v.fatSize := by
  unfold u32
  omega

theorem allocLoop_ok (ok : Reliable dev) (geo : Geometry v clusters) : ∀ (rounds sec : Nat) (fs : State),
    FreeInside v clusters fs.disk → sec + rounds = v.fatSize →
    ∃ c m t, allocLoop dev v rounds sec fs = (c, fs.after m t) ∧ Allocates v clusters fs.disk c m := by
  have copies := geo.copies
  have room := geo.addressable
  have marks := geo.marks
  intro rounds
  induction rounds with
  | zero =>
    intro sec fs _ _
    exact ⟨0, fs.disk, fs.clock, rfl, Or.inl ⟨rfl, rfl⟩⟩
  | succ rounds ih =>
    intro sec fs inside all
    obtain ⟨here, second⟩ := sectors_exact v sec (by omega) (by omega)
    simp only [allocLoop, readBlocks_ok ok, here]
    cases found : freeEntryLoop (fun i => fs.disk ((v.fatStartLba + sec) * sectorSize + i)) sec entriesPerSec 0 with
    | none => exact ih (sec + 1) (fs.after fs.disk (fs.clock + 1)) inside (by omega)
    | some j =>
      obtain ⟨-, small, free, real⟩ := freeEntryLoop_some found
      -- the entry that was found is that of cluster `128 * sec + j`
      have few : j < 128 := by simpa [entriesPerSec, sectorSize] using small
      have quotient : (sec * 128 + j) / 128 = sec := by omega
      have rest : (sec * 128 + j) % 128 = j := by omega
      have cluster : sec * entriesPerSec + j = sec * 128 + j := rfl
      have listed : sec * 128 + j < v.fatSize * entriesPerSec := by
        simp only [entriesPerSec, sectorSize]
        omega
      have zero : entry v fs.disk (sec * 128 + j) = 0 := by
        rw [entry, ← entry_sector, quotient, rest]
        exact free
      have two : 2 ≤ sec * 128 + j := by
        rw [cluster] at real
        exact Nat.le_trans real (Nat.mod_le _ _)
      have bound := inside _ two listed zero
      have whole : u32 (sec * 128 + j) = sec * 128 + j := by
        simp only [clusterEndMark] at marks
        exact Nat.mod_eq_of_lt (by omega)
      have mark : ∀ (m : Mem) (copy : Nat),
          paste m ((v.fatStartLba + sec + copy) * sectorSize) (1 * sectorSize)
            (markEntry (fun i => m ((v.fatStartLba + sec + copy) * sectorSize + i)) j) =
          store m (entryAddr v (sec * 128 + j) + copy * sectorSize) 4
            (load (fun i => m ((v.fatStartLba + sec + copy) * sectorSize + i)) (4 * j) 4 &&& 0xF0000000
              ||| 0xFFFFFFFF) := by
        intro m copy
        have stored := sector_store v m (sec * 128 + j) copy
        rw [quotient, rest] at stored
        exact stored _
      have markFirst := mark fs.disk 0
      simp only [Nat.add_zero, Nat.zero_mul] at markFirst
      simp only [cluster, whole, writeBlocks_ok ok, markSecond, geo.table, if_true, readBlocks_ok ok, second,
        after_disk, after_after, mark, markFirst]
      refine ⟨_, _, _, rfl, Or.inr ⟨⟨two, bound⟩, zero, ?_⟩⟩
      refine setsEntry_of_stores geo listed ?_ ?_
      · exact Nat.or_lt_two_pow (n := 32) (Nat.and_lt_two_pow _ (by decide)) (by decide)
      · rw [keep_high]
        decide

theorem fatAllocCluster_ok (ok : Reliable dev) (geo : Geometry v clusters) (fs : State)
    (inside : FreeInside v clusters fs.disk) :
    ∃ c m t, fatAllocCluster dev v fs = (c, fs.after m t) ∧ Allocates v clusters fs.disk c m :=
  allocLoop_ok ok geo v.fatSize 0 fs inside (Nat.zero_add _)

theorem clusterToLba_eq (geo : Geometry v clusters) (inside : InVolume clusters c) :
    clusterToLba v c = v.clusterBeginLba + (c - 2) * v.sectorsPerCluster ∧
      clusterToLba v c + v.sectorsPerCluster ≤ 2 ^ 32 := by
  have room := geo.addressable
  have some := geo.sectors
  have last : (c - 2) * v.sectorsPerCluster + v.sectorsPerCluster ≤ clusters * v.sectorsPerCluster := by
    rw [← Nat.succ_mul]
    exact Nat.mul_le_mul_right _ (by have := inside.2; have := inside.1; omega)
  have wrap : v.clusterBeginLba + (c + 2 ^ 32 - 2) * v.sectorsPerCluster =
      v.clusterBeginLba + (c - 2) * v.sectorsPerCluster + 2 ^ 32 * v.sectorsPerCluster := by
    have shift : c + 2 ^ 32 - 2 = (c - 2) + 2 ^ 32 := by have := inside.1; omega
    rw [shift, Nat.add_mul, Nat.add_assoc]
  have equal : clusterToLba v c = v.clusterBeginLba + (c - 2) * v.sectorsPerCluster := by
    rw [clusterToLba, u32, wrap, Nat.add_mul_mod_self_left, Nat.mod_eq_of_lt (by omega)]
  exact ⟨equal, by omega⟩

def chunks (sectors : Nat) : Nat := (sectors + 31) / 32

theorem writeChunks_done (writes : WritesSucceed dev) (data : Mem) : ∀ (rounds lba p remaining : Nat) (fs : State),
    remaining ≤ rounds → lba + remaining ≤ 2 ^ 32 →
    writeChunks dev data rounds lba p remaining fs =
      (true, fs.after (paste fs.disk (lba * sectorSize) (remaining * sectorSize) fun i => data (p + i))
        (fs.clock + chunks remaining)) := by
  have done : ∀ (lba p : Nat) (fs : State),
      fs = fs.after (paste fs.disk (lba * sectorSize) (0 * sectorSize) fun i => data (p + i)) (fs.clock + chunks 0) := by
    intro lba p fs
    rw [Nat.zero_mul, paste_zero]
    rfl
  intro rounds
  induction rounds with
  | zero =>
    intro lba p remaining fs few _
    obtain rfl : remaining = 0 := by omega
    rw [← done]
    rfl
  | succ rounds ih =>
    intro lba p remaining fs few room
    rw [writeChunks]
    split
    · rename_i more
      generalize chunkIs : (if remaining > 32 then 32 else remaining) = chunk
      have bounds : 0 < chunk ∧ chunk ≤ remaining := by
        rw [← chunkIs]
        split <;> omega
      have count : 1 + chunks (remaining - chunk) = chunks remaining := by
        simp only [chunks]
        split at chunkIs <;> omega
      simp only [writeBlocks_done writes]
      have lba' : u32 (lba + chunk) + (remaining - chunk) ≤ 2 ^ 32 ∧
          (remaining - chunk = 0 ∨ u32 (lba + chunk) = lba + chunk) := by
        simp only [u32]
        omega
      rw [ih (u32 (lba + chunk)) (p + chunk * sectorSize) (remaining - chunk)
        (fs.after (paste fs.disk (lba * sectorSize) (chunk * sectorSize) fun i => data (p + i)) (fs.clock + 1))
        (by omega) lba'.1, after_after, after_disk, after_clock, Nat.add_assoc fs.clock, count]
      rcases lba'.2 with last | next
      · have all : chunk = remaining := by omega
        rw [last, Nat.zero_mul, paste_zero, all]
      · have whole : chunk * sectorSize + (remaining - chunk) * sectorSize = remaining * sectorSize := by
          rw [← Nat.add_mul, Nat.add_sub_cancel' bounds.2]
        rw [next, Nat.add_mul, ← whole, ← paste_append]
        simp only [Nat.add_assoc]
    · rename_i none
      obtain rfl : remaining = 0 := by omega
      rw [← done]

theorem fatWriteCluster_done (writes : WritesSucceed dev) (geo : Geometry v clusters) (fs : State) (data : Mem)
    (inside : InVolume clusters c) :
    fatWriteCluster dev v fs c data =
      (true, fs.after (paste fs.disk (clusterAddr v c) v.bytesPerCluster data) (fs.clock + chunks v.sectorsPerCluster)) := by
  obtain ⟨lba, room⟩ := clusterToLba_eq geo inside
  rw [fatWriteCluster, writeChunks_done writes data v.sectorsPerCluster (clusterToLba v c) 0 v.sectorsPerCluster fs
    (Nat.le_refl _) room, lba, geo.bytes, clusterAddr]
  simp only [Nat.zero_add]

theorem fatWriteCluster_ok (ok : Reliable dev) (geo : Geometry v clusters) (fs : State) (data : Mem)
    (inside : InVolume clusters c) :
    ∃ t, fatWriteCluster dev v fs c data =
      (true, fs.after (paste fs.disk (clusterAddr v c) v.bytesPerCluster data) t) :=
  ⟨_, fatWriteCluster_done ok.writes geo fs data inside⟩

theorem zeroCluster_ok (ok : Reliable dev) (geo : Geometry v clusters) (fs : State) (inside : InVolume clusters c) :
    ∃ t, zeroCluster dev v fs c = fs.after (paste fs.disk (clusterAddr v c) v.bytesPerCluster fun _ => 0) t := by
  obtain ⟨t, done⟩ := fatWriteCluster_ok ok geo (fs.after fs.disk (fs.clock + 1)) (fun _ => 0) inside
  refine ⟨t, ?_⟩
  simp only [zeroCluster, heapAlloc_ok ok, done, after_after, after_disk]

theorem readChunks_ok (ok : Reliable dev) : ∀ (rounds lba p remaining : Nat) (buf : Mem) (fs : State),
    remaining ≤ rounds → lba + remaining ≤ 2 ^ 32 →
    ∃ t, readChunks dev rounds lba p remaining buf fs =
      (some (paste buf p (remaining * sectorSize) fun i => fs.disk (lba * sectorSize + i)), fs.after fs.disk t) := by
  have done : ∀ (lba p : Nat) (buf : Mem) (fs : State),
      (some buf, fs) =
        (some (paste buf p (0 * sectorSize) fun i => fs.disk (lba * sectorSize + i)), fs.after fs.disk fs.clock) := by
    intro lba p buf fs
    rw [Nat.zero_mul, paste_zero]
    rfl
  intro rounds
  induction rounds with
  | zero =>
    intro lba p remaining buf fs few _
    obtain rfl : remaining = 0 := by omega
    exact ⟨fs.clock, done lba p buf fs⟩
  | succ rounds ih =>
    intro lba p remaining buf fs few room
    rw [readChunks]
    split
    · rename_i more
      generalize chunkIs : (if remaining > 32 then 32 else remaining) = chunk
      have bounds : 0 < chunk ∧ chunk ≤ remaining := by
        rw [← chunkIs]
        split <;> omega
      simp only [readBlocks_ok ok]
      have lba' : u32 (lba + chunk) + (remaining - chunk) ≤ 2 ^ 32 ∧
          (remaining - chunk = 0 ∨ u32 (lba + chunk) = lba + chunk) := by
        simp only [u32]
        omega
      obtain ⟨t, rest⟩ := ih (u32 (lba + chunk)) (p + chunk * sectorSize) (remaining - chunk)
        (paste buf p (chunk * sectorSize) fun i => fs.disk (lba * sectorSize + i))
        (fs.after fs.disk (fs.clock + 1)) (by omega) lba'.1
      refine ⟨t, ?_⟩
      rw [rest, after_after, after_disk]
      rcases lba'.2 with last | next
      · have all : chunk = remaining := by omega
        rw [last, Nat.zero_mul, paste_zero, all]
      · have whole : chunk * sectorSize + (remaining - chunk) * sectorSize = remaining * sectorSize := by
          rw [← Nat.add_mul, Nat.add_sub_cancel' bounds.2]
        rw [next, Nat.add_mul, ← whole, ← paste_append]
        simp only [Nat.add_assoc]
    · rename_i none
      obtain rfl : remaining = 0 := by omega
      exact ⟨fs.clock, done lba p buf fs⟩

theorem readCluster_ok (ok : Reliable dev) (geo : Geometry v clusters) (fs : State) (inside : InVolume clusters c) :
    ∃ buf t, readCluster dev v fs c = (some buf, fs.after fs.disk t) ∧
      ∀ i < v.bytesPerCluster, buf i = fs.disk (clusterAddr v c + i) := by
  obtain ⟨lba, room⟩ := clusterToLba_eq geo inside
  obtain ⟨t, done⟩ := readChunks_ok ok v.sectorsPerCluster (clusterToLba v c) 0 v.sectorsPerCluster (fun _ => 0)
    (fs.after fs.disk (fs.clock + 1)) (Nat.le_refl _) room
  refine ⟨paste (fun _ => 0) 0 (v.sectorsPerCluster * sectorSize)
    fun i => fs.disk (clusterToLba v c * sectorSize + i), t, ?_, ?_⟩
  · simp only [readCluster, heapAlloc_ok ok, done, after_after, after_disk]
  · intro i small
    rw [paste_inside _ (Nat.zero_le _) (by rw [← geo.bytes]; omega), lba, clusterAddr, Nat.sub_zero]

end RexOs.Fs
