import RexOs.Fs.FatAlloc
import RexOs.Fs.FatCreate
import RexOs.Fs.FatDirent

/-! The tables and the directories on a device that fails.

Every write succeeds here, but a read may fail at any time, and each takes one tick. A sector that
cannot be read is skipped by the searches for a free cluster and for a free directory entry.
-/

set_option autoImplicit false

namespace RexOs.Fs

open RexOs.Library

/-- The entry of `c` becomes `w copy` in the first two tables, and nothing else in them or behind them
changes. -/
structure Rewrites (v : Volume) (m : Mem) (c : Nat) (w : Nat → Nat) (m' : Mem) : Prop where
  here : ∀ copy < 2, word v m' copy c = w copy
  others : ∀ copy < 2, ∀ x < v.fatSize * entriesPerSec, x ≠ c → word v m' copy x = word v m copy x
  data : ∀ a, v.clusterBeginLba * sectorSize ≤ a → m' a = m a

variable {dev : Device} {v : Volume} {clusters : Nat} {fs : State} {m m' m'' : Mem} {c k t x copy : Nat} {w w' : Nat → Nat}
variable {cs : List Nat}

namespace Rewrites

theorem refl (v : Volume) (m : Mem) (c : Nat) : Rewrites v m c (fun copy => word v m copy c) m :=
  ⟨fun _ _ => rfl, fun _ _ _ _ _ => rfl, fun _ _ => rfl⟩

theorem trans (first : Rewrites v m c w m') (second : Rewrites v m' c w' m'') : Rewrites v m c w' m'' where
  here := second.here
  others copy few x listed other := (second.others copy few x listed other).trans (first.others copy few x listed other)
  data a above := (second.data a above).trans (first.data a above)

theorem congr (rewrites : Rewrites v m c w m') (same : ∀ copy < 2, w' copy = w copy) : Rewrites v m c w' m' where
  here copy few := (rewrites.here copy few).trans (same copy few).symm
  others := rewrites.others
  data := rewrites.data

end Rewrites

theorem Geometry.copy_small (geo : Geometry v clusters) (few : copy < 2) (listed : c < v.fatSize * entriesPerSec) :
    v.fatStartLba + copy * v.fatSize + c / 128 < v.clusterBeginLba ∧ v.clusterBeginLba ≤ 2 ^ 32 := by
  have copies := geo.copies
  have room := geo.addressable
  have row := rows_lt listed
  rcases (by omega : copy = 0 ∨ copy = 1) with rfl | rfl <;> omega

theorem Geometry.word_inside (geo : Geometry v clusters) (few : copy < 2) (listed : c < v.fatSize * entriesPerSec) :
    wordPlace v copy c + 4 ≤ v.clusterBeginLba * sectorSize := by
  obtain ⟨inside, room⟩ := geo.copy_small few listed
  rw [wordPlace, u32, Nat.mod_eq_of_lt (by omega), sectorSize]
  omega

theorem Geometry.entry_word (geo : Geometry v clusters) (m : Mem) (listed : c < v.fatSize * entriesPerSec) :
    entry v m c = lowBits (word v m 0 c) := by
  obtain ⟨inside, room⟩ := geo.copy_small (by omega : 0 < 2) listed
  have place : wordPlace v 0 c = entryAddr v c := by
    rw [wordPlace, u32, Nat.mod_eq_of_lt (by omega), entryAddr, sectorSize]
    omega
  rw [entry, lowBits, word, place]

theorem store_rewrites (geo : Geometry v clusters) (few : copy < 2) (listed : c < v.fatSize * entriesPerSec) {e : Nat}
    (fits : e < 2 ^ 32) :
    Rewrites v m c (Function.update (fun copy => word v m copy c) copy e) (store m (wordPlace v copy c) 4 e) := by
  have apart : ∀ copy' < 2, ∀ x < v.fatSize * entriesPerSec, ¬(copy' = copy ∧ x = c) →
      word v (store m (wordPlace v copy c) 4 e) copy' x = word v m copy' x := by
    intro copy' few' x listed' other
    obtain ⟨small, room⟩ := geo.copy_small few listed
    obtain ⟨small', -⟩ := geo.copy_small few' listed'
    exact load_store_apart (places_apart copy' copy listed' listed (by omega) (by omega) other)
  constructor
  · intro copy' few'
    by_cases same : copy' = copy
    · rw [same, Function.update_self, word, load_store fits]
    · rw [Function.update_of_ne same, apart copy' few' c listed fun both => same both.1]
  · intro copy' few' x listed' other
    exact apart copy' few' x listed' fun both => other both.2
  · intro a above
    have := geo.word_inside few listed
    exact store_outside _ _ _ _ (by omega)

/-- Whether the entry is set in a copy of the table when `fat_set_entry` starts at `t`. -/
def setsCopy (dev : Device) (t copy : Nat) : Bool := dev.readOk t && (copy == 0 || dev.readOk (t + 2))

theorem fatSetEntry_rewrites (writes : WritesSucceed dev) (geo : Geometry v clusters) (listed : c < v.fatSize * entriesPerSec)
    (few : c < 2 ^ 28) (fs : State) (x : Nat) :
    ∃ m t, fatSetEntry dev v fs c x = fs.after m t ∧
      Rewrites v fs.disk c
        (fun copy => if setsCopy dev fs.clock copy then setWord x (word v fs.disk copy c) else word v fs.disk copy c) m := by
  rw [fatSetEntry, if_pos geo.table, setEntryLoop_succ writes few]
  cases first : dev.readOk fs.clock with
  | false =>
    -- `if (read_blocks(..) != 1) return;` leaves the second table out as well
    refine ⟨_, _, rfl, (Rewrites.refl v fs.disk c).congr fun copy _ => ?_⟩
    simp [setsCopy, first]
  | true =>
    rw [if_pos rfl, setEntryLoop_succ writes few]
    have once := store_rewrites (m := fs.disk) geo (by omega : 0 < 2) listed (setWord_lt x (word v fs.disk 0 c))
    have second : word v (store fs.disk (wordPlace v 0 c) 4 (setWord x (word v fs.disk 0 c))) 1 c = word v fs.disk 1 c := by
      rw [once.here 1 (by omega), Function.update_of_ne (by omega)]
    simp only [after_disk, after_clock, after_after, second]
    cases again : dev.readOk (fs.clock + 2) with
    | false =>
      refine ⟨_, _, rfl, once.congr fun copy few => ?_⟩
      rcases (by omega : copy = 0 ∨ copy = 1) with rfl | rfl
      · simp [setsCopy, first]
      · simp [setsCopy, first, again]
    | true =>
      refine ⟨_, _, rfl, (once.trans (store_rewrites geo (by omega : 1 < 2) listed (setWord_lt x _))).congr fun copy few => ?_⟩
      rcases (by omega : copy = 0 ∨ copy = 1) with rfl | rfl
      · rw [Function.update_of_ne (by omega), once.here 0 (by omega), Function.update_self]
        simp [setsCopy, first]
      · rw [Function.update_self]
        simp [setsCopy, first, again]

/-- The entry `k` is the first that looks free in the sectors of the table that can be read. -/
structure FirstReadable (dev : Device) (v : Volume) (fs : State) (k : Nat) : Prop where
  listed : k < v.fatSize * entriesPerSec
  free : LooksFree v fs.disk k
  read : dev.readOk (fs.clock + k / 128) = true
  first : ∀ k' < k, LooksFree v fs.disk k' → dev.readOk (fs.clock + k' / 128) = false

/-- Whether the second table can be read when the cluster `k` is reserved. -/
def marksSecond (dev : Device) (fs : State) (k : Nat) : Bool := dev.readOk (fs.clock + k / 128 + 2)

/-- The time at which the reservation of `k` is over. -/
def reservedAt (dev : Device) (fs : State) (k : Nat) : Nat :=
  fs.clock + k / 128 + if marksSecond dev fs k then 4 else 3

/-- The entry of the cluster `k` after the reservation. -/
def reservedWord (dev : Device) (v : Volume) (fs : State) (k copy : Nat) : Nat :=
  if copy = 0 ∨ marksSecond dev fs k then 0xFFFFFFFF else word v fs.disk copy k

theorem LooksFree.inside (looks : LooksFree v m k) (geo : Geometry v clusters) (free : FreeInside v clusters m)
    (listed : k < v.fatSize * entriesPerSec) : InVolume clusters k := by
  have low : 2 ≤ k := Nat.le_trans looks.2 (Nat.mod_le _ _)
  exact ⟨low, free k low listed ((geo.entry_word m listed).trans looks.1)⟩

theorem reserve_found (writes : WritesSucceed dev) (geo : Geometry v clusters) {sec j : Nat} (fs : State)
    (small : j < entriesPerSec) (listed : sec * entriesPerSec + j < v.fatSize * entriesPerSec) :
    ∃ m, markSecond dev v (writeBlocks dev fs (u32 (v.fatStartLba + sec)) 1
          (markEntry (fun i => fs.disk (u32 (v.fatStartLba + sec) * sectorSize + i)) j)).2 sec j =
        fs.after m (fs.clock + 1 + if dev.readOk (fs.clock + 1) then 2 else 1) ∧
      Rewrites v fs.disk (sec * entriesPerSec + j)
        (fun copy => if copy = 0 ∨ dev.readOk (fs.clock + 1) then 0xFFFFFFFF else word v fs.disk copy (sec * entriesPerSec + j)) m := by
  obtain ⟨firstSector, secondSector⟩ := copySectors v sec
  -- the buffer was read before the search, so the first mark needs no read of its own
  have once := store_rewrites (m := fs.disk) geo (by omega : 0 < 2) listed (by omega : 0xFFFFFFFF < 2 ^ 32)
  rw [markSecond, if_pos geo.table]
  simp only [writeBlocks_done writes, firstSector, secondSector, markEntry_written v _ _ _ small, markWord_eq]
  cases again : dev.readOk (fs.clock + 1) with
  | false =>
    rw [readBlocks_unread again]
    refine ⟨_, rfl, once.congr fun copy few => ?_⟩
    rcases (by omega : copy = 0 ∨ copy = 1) with rfl | rfl
    · rw [Function.update_self]
      simp
    · rw [Function.update_of_ne (by omega)]
      simp
  | true =>
    rw [readBlocks_read again]
    simp only [after_after, after_clock, after_disk, markEntry_written v _ _ _ small, markWord_eq]
    refine ⟨_, rfl, (once.trans (store_rewrites geo (by omega : 1 < 2) listed (by omega : 0xFFFFFFFF < 2 ^ 32))).congr fun copy few => ?_⟩
    rcases (by omega : copy = 0 ∨ copy = 1) with rfl | rfl
    · rw [Function.update_of_ne (by omega), once.here 0 (by omega), Function.update_self]
      simp
    · rw [Function.update_self]
      simp

theorem allocLoop_reserves (writes : WritesSucceed dev) (geo : Geometry v clusters) (start : State)
    (free : FreeInside v clusters start.disk) : ∀ rounds sec : Nat, sec + rounds = v.fatSize →
    (∀ k < sec * entriesPerSec, LooksFree v start.disk k → dev.readOk (start.clock + k / 128) = false) →
    (allocLoop dev v rounds sec (start.after start.disk (start.clock + sec)) =
        (0, start.after start.disk (start.clock + v.fatSize)) ∧ ∀ k, ¬FirstReadable dev v start k) ∨
      ∃ k m, allocLoop dev v rounds sec (start.after start.disk (start.clock + sec)) = (k, start.after m (reservedAt dev start k)) ∧
        FirstReadable dev v start k ∧ Rewrites v start.disk k (reservedWord dev v start k) m := by
  -- the sectors before `sec` have been searched in one tick each, and what looks free in them was not read
  intro rounds
  induction rounds with
  | zero =>
    intro sec all unread
    obtain rfl : sec = v.fatSize := all
    refine Or.inl ⟨rfl, fun k reserves => ?_⟩
    have := unread k reserves.listed reserves.free
    rw [reserves.read] at this
    cases this
  | succ rounds ih =>
    intro sec all unread
    have row : ∀ k, sec * entriesPerSec ≤ k → k < (sec + 1) * entriesPerSec → k / 128 = sec := by
      simp only [entriesPerSec, sectorSize]
      intro k low high
      omega
    have later : (∀ k, sec * entriesPerSec ≤ k → k < (sec + 1) * entriesPerSec → LooksFree v start.disk k →
        dev.readOk (start.clock + k / 128) = false) →
        ∀ k < (sec + 1) * entriesPerSec, LooksFree v start.disk k → dev.readOk (start.clock + k / 128) = false := by
      intro here k high looks
      by_cases before : k < sec * entriesPerSec
      · exact unread k before looks
      · exact here k (Nat.not_lt.mp before) high looks
    rw [allocLoop]
    cases read : dev.readOk (start.clock + sec) with
    | false =>
      -- `continue`: the sector is skipped
      rw [readBlocks_unread read]
      exact ih (sec + 1) (by omega) (later fun k low high _ => by rw [row k low high, read])
    | true =>
      rw [readBlocks_read read]
      simp only [after_clock, after_disk, after_after]
      cases found : freeEntryLoop (fun i => start.disk (u32 (v.fatStartLba + sec) * sectorSize + i)) sec entriesPerSec 0 with
      | none => exact ih (sec + 1) (by omega) (later fun k low high looks => absurd looks (searched_none found low high))
      | some j =>
        obtain ⟨small, looks, first⟩ := searched_some found
        have listed : sec * entriesPerSec + j < v.fatSize * entriesPerSec := by
          have more : (sec + 1) * entriesPerSec ≤ v.fatSize * entriesPerSec := Nat.mul_le_mul_right _ (by omega)
          rw [Nat.succ_mul] at more
          omega
        have column : (sec * entriesPerSec + j) / 128 = sec := row _ (by omega) (by rw [Nat.succ_mul]; omega)
        have whole : u32 (sec * entriesPerSec + j) = sec * entriesPerSec + j := by
          have := (looks.inside geo free listed).small geo
          exact Nat.mod_eq_of_lt (by omega)
        obtain ⟨m, marked, rewrites⟩ := reserve_found writes geo (start.after start.disk (start.clock + sec + 1)) small listed
        have second : start.clock + sec + 1 + 1 = start.clock + sec + 2 := rfl
        simp only [after_clock, after_disk, after_after, second] at marked rewrites
        refine Or.inr ⟨sec * entriesPerSec + j, m, ?_, ⟨listed, looks, ?_, fun k less looks' => ?_⟩, ?_⟩
        · dsimp only
          rw [marked, whole, reservedAt, marksSecond, column]
          congr 2
          split <;> omega
        · rw [column, read]
        · by_cases before : k < sec * entriesPerSec
          · exact unread k before looks'
          · exact absurd looks' (first k (Nat.not_lt.mp before) less)
        · refine rewrites.congr fun copy _ => ?_
          rw [reservedWord, marksSecond, column]

theorem fatAllocCluster_reserves (writes : WritesSucceed dev) (geo : Geometry v clusters) (fs : State)
    (free : FreeInside v clusters fs.disk) :
    (fatAllocCluster dev v fs = (0, fs.after fs.disk (fs.clock + v.fatSize)) ∧ ∀ k, ¬FirstReadable dev v fs k) ∨
      ∃ k m, fatAllocCluster dev v fs = (k, fs.after m (reservedAt dev fs k)) ∧ FirstReadable dev v fs k ∧
        Rewrites v fs.disk k (reservedWord dev v fs k) m :=
  allocLoop_reserves writes geo fs free v.fatSize 0 (Nat.zero_add _) fun k less => absurd less (by omega)

section
variable (dev : Device) (v : Volume) (m : Mem)

/-- A free entry of sector `s` from block `lba` on, if it can be read when the search of its cluster
started at `t`; and the time afterwards. -/
def sectorSlot (lba t s : Nat) : Option ((Nat × Nat) × Nat) :=
  if dev.readOk (t + s) then
    (freeDirentLoop (fun i => m ((lba + s) * sectorSize + i)) (sectorSize / 32) 0).map fun off => ((lba + s, off), t + s + 1)
  else none

def clusterSlot (c t : Nat) : Option ((Nat × Nat) × Nat) :=
  (List.range v.sectorsPerCluster).findSome? (sectorSlot dev m (v.clusterBeginLba + (c - 2) * v.sectorsPerCluster) t)

/-- The first free entry that a search from `t` on finds in the clusters, and the time at which the
search is over. -/
def firstSlot : List Nat → Nat → Option (Nat × Nat) × Nat
  | [], t => (none, t)
  | c :: cs, t =>
      match clusterSlot dev v m c t with
      | some (place, t) => (some place, t)
      | none =>
          if dev.readOk (t + v.sectorsPerCluster) then firstSlot cs (t + v.sectorsPerCluster + 1)
          else (none, t + v.sectorsPerCluster + 1)

end

theorem freeSectorLoop_slot (dev : Device) {t lba : Nat} : ∀ (rounds s : Nat) (fs : State), fs.clock = t + s → lba + s + rounds ≤ 2 ^ 32 →
    freeSectorLoop dev lba rounds s fs =
      ((List.range' s rounds).findSome? (sectorSlot dev fs.disk lba t)).elim (none, fs.after fs.disk (t + s + rounds))
        fun r => (some r.1, fs.after fs.disk r.2) := by
  intro rounds
  induction rounds with
  | zero =>
    intro s fs clock _
    rw [freeSectorLoop, List.range'_zero, List.findSome?_nil, Option.elim_none, Nat.add_zero, ← clock]
    rfl
  | succ rounds ih =>
    intro s fs clock room
    have lba' : u32 (lba + s) = lba + s := Nat.mod_eq_of_lt (by omega)
    have later := ih (s + 1) (fs.after fs.disk (fs.clock + 1)) (by rw [after_clock, clock, Nat.add_assoc]) (by omega)
    have behind : t + (s + 1) + rounds = t + s + (rounds + 1) := by omega
    rw [after_disk, behind] at later
    rw [freeSectorLoop, List.range'_succ, List.findSome?_cons, lba']
    cases read : dev.readOk fs.clock with
    | false =>
      have none_ : sectorSlot dev fs.disk lba t s = none := by rw [sectorSlot, ← clock, read, if_neg (by decide)]
      rw [readBlocks_unread read, none_]
      exact later
    | true =>
      rw [readBlocks_read read]
      cases found : freeDirentLoop (fun i => fs.disk ((lba + s) * sectorSize + i)) (sectorSize / 32) 0 with
      | none =>
        have none_ : sectorSlot dev fs.disk lba t s = none := by rw [sectorSlot, ← clock, read, found, if_pos rfl, Option.map_none]
        rw [none_]
        dsimp only
        rw [found]
        exact later
      | some off =>
        have some_ : sectorSlot dev fs.disk lba t s = some ((lba + s, off), fs.clock + 1) := by
          rw [sectorSlot, ← clock, read, found, if_pos rfl, Option.map_some]
        rw [some_]
        dsimp only
        rw [found]
        rfl

theorem find_end {start fuel : Nat} (ends : start < 2 ∨ clusterEndMark ≤ start) (fs : State) :
    fat32FindFreeDirent dev v (fuel + 1) fs start = .ok (none, fs) := by
  rw [fat32FindFreeDirent, if_neg (by omega)]

theorem findFreeDirent_slot (geo : Geometry v clusters) : ∀ {cs : List Nat} {start last : Nat} (fuel : Nat) (fs : State),
    Path (entry v fs.disk) start cs last → (∀ c ∈ cs, InVolume clusters c) → (last < 2 ∨ clusterEndMark ≤ last) →
    cs.length < fuel →
    fat32FindFreeDirent dev v fuel fs start =
      .ok ((firstSlot dev v fs.disk cs fs.clock).1, fs.after fs.disk (firstSlot dev v fs.disk cs fs.clock).2) := by
  intro cs
  induction cs with
  | nil =>
    rintro start last fuel fs rfl _ ends enough
    obtain ⟨fuel, rfl⟩ := Nat.exists_eq_succ_of_ne_zero (by omega : fuel ≠ 0)
    exact find_end ends fs
  | cons c rest ih =>
    rintro start last fuel fs ⟨rfl, path⟩ inside ends enough
    obtain ⟨fuel, rfl⟩ := Nat.exists_eq_succ_of_ne_zero (by omega : fuel ≠ 0)
    have here := inside start List.mem_cons_self
    obtain ⟨lba, room⟩ := clusterToLba_eq geo here
    have searched := freeSectorLoop_slot dev v.sectorsPerCluster 0 fs (Nat.add_zero fs.clock).symm (by rwa [Nat.add_zero])
    rw [lba, Nat.add_zero, ← List.range_eq_range'] at searched
    rw [fat32FindFreeDirent, if_pos ⟨here.1, here.below geo⟩, lba, searched, firstSlot, clusterSlot]
    cases (List.range v.sectorsPerCluster).findSome?
        (sectorSlot dev fs.disk (v.clusterBeginLba + (start - 2) * v.sectorsPerCluster) fs.clock) with
    | some found => rfl
    | none =>
      rw [List.length_cons] at enough
      simp only [Option.elim_none]
      cases read : dev.readOk (fs.clock + v.sectorsPerCluster) with
      | true =>
        rw [fatNextCluster_read read geo (here.listed geo) (here.small geo)]
        exact ih fuel _ path (fun c member => inside c (List.mem_cons_of_mem _ member)) ends (by omega)
      | false =>
        -- a link that cannot be read ends the chain
        rw [fatNextCluster_unread read]
        obtain ⟨fuel, rfl⟩ := Nat.exists_eq_succ_of_ne_zero (by omega : fuel ≠ 0)
        exact find_end (Or.inr (by decide : clusterEndMark ≤ 0x0FFFFFFF)) _

theorem freeDirentLoop_congr {buf buf' : Mem} (same : ∀ e < sectorSize / 32, buf' (e * 32) = buf (e * 32)) :
    ∀ rounds e : Nat, e + rounds ≤ sectorSize / 32 → freeDirentLoop buf' rounds e = freeDirentLoop buf rounds e := by
  intro rounds
  induction rounds with
  | zero => exact fun _ _ => rfl
  | succ rounds ih =>
    intro e room
    rw [freeDirentLoop, freeDirentLoop, same e (by omega), ih (e + 1) (by omega)]

theorem firstSlot_congr (geo : Geometry v clusters)
    (same : ∀ c ∈ cs, ∀ b < v.bytesPerCluster, m' (clusterAddr v c + b) = m (clusterAddr v c + b)) (t : Nat) :
    firstSlot dev v m' cs t = firstSlot dev v m cs t := by
  induction cs generalizing t with
  | nil => rfl
  | cons c rest ih =>
    have rest := fun t => ih (fun c member => same c (List.mem_cons_of_mem _ member)) t
    -- only the first byte of each entry is looked at
    have here : clusterSlot dev v m' c t = clusterSlot dev v m c t := by
      rw [clusterSlot, clusterSlot, ← List.head?_filterMap, ← List.head?_filterMap]
      refine congrArg List.head? (List.filterMap_congr fun s member => ?_)
      have few := List.mem_range.mp member
      have more : s * sectorSize + sectorSize ≤ v.sectorsPerCluster * sectorSize := by
        rw [← Nat.succ_mul]
        exact Nat.mul_le_mul_right _ few
      have agree : ∀ e < sectorSize / 32,
          m' ((v.clusterBeginLba + (c - 2) * v.sectorsPerCluster + s) * sectorSize + e * 32) =
            m ((v.clusterBeginLba + (c - 2) * v.sectorsPerCluster + s) * sectorSize + e * 32) := by
        intro e small
        have place : (v.clusterBeginLba + (c - 2) * v.sectorsPerCluster + s) * sectorSize + e * 32 =
            clusterAddr v c + (s * sectorSize + e * 32) := by rw [clusterAddr, Nat.add_mul _ s, Nat.add_assoc]
        rw [place]
        refine same c List.mem_cons_self _ ?_
        rw [geo.bytes]
        simp only [sectorSize] at *
        omega
      have loop : freeDirentLoop (fun i => m' ((v.clusterBeginLba + (c - 2) * v.sectorsPerCluster + s) * sectorSize + i))
            (sectorSize / 32) 0 =
          freeDirentLoop (fun i => m ((v.clusterBeginLba + (c - 2) * v.sectorsPerCluster + s) * sectorSize + i))
            (sectorSize / 32) 0 := freeDirentLoop_congr agree _ 0 (Nat.le_of_eq (Nat.zero_add _))
      rw [sectorSlot, sectorSlot, loop]
    rw [firstSlot, firstSlot, here, rest]

theorem clusterSlot_place (geo : Geometry v clusters) {sector off t' : Nat}
    (found : clusterSlot dev v m c t = some ((sector, off), t')) :
    sector * sectorSize + off ∈ slotsOf v c ∧ off + 32 ≤ sectorSize := by
  obtain ⟨s, member, here⟩ := List.exists_of_findSome?_eq_some found
  have few := List.mem_range.mp member
  rw [sectorSlot] at here
  split at here
  · obtain ⟨off', free, same⟩ := Option.map_eq_some_iff.mp here
    cases same
    obtain ⟨k, small, rfl, -⟩ := freeDirentLoop_some free
    simp only [sectorSize, Nat.zero_add] at small
    refine ⟨mem_slotsOf.mpr ⟨s * 16 + k, ?_, ?_⟩, ?_⟩
    · have more : s * 16 + 16 ≤ v.sectorsPerCluster * 16 := by
        rw [← Nat.succ_mul]
        exact Nat.mul_le_mul_right _ few
      rw [geo.bytes, sectorSize]
      omega
    · rw [clusterAddr, Nat.add_mul _ s, sectorSize]
      omega
    · rw [sectorSize]
      omega
  · cases here

theorem firstSlot_place (geo : Geometry v clusters) {sector off : Nat} (found : (firstSlot dev v m cs t).1 = some (sector, off)) :
    sector * sectorSize + off ∈ dirSlots v cs ∧ off + 32 ≤ sectorSize := by
  induction cs generalizing t with
  | nil => cases found
  | cons c rest ih =>
    rw [firstSlot] at found
    cases here : clusterSlot dev v m c t with
    | some r =>
      obtain ⟨place, t'⟩ := r
      rw [here] at found
      cases found
      obtain ⟨member, room⟩ := clusterSlot_place geo here
      exact ⟨mem_dirSlots.mpr ⟨c, List.mem_cons_self, member⟩, room⟩
    | none =>
      rw [here] at found
      dsimp only at found
      split at found
      · obtain ⟨member, room⟩ := ih found
        obtain ⟨x, listed, inside⟩ := mem_dirSlots.mp member
        exact ⟨mem_dirSlots.mpr ⟨x, List.mem_cons_of_mem _ listed, inside⟩, room⟩
      · cases found

end RexOs.Fs
