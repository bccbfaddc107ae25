import RexOs.Fs.FatFailures
import RexOs.Fs.FatUnique

/-! What a creation that fails leaves on the disk.

`fat32_create_impl` and `fat32_mkdir_impl` reserve a cluster first and give it back on every way out
that fails. The mark of a reserved cluster has all 32 bits set and the reset keeps the reserved four,
the reset gives up where a read fails, and an entry that is written already stays in its directory.
-/

set_option autoImplicit false

namespace RexOs.Fs

open RexOs.Library

variable {dev : Device} {v : Volume} {clusters : Nat} {fs : State} {m m' : Mem} {c k t d : Nat} {cs : List Nat}

instance (v : Volume) (m : Mem) (k : Nat) : Decidable (LooksFree v m k) := inferInstanceAs (Decidable (_ ∧ _))

def reservation (dev : Device) (v : Volume) (fs : State) : Option Nat :=
  (List.range (v.fatSize * entriesPerSec)).find? fun k => decide (LooksFree v fs.disk k) && dev.readOk (fs.clock + k / 128)

def reservedTime (dev : Device) (v : Volume) (fs : State) : Nat :=
  (reservation dev v fs).elim (fs.clock + v.fatSize) (reservedAt dev fs)

/-- The entry of the reserved cluster `k` when the reset that starts at `t` is over. -/
def undoneWord (dev : Device) (v : Volume) (fs : State) (k t copy : Nat) : Nat :=
  if setsCopy dev t copy then setWord 0 (reservedWord dev v fs k copy) else reservedWord dev v fs k copy

/-- What an entry of the second table was, so that it is the same after the mark and the reset; a read
that failed has left out the one or the other. -/
def Restored (e : Nat) : Bool → Bool → Prop
  | true, true => e = 0xF0000000
  | true, false => e = 0xFFFFFFFF
  | false, true => lowBits e = 0
  | false, false => True

/-- The reset that starts at `t` gives both entries of the reserved cluster `k` back their values. -/
structure Undone (dev : Device) (v : Volume) (fs : State) (k t : Nat) : Prop where
  read : dev.readOk t = true
  first : word v fs.disk 0 k = 0xF0000000
  second : Restored (word v fs.disk 1 k) (marksSecond dev fs k) (dev.readOk (t + 2))

theorem reservation_eq (reads : FirstReadable dev v fs k) : reservation dev v fs = some k := by
  rw [reservation, List.find?_range_eq_some]
  refine ⟨?_, List.mem_range.mpr reads.listed, fun k' less => ?_⟩
  · rw [decide_eq_true reads.free, reads.read]
    rfl
  · by_cases looks : LooksFree v fs.disk k'
    · rw [reads.first k' less looks]
      simp
    · rw [decide_eq_false looks]
      rfl

theorem reservation_reads (is : reservation dev v fs = some k) : FirstReadable dev v fs k := by
  rw [reservation, List.find?_range_eq_some] at is
  obtain ⟨found, member, first⟩ := is
  obtain ⟨looks, read⟩ := (Bool.and_eq_true_iff ..).mp found
  refine ⟨List.mem_range.mp member, of_decide_eq_true looks, read, fun k' less looks' => ?_⟩
  have := first k' less
  rw [decide_eq_true looks', Bool.true_and] at this
  simpa using this

theorem reservation_none (full : ∀ k, ¬FirstReadable dev v fs k) : reservation dev v fs = none := by
  cases is : reservation dev v fs with
  | none => rfl
  | some k => exact absurd (reservation_reads is) (full k)

theorem setWord_zero (e : Nat) : setWord 0 e = highBits e := by rw [setWord, Nat.zero_and, Nat.or_zero, highBits]

theorem highBits_eq_self {e : Nat} (small : e < 2 ^ 32) : highBits e = e ↔ lowBits e = 0 := by
  have whole : highBits e ||| lowBits e = e := by
    have all : e &&& 0xFFFFFFFF = e := (Nat.and_two_pow_sub_one_eq_mod e 32).trans (Nat.mod_eq_of_lt small)
    rw [highBits, lowBits, ← Nat.and_or_distrib_left]
    exact all
  constructor
  · intro same
    rw [← same, lowBits, highBits, Nat.and_assoc]
    exact Nat.and_zero e
  · intro none
    rw [none, Nat.or_zero] at whole
    exact whole

theorem undoneWord_first (looks : LooksFree v fs.disk k) :
    undoneWord dev v fs k t 0 = word v fs.disk 0 k ↔ dev.readOk t = true ∧ word v fs.disk 0 k = 0xF0000000 := by
  have marked : reservedWord dev v fs k 0 = 0xFFFFFFFF := if_pos (Or.inl rfl)
  have reset : setWord 0 0xFFFFFFFF = 0xF0000000 := by decide
  -- what looked free was no mark, so the reset must have come through
  have unmarked : (0xFFFFFFFF : Nat) ≠ word v fs.disk 0 k := by
    intro same
    have free := looks.1
    rw [← same] at free
    exact absurd free (by decide)
  rw [undoneWord, marked, reset]
  cases read : dev.readOk t with
  | true =>
    simp only [setsCopy, read, Bool.true_and, beq_self_eq_true, Bool.true_or, if_true, true_and]
    exact eq_comm
  | false => simpa [setsCopy, read] using unmarked

theorem undoneWord_second (read : dev.readOk t = true) :
    undoneWord dev v fs k t 1 = word v fs.disk 1 k ↔ Restored (word v fs.disk 1 k) (marksSecond dev fs k) (dev.readOk (t + 2)) := by
  have reset : setWord 0 0xFFFFFFFF = 0xF0000000 := by decide
  have small := word_lt v fs.disk 1 k
  -- the mark and the reset may each have missed the second table
  cases marked : marksSecond dev fs k with
  | true =>
    cases again : dev.readOk (t + 2) with
    | true => simp [undoneWord, reservedWord, setsCopy, read, again, marked, reset, Restored, eq_comm]
    | false => simp [undoneWord, reservedWord, setsCopy, read, again, marked, Restored, eq_comm]
  | false =>
    cases again : dev.readOk (t + 2) with
    | true =>
      simp only [undoneWord, reservedWord, setsCopy, read, again, marked, Restored, setWord_zero]
      simpa using highBits_eq_self small
    | false => simp [undoneWord, reservedWord, setsCopy, read, again, marked, Restored]

theorem undone_iff (looks : LooksFree v fs.disk k) :
    Undone dev v fs k t ↔ ∀ copy < 2, undoneWord dev v fs k t copy = word v fs.disk copy k := by
  constructor
  · intro undone copy few
    rcases (by omega : copy = 0 ∨ copy = 1) with rfl | rfl
    · exact (undoneWord_first looks).mpr ⟨undone.read, undone.first⟩
    · exact (undoneWord_second undone.read).mpr undone.second
  · intro same
    obtain ⟨read, first⟩ := (undoneWord_first looks).mp (same 0 (by omega))
    exact ⟨read, first, (undoneWord_second read).mp (same 1 (by omega))⟩

def TablesHeld (dev : Device) (v : Volume) (fs : State) (m : Mem) : Prop :=
  ∀ copy < 2, ∀ x < v.fatSize * entriesPerSec,
    word v m copy x = if reservation dev v fs = some x then reservedWord dev v fs x copy else word v fs.disk copy x

def TablesLeft (dev : Device) (v : Volume) (fs : State) (t : Nat) (m : Mem) : Prop :=
  ∀ copy < 2, ∀ x < v.fatSize * entriesPerSec,
    word v m copy x = if reservation dev v fs = some x then undoneWord dev v fs x t copy else word v fs.disk copy x

theorem TablesLeft.same_iff (left : TablesLeft dev v fs t m) :
    (∀ copy < 2, ∀ x < v.fatSize * entriesPerSec, word v m copy x = word v fs.disk copy x) ↔
      ∀ k, reservation dev v fs = some k → Undone dev v fs k t := by
  constructor
  · intro same k is
    have reads := reservation_reads is
    refine (undone_iff reads.free).mpr fun copy few => ?_
    rw [← same copy few k reads.listed, left copy few k reads.listed, if_pos is]
  · intro undone copy few x listed
    rw [left copy few x listed]
    split
    · rename_i is
      exact (undone_iff (reservation_reads is).free).mp (undone x is) copy few
    · rfl

theorem Rewrites.tables {w : Nat → Nat} (rewrites : Rewrites v m k w m') (is : reservation dev v fs = some k)
    (same : ∀ copy < 2, ∀ x < v.fatSize * entriesPerSec, x ≠ k → word v m copy x = word v fs.disk copy x) :
    ∀ copy < 2, ∀ x < v.fatSize * entriesPerSec,
      word v m' copy x = if reservation dev v fs = some x then w copy else word v fs.disk copy x := by
  intro copy few x listed
  rw [is]
  by_cases here : x = k
  · rw [here, if_pos rfl, rewrites.here copy few]
  · rw [if_neg (by simpa using Ne.symm here), rewrites.others copy few x listed here, same copy few x listed here]

theorem fatAllocCluster_held (writes : WritesSucceed dev) (geo : Geometry v clusters) (free : FreeInside v clusters fs.disk) :
    ∃ m, fatAllocCluster dev v fs = ((reservation dev v fs).getD 0, fs.after m (reservedTime dev v fs)) ∧
      TablesHeld dev v fs m ∧ ∀ a, v.clusterBeginLba * sectorSize ≤ a → m a = fs.disk a := by
  rcases fatAllocCluster_reserves writes geo fs free with ⟨gives, full⟩ | ⟨k, m, gives, reads, rewrites⟩
  · have is := reservation_none full
    refine ⟨fs.disk, ?_, fun copy few x listed => ?_, fun _ _ => rfl⟩
    · rw [gives, reservedTime, is]
      rfl
    · rw [is, if_neg (by simp)]
  · have is := reservation_eq reads
    refine ⟨m, ?_, fun copy few x listed => ?_, rewrites.data⟩
    · rw [gives, reservedTime, is]
      rfl
    · rw [rewrites.tables is (fun _ _ _ _ _ => rfl) copy few x listed]
      split
      · rename_i same
        rw [is] at same
        cases same
        rfl
      · rfl

theorem undoAlloc_left (writes : WritesSucceed dev) (geo : Geometry v clusters) (free : FreeInside v clusters fs.disk)
    (later : State) (held : TablesHeld dev v fs later.disk) :
    ∃ m t, undoAlloc dev v later ((reservation dev v fs).getD 0) = later.after m t ∧ TablesLeft dev v fs later.clock m ∧
      ∀ a, v.clusterBeginLba * sectorSize ≤ a → m a = later.disk a := by
  cases is : reservation dev v fs with
  | none =>
    refine ⟨later.disk, later.clock, if_neg (by simp), fun copy few x listed => ?_, fun _ _ => rfl⟩
    rw [held copy few x listed, is, if_neg (by simp), if_neg (by simp)]
  | some k =>
    have reads := reservation_reads is
    have inside := reads.free.inside geo free reads.listed
    obtain ⟨m, t, set, rewrites⟩ := fatSetEntry_rewrites writes geo reads.listed (inside.small geo) later 0
    refine ⟨m, t, ?_, fun copy few x listed => ?_, rewrites.data⟩
    · rw [Option.getD_some, undoAlloc, if_pos (by have := inside.1; omega), set]
    · have same : ∀ copy < 2, ∀ x < v.fatSize * entriesPerSec, x ≠ k → word v later.disk copy x = word v fs.disk copy x := by
        intro copy few x listed other
        rw [held copy few x listed, is, if_neg (by simpa using Ne.symm other)]
      rw [rewrites.tables is same copy few x listed]
      split
      · rename_i here
        rw [is] at here
        cases here
        rw [held copy few k listed, is, if_pos rfl, undoneWord]
      · rfl

theorem word_congr (geo : Geometry v clusters) (same : ∀ a < v.clusterBeginLba * sectorSize, m' a = m a) {copy x : Nat}
    (few : copy < 2) (listed : x < v.fatSize * entriesPerSec) : word v m' copy x = word v m copy x := by
  have := geo.word_inside few listed
  exact load_congr fun a _ high => same a (by omega)

theorem TablesHeld.congr (held : TablesHeld dev v fs m) (geo : Geometry v clusters)
    (same : ∀ a < v.clusterBeginLba * sectorSize, m' a = m a) : TablesHeld dev v fs m' := by
  intro copy few x listed
  rw [word_congr geo same few listed, held copy few x listed]

theorem TablesHeld.chain (held : TablesHeld dev v fs m) (geo : Geometry v clusters) {start : Nat}
    (ch : IsChain v clusters fs.disk start cs) : (∀ k, reservation dev v fs = some k → k ∉ cs) ∧ IsChain v clusters m start cs := by
  have off : ∀ k, reservation dev v fs = some k → k ∉ cs := by
    intro k is member
    have reads := reservation_reads is
    exact ch.nonzero member ((geo.entry_word fs.disk reads.listed).trans reads.free.1)
  refine ⟨off, ch.congr fun c member => ?_⟩
  have listed := (ch.inside c member).listed geo
  have other : reservation dev v fs ≠ some c := fun is => off c is member
  rw [geo.entry_word m listed, geo.entry_word fs.disk listed, held 0 (by omega) c listed, if_neg other]

/-- If the creation of a file in the directory with the clusters `cs` fails: the place of the entry that
it has written by then, and the time from which on it gives the cluster back. -/
def createFailure (dev : Device) (v : Volume) (fs : State) (cs : List Nat) : Option (Option Nat × Nat) :=
  match firstSlot dev v fs.disk cs (reservedTime dev v fs) with
  | (none, t) => some (none, t)
  | (some (sector, off), t) =>
      if dev.readOk t = false then some (none, t + 1)
      else if dev.allocOk (t + 2) = false then some (some (sector * sectorSize + off), t + 3)
      else if dev.allocOk (t + 3) = false then some (some (sector * sectorSize + off), t + 4)
      else none

def newDirent (dev : Device) (v : Volume) (fs : State) (name : List UInt8) : Mem :=
  putDirent (fun _ => 0) 0 (nameTo83 name) attrArchive ((reservation dev v fs).getD 0)

/-- Behind the tables there is a new entry at `slot`, if one was written, and nothing else has changed. -/
structure EntryLeft (dev : Device) (v : Volume) (fs : State) (name : List UInt8) (slot : Option Nat) (m : Mem) : Prop where
  written : ∀ a ∈ slot, ∀ b < 32, m (a + b) = newDirent dev v fs name b
  others : ∀ x, v.clusterBeginLba * sectorSize ≤ x → (∀ a ∈ slot, x < a ∨ a + 32 ≤ x) → m x = fs.disk x

theorem putDirent_byte (buf : Mem) (off : Nat) (name : List UInt8) (attr cluster : Nat) {b : Nat} (inside : b < 32) :
    putDirent buf off name attr cluster (off + b) = putDirent (fun _ => 0) 0 name attr cluster b := by
  have named : storeBytes (fill buf off 32 0) off name (off + b) = storeBytes (fill (fun _ => 0) 0 32 0) 0 name b := by
    rw [storeBytes, storeBytes]
    by_cases covered : b < name.length
    · rw [paste_inside _ (by omega) (by omega), paste_inside _ (by omega) (by omega), Nat.add_sub_cancel_left, Nat.sub_zero]
    · rw [paste_outside _ (by omega), paste_outside _ (by omega), fill, fill, if_pos (by omega), ite_self]
  simp only [putDirent, ← store_shift, Nat.zero_add]
  exact store_congr _ _ _ (store_congr _ _ _ (store_congr _ _ _ named))

theorem entryLeft_none {name : List UInt8} (same : ∀ x, v.clusterBeginLba * sectorSize ≤ x → m x = fs.disk x) :
    EntryLeft dev v fs name none m :=
  ⟨fun a none_ => absurd none_ (Option.not_mem_none a), fun x above _ => same x above⟩

theorem dirent_written (m : Mem) (sector : Nat) {off : Nat} (name : List UInt8) (attr cluster : Nat) (inside : off + 32 ≤ sectorSize)
    (length : name.length ≤ 11) :
    AgreeOff (paste m (sector * sectorSize) (1 * sectorSize) (putDirent (fun i => m (sector * sectorSize + i)) off name attr cluster))
        m (sector * sectorSize + off) 32 ∧
      ∀ b < 32, paste m (sector * sectorSize) (1 * sectorSize)
        (putDirent (fun i => m (sector * sectorSize + i)) off name attr cluster) (sector * sectorSize + off + b) =
          putDirent (fun _ => 0) 0 name attr cluster b := by
  refine ⟨paste_agreeOff (putDirent_agreeOff _ off length attr cluster), fun b small => ?_⟩
  rw [paste_inside _ (by omega) (by omega), ← putDirent_byte _ off name attr cluster small]
  congr 1
  omega

theorem createFat32Node_fails (name : List UInt8) (isDir : Bool) (cluster size : Nat) {u : Nat}
    (fails : dev.allocOk fs.clock = false ∧ u = fs.clock + 1 ∨
      dev.allocOk fs.clock = true ∧ dev.allocOk (fs.clock + 1) = false ∧ u = fs.clock + 2) :
    createFat32Node dev fs name isDir cluster size = (none, fs.after fs.disk u) := by
  rcases fails with ⟨first, rfl⟩ | ⟨first, second, rfl⟩
  · simp only [createFat32Node, heapAlloc_at, first]
  · simp only [createFat32Node, heapAlloc_at, first, after_clock, second, after_after, after_disk]

theorem createFat32Node_made (first : dev.allocOk fs.clock = true) (second : dev.allocOk (fs.clock + 1) = true)
    (name : List UInt8) (isDir : Bool) (cluster size : Nat) :
    ∃ i fs', createFat32Node dev fs name isDir cluster size = (some i, fs') := by
  simp only [createFat32Node, heapAlloc_at, first, after_clock, second]
  exact ⟨_, _, rfl⟩

theorem newDirent_left (writes : WritesSucceed dev) (geo : Geometry v clusters) (free : FreeInside v clusters fs.disk)
    (held : TablesHeld dev v fs m) (data : ∀ a, v.clusterBeginLba * sectorSize ≤ a → m a = fs.disk a) {sector off : Nat}
    (above : v.clusterBeginLba * sectorSize ≤ sector * sectorSize + off) (inside : off + 32 ≤ sectorSize)
    {name : List UInt8} {m₁ : Mem} (written : paste m (sector * sectorSize) (1 * sectorSize)
      (putDirent (fun i => m (sector * sectorSize + i)) off (nameTo83 name) attrArchive ((reservation dev v fs).getD 0)) = m₁)
    (u : Nat) :
    ∃ m₂ t, undoAlloc dev v (fs.after m₁ u) ((reservation dev v fs).getD 0) = fs.after m₂ t ∧
      TablesLeft dev v fs u m₂ ∧ EntryLeft dev v fs name (some (sector * sectorSize + off)) m₂ := by
  obtain ⟨changed, entered⟩ := dirent_written m sector (nameTo83 name) attrArchive ((reservation dev v fs).getD 0) inside
    (Nat.le_of_eq (nameTo83_length name))
  rw [written] at changed entered
  have held₁ : TablesHeld dev v fs m₁ := held.congr geo fun a low => changed a (Or.inl (by omega))
  obtain ⟨m₂, t, undone, left, kept⟩ := undoAlloc_left writes geo free (fs.after m₁ u) held₁
  refine ⟨m₂, t, undone, left, fun a member b small => ?_, fun x behind outside => ?_⟩
  · cases member
    rw [kept _ (by omega), after_disk, entered b small, newDirent]
  · rw [kept x behind, after_disk, changed x (outside _ rfl), data x behind]

theorem find_held (geo : Geometry v clusters) {start fuel : Nat} (ch : IsChain v clusters fs.disk start cs)
    (enough : v.fatSize * entriesPerSec < fuel) (later : State) (held : TablesHeld dev v fs later.disk)
    (same : ∀ c ∈ cs, ∀ b < v.bytesPerCluster, later.disk (clusterAddr v c + b) = fs.disk (clusterAddr v c + b)) :
    fat32FindFreeDirent dev v fuel later start =
      .ok ((firstSlot dev v fs.disk cs later.clock).1, later.after later.disk (firstSlot dev v fs.disk cs later.clock).2) := by
  obtain ⟨-, ch'⟩ := held.chain geo ch
  obtain ⟨last, path, ends⟩ := ch'.path
  rw [findFreeDirent_slot geo fuel later path ch.inside (ends.imp And.right And.right)
    (Nat.lt_of_le_of_lt (ch.length_le geo) enough), firstSlot_congr geo same]

theorem fat32CreateImpl_left (writes : WritesSucceed dev) (geo : Geometry v clusters) (free : FreeInside v clusters fs.disk)
    {dp : Node} (found : fs.nodes[d]? = some dp) (isDir : dp.isDir = true) (ch : IsChain v clusters fs.disk dp.startCluster cs)
    {fuel : Nat} (enough : v.fatSize * entriesPerSec < fuel) (name : List UInt8) :
    (createFailure dev v fs cs = none ∧ ∃ child fs', fat32CreateImpl dev v fuel fs d name = .ok (some child, fs')) ∨
      ∃ slot t m t', createFailure dev v fs cs = some (slot, t) ∧
        fat32CreateImpl dev v fuel fs d name = .ok (none, fs.after m t') ∧ TablesLeft dev v fs t m ∧
        (∀ a ∈ slot, a ∈ dirSlots v cs) ∧ EntryLeft dev v fs name slot m := by
  obtain ⟨m, gives, held, data⟩ := fatAllocCluster_held writes geo free
  have same : ∀ c ∈ cs, ∀ b < v.bytesPerCluster, m (clusterAddr v c + b) = fs.disk (clusterAddr v c + b) :=
    fun c _ b _ => data _ (Nat.le_trans (clusterAddr_ge v c) (Nat.le_add_right _ _))
  have search := find_held geo ch enough (fs.after m (reservedTime dev v fs)) held same
  rw [fat32CreateImpl, found, createFailure]
  dsimp only
  rw [if_pos isDir, gives]
  dsimp only
  rw [search]
  simp only [after_clock, after_disk, after_after]
  cases is : firstSlot dev v fs.disk cs (reservedTime dev v fs) with
  | mk place t =>
  cases place with
  | none =>
    -- no entry of the directory is free
    obtain ⟨m₂, t₂, undone, left, kept⟩ := undoAlloc_left writes geo free (fs.after m t) held
    refine Or.inr ⟨none, t, m₂, t₂, rfl, ?_, left, fun a none_ => absurd none_ (Option.not_mem_none a), entryLeft_none fun x above =>
      (kept x above).trans (data x above)⟩
    dsimp only [bind, Except.bind]
    rw [undone]
    rfl
  | some place =>
    obtain ⟨sector, off⟩ := place
    obtain ⟨slot, inside⟩ := firstSlot_place geo (congrArg Prod.fst is)
    dsimp only [bind, Except.bind]
    cases read : dev.readOk t with
    | false =>
      -- the sector of the free entry cannot be read again
      obtain ⟨m₂, t₂, undone, left, kept⟩ := undoAlloc_left writes geo free (fs.after m (t + 1)) held
      refine Or.inr ⟨none, t + 1, m₂, t₂, rfl, ?_, left, fun a none_ => absurd none_ (Option.not_mem_none a), entryLeft_none fun x above =>
        (kept x above).trans (data x above)⟩
      rw [readBlocks_unread read]
      simp only [after_after, after_disk, after_clock, undone]
    | true =>
      rw [readBlocks_read read]
      dsimp only
      rw [writeBlocks_done writes]
      dsimp only [after_disk]
      generalize written : paste m (sector * sectorSize) (1 * sectorSize) (putDirent
        (fun i => m (sector * sectorSize + i)) off (nameTo83 name) attrArchive ((reservation dev v fs).getD 0)) = m₁
      -- from here on the entry is on the disk, and no way out removes it
      have failed := newDirent_left writes geo free held data (dirSlots_above slot) inside written
      have placed : ∀ a ∈ some (sector * sectorSize + off), a ∈ dirSlots v cs := by
        rintro a ⟨⟩
        exact slot
      simp only [after_after, after_clock]
      have node {u : Nat} := @createFat32Node_fails dev (fs.after m₁ (t + 2)) name false ((reservation dev v fs).getD 0) 0 u
      simp only [after_after, after_disk, after_clock] at node
      cases first : dev.allocOk (t + 2) with
      | false =>
        obtain ⟨m₂, t₂, undone, left, entry⟩ := failed (t + 3)
        refine Or.inr ⟨_, t + 3, m₂, t₂, rfl, ?_, left, placed, entry⟩
        rw [node (Or.inl ⟨first, rfl⟩)]
        dsimp only
        rw [undone]
      | true =>
        cases second : dev.allocOk (t + 3) with
        | false =>
          obtain ⟨m₂, t₂, undone, left, entry⟩ := failed (t + 4)
          refine Or.inr ⟨_, t + 4, m₂, t₂, rfl, ?_, left, placed, entry⟩
          rw [node (Or.inr ⟨first, second, rfl⟩)]
          dsimp only
          rw [undone]
        | true =>
          refine Or.inl ⟨rfl, ?_⟩
          obtain ⟨i, fs', made⟩ :=
            @createFat32Node_made dev (fs.after m₁ (t + 2)) first second name false ((reservation dev v fs).getD 0) 0
          rw [made]
          exact ⟨i, _, rfl⟩

/-- If the creation of a directory fails after its cluster was reserved: the time from which on it gives
the cluster back. -/
def mkdirFailure (dev : Device) (v : Volume) (fs : State) (cs : List Nat) : Option Nat :=
  let t := reservedTime dev v fs
  if dev.allocOk t = false then some (t + 1)
  else
    match firstSlot dev v fs.disk cs (t + 1 + chunks v.sectorsPerCluster) with
    | (none, t) => some t
    | (some _, t) => if dev.readOk t = false then some (t + 1) else none

def ClusterLeft (dev : Device) (v : Volume) (fs : State) (m : Mem) : Prop :=
  ∀ x, v.clusterBeginLba * sectorSize ≤ x →
    (∀ k, reservation dev v fs = some k → x < clusterAddr v k ∨ clusterAddr v k + v.bytesPerCluster ≤ x) → m x = fs.disk x

theorem fatSetEntry_left (writes : WritesSucceed dev) (geo : Geometry v clusters) (free : FreeInside v clusters fs.disk)
    (is : reservation dev v fs = some k) (later : State) (held : TablesHeld dev v fs later.disk) :
    ∃ m t, fatSetEntry dev v later k 0 = later.after m t ∧ TablesLeft dev v fs later.clock m ∧
      ∀ a, v.clusterBeginLba * sectorSize ≤ a → m a = later.disk a := by
  have reads := reservation_reads is
  have low := (reads.free.inside geo free reads.listed).1
  have undone := undoAlloc_left writes geo free later held
  rwa [is, Option.getD_some, undoAlloc, if_pos (by omega)] at undone

theorem fat32MkdirImpl_left (writes : WritesSucceed dev) (geo : Geometry v clusters) (free : FreeInside v clusters fs.disk)
    {dp : Node} (found : fs.nodes[d]? = some dp) (isDir : dp.isDir = true) (ch : IsChain v clusters fs.disk dp.startCluster cs)
    {fuel : Nat} (enough : v.fatSize * entriesPerSec < fuel) (name : List UInt8) :
    ((∃ k, reservation dev v fs = some k) ∧ mkdirFailure dev v fs cs = none ∧
        ∃ fs', fat32MkdirImpl dev v fuel fs d name = .ok (true, fs')) ∨
      ∃ t m t', (∀ k, reservation dev v fs = some k → mkdirFailure dev v fs cs = some t) ∧
        fat32MkdirImpl dev v fuel fs d name = .ok (false, fs.after m t') ∧ TablesLeft dev v fs t m ∧ ClusterLeft dev v fs m := by
  obtain ⟨m, gives, held, data⟩ := fatAllocCluster_held writes geo free
  rw [fat32MkdirImpl, found, mkdirFailure]
  dsimp only
  rw [if_pos isDir, gives]
  dsimp only
  cases is : reservation dev v fs with
  | none =>
    refine Or.inr ⟨0, m, _, ?_, rfl, fun copy few x listed => ?_, fun x above _ => data x above⟩
    · intro k reserved
      cases reserved
    · rw [held copy few x listed, is, if_neg (by simp), if_neg (by simp)]
  | some k =>
  have reads := reservation_reads is
  have inside := reads.free.inside geo free reads.listed
  have some_ : ¬k = 0 := by
    have := inside.1
    omega
  rw [Option.getD_some, if_neg some_]
  simp only [heapAlloc_at, after_clock, after_disk, after_after]
  cases buffer : dev.allocOk (reservedTime dev v fs) with
  | false =>
    -- no memory for the entries `.` and `..`
    obtain ⟨m₂, t₂, undone, left, kept⟩ := fatSetEntry_left writes geo free is (fs.after m (reservedTime dev v fs + 1)) held
    refine Or.inr ⟨_, m₂, t₂, fun _ _ => if_pos rfl, ?_, left, fun x above _ => (kept x above).trans (data x above)⟩
    dsimp only
    rw [undone]
    rfl
  | true =>
    have filled := fatWriteCluster_done writes geo (fs.after m (reservedTime dev v fs + 1)) (dotEntries k dp.startCluster) inside
    simp only [after_clock, after_disk, after_after] at filled
    dsimp only
    rw [filled, if_neg (by decide : ¬true = false)]
    dsimp only
    generalize written : paste m (clusterAddr v k) v.bytesPerCluster (dotEntries k dp.startCluster) = m₁
    -- the clusters of the directory itself are others than the reserved one
    have outside : ∀ x, x < clusterAddr v k ∨ clusterAddr v k + v.bytesPerCluster ≤ x → m₁ x = m x := by
      intro x off
      rw [← written, paste_outside _ off]
    have held₁ : TablesHeld dev v fs m₁ :=
      held.congr geo fun a low => outside a (Or.inl (Nat.lt_of_lt_of_le low (clusterAddr_ge v k)))
    have cluster : ClusterLeft dev v fs m₁ := fun x above off => (outside x (off k is)).trans (data x above)
    have same : ∀ c ∈ cs, ∀ b < v.bytesPerCluster, m₁ (clusterAddr v c + b) = fs.disk (clusterAddr v c + b) := by
      intro c member b small
      have other : c ≠ k := fun same => (held.chain geo ch).1 k is (same ▸ member)
      refine cluster _ (Nat.le_trans (clusterAddr_ge v c) (Nat.le_add_right _ _)) fun k' is' => ?_
      rw [is] at is'
      cases is'
      have := clusterAddr_apart geo (ch.inside c member) inside other
      omega
    have failed (u : Nat) : ∃ m₂ t₂, fatSetEntry dev v (fs.after m₁ u) k 0 = fs.after m₂ t₂ ∧ TablesLeft dev v fs u m₂ ∧
        ClusterLeft dev v fs m₂ := by
      obtain ⟨m₂, t₂, undone, left, kept⟩ := fatSetEntry_left writes geo free is (fs.after m₁ u) held₁
      exact ⟨m₂, t₂, undone, left, fun x above off => (kept x above).trans (cluster x above off)⟩
    have search := @find_held dev v clusters fs cs geo dp.startCluster fuel ch enough
      (fs.after m₁ (reservedTime dev v fs + 1 + chunks v.sectorsPerCluster)) held₁ same
    simp only [after_clock, after_disk, after_after] at search
    rw [search]
    dsimp only [bind, Except.bind]
    cases found' : firstSlot dev v fs.disk cs (reservedTime dev v fs + 1 + chunks v.sectorsPerCluster) with
    | mk place t =>
    cases place with
    | none =>
      obtain ⟨m₂, t₂, undone, left, cluster₂⟩ := failed t
      refine Or.inr ⟨t, m₂, t₂, fun _ _ => rfl, ?_, left, cluster₂⟩
      dsimp only
      rw [undone]
    | some place =>
      obtain ⟨sector, off⟩ := place
      dsimp only
      cases read : dev.readOk t with
      | false =>
        obtain ⟨m₂, t₂, undone, left, cluster₂⟩ := failed (t + 1)
        refine Or.inr ⟨t + 1, m₂, t₂, fun _ _ => if_pos rfl, ?_, left, cluster₂⟩
        rw [readBlocks_unread read]
        simp only [after_after, after_disk, after_clock, undone]
      | true =>
        refine Or.inl ⟨⟨k, rfl⟩, if_neg (by decide), ?_⟩
        rw [readBlocks_read read]
        dsimp only
        split
        · exact ⟨_, rfl⟩
        · exact ⟨_, rfl⟩

def DirectoryAt (v : Volume) (fs : State) (d s : Nat) : Prop :=
  OnDisk v fs.disk s ∨ ∃ dp, fs.nodes[d]? = some dp ∧ dp.isDir = true ∧ dp.startCluster = s

structure Chained (v : Volume) (clusters : Nat) (fs : State) (d : Nat) : Prop where
  geometry : Geometry v clusters
  free : FreeInside v clusters fs.disk
  chains : ∀ s, DirectoryAt v fs d s → IsChain v clusters fs.disk s (chain v fs.disk s)

structure VolumeKept (v : Volume) (fs : State) (d : Nat) (m : Mem) : Prop where
  tables : ∀ copy < 2, ∀ x < v.fatSize * entriesPerSec, word v m copy x = word v fs.disk copy x
  entries : ∀ s, DirectoryAt v fs d s → ∀ a ∈ dirSlots v (chain v fs.disk s), SameEntry fs.disk a m a

/-- If the creation of a file fails, the entry that it has written was there before, and the reset
restores the entries of the cluster. -/
def CreateKeeps (dev : Device) (v : Volume) (fs : State) (d : Nat) (name : List UInt8) : Prop :=
  ∀ dp, fs.nodes[d]? = some dp → dp.isDir = true →
    ∀ slot t, createFailure dev v fs (chain v fs.disk dp.startCluster) = some (slot, t) →
      (∀ a ∈ slot, ∀ b < 32, fs.disk (a + b) = newDirent dev v fs name b) ∧
        ∀ k, reservation dev v fs = some k → Undone dev v fs k t

/-- If the creation of a directory fails with a cluster reserved, the reset restores its entries. -/
def MkdirKeeps (dev : Device) (v : Volume) (fs : State) (d : Nat) : Prop :=
  ∀ dp, fs.nodes[d]? = some dp → dp.isDir = true →
    ∀ k, reservation dev v fs = some k →
      ∀ t, mkdirFailure dev v fs (chain v fs.disk dp.startCluster) = some t → Undone dev v fs k t

theorem VolumeKept.refl (v : Volume) (fs : State) (d : Nat) : VolumeKept v fs d fs.disk :=
  ⟨fun _ _ _ _ => rfl, fun _ _ _ _ _ _ => rfl⟩

theorem EntryLeft.entries_iff {name : List UInt8} {slot : Option Nat} {s : Nat} (entry : EntryLeft dev v fs name slot m)
    (dir : DirectoryAt v fs d s) (placed : ∀ a ∈ slot, a ∈ dirSlots v (chain v fs.disk s)) :
    (∀ s, DirectoryAt v fs d s → ∀ a ∈ dirSlots v (chain v fs.disk s), SameEntry fs.disk a m a) ↔
      ∀ a ∈ slot, ∀ b < 32, fs.disk (a + b) = newDirent dev v fs name b := by
  constructor
  · intro same a member b small
    rw [← entry.written a member b small]
    exact (same s dir a (placed a member) b small).symm
  · intro before s' _ x member b small
    have aligned := dirSlots_aligned member
    have above := dirSlots_above member
    -- entries are 32 bytes at multiples of 32, so another one is not touched
    by_cases new : ∃ a ∈ slot, x = a
    · obtain ⟨a, here, rfl⟩ := new
      rw [entry.written x here b small, before x here b small]
    · refine entry.others _ (by omega) fun a here => ?_
      have aligned' := dirSlots_aligned (placed a here)
      have other : x ≠ a := fun same => new ⟨a, here, same⟩
      omega

theorem forall_directory {dp : Node} (found : fs.nodes[d]? = some dp) (isDir : dp.isDir = true) {P : Node → Prop} :
    (∀ dp', fs.nodes[d]? = some dp' → dp'.isDir = true → P dp') ↔ P dp := by
  constructor
  · exact fun all => all dp found isDir
  · intro holds dp' found' _
    rw [found] at found'
    cases found'
    exact holds

theorem create_kept (writes : WritesSucceed dev) (chained : Chained v clusters fs d) {fuel : Nat}
    (enough : v.fatSize * entriesPerSec < fuel) (name : List UInt8) :
    ∃ child fs', fat32CreateImpl dev v fuel fs d name = .ok (child, fs') ∧
      ((child = none → VolumeKept v fs d fs'.disk) ↔ CreateKeeps dev v fs d name) := by
  rcases node_or_other fs d true with ⟨dp, found, isDir⟩ | other
  rotate_left
  · refine ⟨none, fs, fat32CreateImpl_other other name, iff_of_true (fun _ => VolumeKept.refl v fs d) fun dp found isDir => ?_⟩
    rw [other dp found] at isDir
    cases isDir
  have dir : DirectoryAt v fs d dp.startCluster := Or.inr ⟨dp, found, isDir, rfl⟩
  rw [CreateKeeps, forall_directory found isDir]
  rcases fat32CreateImpl_left writes chained.geometry chained.free found isDir (chained.chains _ dir) enough name with
    ⟨succeeds, child, fs', run⟩ | ⟨slot, t, m, t', fails, run, left, placed, entry⟩
  · refine ⟨some child, fs', run, iff_of_true (fun none_ => by cases none_) fun slot t fails => ?_⟩
    rw [succeeds] at fails
    cases fails
  · refine ⟨none, _, run, ?_⟩
    have entries := entry.entries_iff dir placed
    constructor
    · intro kept slot' t'' fails'
      rw [fails] at fails'
      cases fails'
      exact ⟨entries.mp (kept rfl).entries, left.same_iff.mp (kept rfl).tables⟩
    · intro keeps _
      obtain ⟨before, undone⟩ := keeps slot t fails
      exact ⟨left.same_iff.mpr undone, entries.mpr before⟩

theorem mkdir_kept (writes : WritesSucceed dev) (chained : Chained v clusters fs d) {fuel : Nat}
    (enough : v.fatSize * entriesPerSec < fuel) (name : List UInt8) :
    ∃ made fs', fat32MkdirImpl dev v fuel fs d name = .ok (made, fs') ∧
      ((made = false → VolumeKept v fs d fs'.disk) ↔ MkdirKeeps dev v fs d) := by
  rcases node_or_other fs d true with ⟨dp, found, isDir⟩ | other
  rotate_left
  · refine ⟨false, fs, fat32MkdirImpl_other other name, iff_of_true (fun _ => VolumeKept.refl v fs d) fun dp found isDir => ?_⟩
    rw [other dp found] at isDir
    cases isDir
  have dir : DirectoryAt v fs d dp.startCluster := Or.inr ⟨dp, found, isDir, rfl⟩
  rw [MkdirKeeps, forall_directory found isDir]
  rcases fat32MkdirImpl_left writes chained.geometry chained.free found isDir (chained.chains _ dir) enough name with
    ⟨-, succeeds, fs', run⟩ | ⟨t, m, t', fails, run, left, cluster⟩
  · refine ⟨true, fs', run, iff_of_true (fun no => by cases no) fun k _ t fails => ?_⟩
    rw [succeeds] at fails
    cases fails
  · refine ⟨false, _, run, ?_⟩
    constructor
    · intro kept k is t'' fails'
      rw [fails k is] at fails'
      cases fails'
      exact left.same_iff.mp (kept rfl).tables k is
    · intro keeps _
      refine ⟨left.same_iff.mpr fun k is => keeps k is t (fails k is), fun s dir' a member b small => ?_⟩
      have above := dirSlots_above member
      refine cluster _ (Nat.le_trans above (Nat.le_add_right _ _)) fun k is => ?_
      have reads := reservation_reads is
      have ch := chained.chains s dir'
      obtain ⟨c, listed, slot⟩ := mem_dirSlots.mp member
      have other : c ≠ k := by
        rintro rfl
        exact ch.nonzero listed ((chained.geometry.entry_word fs.disk reads.listed).trans reads.free.1)
      have apart := clusterAddr_apart chained.geometry (ch.inside c listed)
        (reads.free.inside chained.geometry chained.free reads.listed) other
      have inside := slotsOf_inside slot
      omega

/-- A creation that fails leaves the volume as it is, exactly if the entry that was written was there
before and the reset restores the entries of the cluster. -/
theorem failed_creation_kept (writes : WritesSucceed dev) (chained : Chained v clusters fs d) {fuel : Nat}
    (enough : v.fatSize * entriesPerSec < fuel) (name : List UInt8) :
    (∃ child fs', fat32CreateImpl dev v fuel fs d name = .ok (child, fs') ∧
      ((child = none → VolumeKept v fs d fs'.disk) ↔ CreateKeeps dev v fs d name)) ∧
    ∃ made fs', fat32MkdirImpl dev v fuel fs d name = .ok (made, fs') ∧
      ((made = false → VolumeKept v fs d fs'.disk) ↔ MkdirKeeps dev v fs d) :=
  ⟨create_kept writes chained enough name, mkdir_kept writes chained enough name⟩

def reservedDisk : Mem := fun a => if a = 531 ∨ a = 1043 then 0xF0 else smallDisk a

def bareRoot : State := ⟨reservedDisk, [emptyRoot], 0⟩

def noMemory : Device := ⟨fun _ => true, fun _ => true, fun _ => false⟩

theorem noMemory_writes : WritesSucceed noMemory := fun _ => rfl

theorem bareRoot_chain : chain smallVolume reservedDisk 2 = [2] ∧ IsChain smallVolume 4 reservedDisk 2 [2] := by
  have root : IsChain smallVolume 4 reservedDisk 2 [2] := IsChain.single (by decide) ⟨by decide, by decide⟩
  exact ⟨root.chain_eq smallVolume_geometry, root⟩

theorem bareRoot_onDisk {s : Nat} (found : OnDisk smallVolume reservedDisk s) : s = 2 := by
  induction found with
  | root => rfl
  | @sub d a _ slot named _ ih =>
    subst ih
    rw [bareRoot_chain.1] at slot
    obtain ⟨c, member, inside⟩ := mem_dirSlots.mp slot
    rw [List.mem_singleton.mp member] at inside
    have above : 1536 ≤ a := (slotsOf_inside inside).1
    have empty : reservedDisk a = 0 := by
      rw [reservedDisk, if_neg (by omega), smallDisk, if_neg (by omega)]
    exact absurd empty named.1.1.1

theorem bareRoot_chained : Chained smallVolume 4 bareRoot 0 := by
  refine ⟨smallVolume_geometry, ?_, fun s dir => ?_⟩
  · have inside : ∀ c < 128, 2 ≤ c → entry smallVolume reservedDisk c = 0 → c < 4 + 2 := by decide +kernel
    exact fun c two listed => inside c listed two
  · have root : s = 2 := by
      rcases dir with found | ⟨dp, found, -, rfl⟩
      · exact bareRoot_onDisk found
      · cases found
        rfl
    rw [root]
    exact bareRoot_chain.1.symm ▸ bareRoot_chain.2

theorem bareRoot_reservation : reservation noMemory smallVolume bareRoot = some 4 := by decide +kernel

/-- Without memory no directory is made, and the volume stays as it is. -/
theorem failed_creation_kept_noMemory : ∃ made fs', fat32MkdirImpl noMemory smallVolume 129 bareRoot 0 [65] = .ok (made, fs') ∧
    (made = false → VolumeKept smallVolume bareRoot 0 fs'.disk) := by
  obtain ⟨-, made, fs', run, kept⟩ := failed_creation_kept noMemory_writes bareRoot_chained (by decide : 128 < 129) [65]
  refine ⟨made, fs', run, kept.mpr fun dp found _ k is t _ => ?_⟩
  rw [bareRoot_reservation] at is
  cases is
  exact ⟨rfl, by decide +kernel, (by decide +kernel : word smallVolume reservedDisk 1 4 = 0xF0000000)⟩

/-- Without memory no file is made, but its entry stays in the directory, with the cluster given back. -/
theorem dangling_entry_left : ¬∀ dev v clusters fs d fuel name, WritesSucceed dev → Chained v clusters fs d →
    v.fatSize * entriesPerSec < fuel →
      (∀ fs', fat32CreateImpl dev v fuel fs d name = .ok (none, fs') → VolumeKept v fs d fs'.disk) ∧
        ∀ fs', fat32MkdirImpl dev v fuel fs d name = .ok (false, fs') → VolumeKept v fs d fs'.disk := by
  intro all
  obtain ⟨kept, -⟩ := all noMemory smallVolume 4 bareRoot 0 129 [65] noMemory_writes bareRoot_chained (by decide)
  obtain ⟨child, fs', run, keeps⟩ := create_kept noMemory_writes bareRoot_chained (by decide : 128 < 129) [65]
  have keeps : CreateKeeps noMemory smallVolume bareRoot 0 [65] := keeps.mp fun none_ => kept fs' (none_ ▸ run)
  have fails : createFailure noMemory smallVolume bareRoot (chain smallVolume reservedDisk 2) = some (some 1536, 8) := by
    rw [bareRoot_chain.1]
    decide +kernel
  have same := (keeps _ rfl rfl (some 1536) 8 fails).1 1536 rfl 0 (by decide)
  exact absurd same (by decide +kernel)

end RexOs.Fs
