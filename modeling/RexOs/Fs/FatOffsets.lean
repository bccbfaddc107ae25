import RexOs.Fs.FatWalks
import RexOs.Fs.FatWords

/-! When reads and writes end.

Both walk from cluster to cluster until the one with the offset is found. They count the bytes they
pass modulo `2 ^ 64`, so an offset close to the end may be passed over, and clusters without bytes
bring no walk forward.
-/

set_option autoImplicit false

namespace RexOs.Fs

open RexOs.Library

variable {dev : Device} {v : Volume} {fs fs' : State} {m : Mem} {c n offset : Nat}

def Reached (v : Volume) (offset : Nat) : Prop := offset + Nat.gcd v.bytesPerCluster (2 ^ 64) < 2 ^ 64

theorem reached_iff : Reached v offset ↔ ∃ k, offset < u64 (k * v.bytesPerCluster) := by
  rw [Reached]
  generalize v.bytesPerCluster = b
  have first : Nat.gcd b (2 ^ 64) ∣ b := Nat.gcd_dvd_left b (2 ^ 64)
  have second : Nat.gcd b (2 ^ 64) ∣ 2 ^ 64 := Nat.gcd_dvd_right b (2 ^ 64)
  have positive : 0 < Nat.gcd b (2 ^ 64) := Nat.gcd_pos_of_pos_right b (by decide)
  constructor
  · intro room
    obtain ⟨j, _, same⟩ := Nat.exists_mul_mod_eq_gcd (n := b) (k := 2 ^ 64) (by omega)
    obtain ⟨parts, whole⟩ := second
    refine ⟨j * (parts - 1), ?_⟩
    -- the last multiple of the divisor below `2 ^ 64`
    have last : Nat.gcd b (2 ^ 64) * (parts - 1) + Nat.gcd b (2 ^ 64) = 2 ^ 64 := by
      rw [← Nat.mul_succ, Nat.succ_eq_add_one, Nat.sub_add_cancel]
      · exact whole.symm
      · apply Nat.one_le_iff_ne_zero.mpr
        rintro rfl
        rw [Nat.mul_zero] at whole
        omega
    have value : u64 (j * (parts - 1) * b) = Nat.gcd b (2 ^ 64) * (parts - 1) := by
      rw [u64, Nat.mul_right_comm, Nat.mul_comm j b, ← Nat.mod_mul_mod, same]
      exact Nat.mod_eq_of_lt (by omega)
    rw [value]
    omega
  · rintro ⟨k, beyond⟩
    have multiple : Nat.gcd b (2 ^ 64) ∣ u64 (k * b) := (Nat.dvd_mod_iff second).mpr (Dvd.dvd.mul_left first k)
    have below : u64 (k * b) < 2 ^ 64 := Nat.mod_lt _ (by decide)
    have difference := Nat.le_of_dvd (by omega) (Nat.dvd_sub second multiple)
    omega

theorem offset_step (v : Volume) (k : Nat) : u64 (u64 (k * v.bytesPerCluster) + v.bytesPerCluster) = u64 ((k + 1) * v.bytesPerCluster) := by
  rw [u64, u64, Nat.mod_add_mod, Nat.add_mul, Nat.one_mul]
  rfl

def Within (v : Volume) (offset clusterOffset : Nat) : Prop :=
  clusterOffset ≤ offset ∧ offset < u64 (clusterOffset + v.bytesPerCluster)

theorem within_below (within : Within v offset c) : offset < c + v.bytesPerCluster :=
  Nat.lt_of_lt_of_le within.2 (Nat.mod_le _ _)

theorem fatNextCluster_cases (dev : Device) (v : Volume) (fs : State) (c : Nat) :
    ¬ IsLink (fatNextCluster dev v fs c).1 ∨
      fatNextCluster dev v fs c = (link v fs.disk c, fs.tick) ∧ IsLink (link v fs.disk c) := by
  rw [fatNextCluster_link]
  cases dev.readOk fs.clock with
  | false => exact Or.inl endMark_ends
  | true =>
    by_cases isLink : IsLink (link v fs.disk c)
    · exact Or.inr ⟨rfl, isLink⟩
    · exact Or.inl isLink

theorem not_link_iff (c : Nat) : c ≥ clusterEndMark ∨ c < 2 ↔ ¬ IsLink c := by
  rw [IsLink]
  omega

section
variable {clusterOffset fuel : Nat}

theorem skipLoop_last (more : u64 (clusterOffset + v.bytesPerCluster) ≤ offset)
    (last : ¬ IsLink (fatNextCluster dev v fs c).1) :
    skipLoop dev v offset (fuel + 1) c clusterOffset fs = .ok (none, (fatNextCluster dev v fs c).2) := by
  rw [skipLoop, if_pos more]
  exact if_pos ((not_link_iff _).mpr last)

theorem skipLoop_next (more : u64 (clusterOffset + v.bytesPerCluster) ≤ offset)
    (next : fatNextCluster dev v fs c = (n, fs')) (isLink : IsLink n) :
    skipLoop dev v offset (fuel + 1) c clusterOffset fs =
      skipLoop dev v offset fuel n (u64 (clusterOffset + v.bytesPerCluster)) fs' := by
  rw [skipLoop, if_pos more, next]
  exact if_neg fun ends => (not_link_iff n).mp ends isLink

theorem skipLoop_here (low : clusterOffset ≤ offset) (here : ¬ u64 (clusterOffset + v.bytesPerCluster) ≤ offset) :
    Safe (skipLoop dev v offset (fuel + 1) c clusterOffset fs) fun r => ∀ p, r.1 = some p → Within v offset p.2 := by
  rw [skipLoop, if_neg here]
  refine Safe.ok ?_
  rintro p ⟨⟩
  exact ⟨low, Nat.not_le.mp here⟩

end

theorem skipLoop_returns (dev : Device) : ∀ (n k : Nat) {c : Nat} {fs : State},
    (offset < u64 ((k + n + 1) * v.bytesPerCluster) ∨ ¬ IsLink ((link v fs.disk)^[n + 1] c)) →
    u64 (k * v.bytesPerCluster) ≤ offset →
    Safe (skipLoop dev v offset (n + 1) c (u64 (k * v.bytesPerCluster)) fs) fun r => ∀ p, r.1 = some p → Within v offset p.2 := by
  intro n
  induction n with
  | zero =>
    intro k c fs ends low
    by_cases more : u64 (u64 (k * v.bytesPerCluster) + v.bytesPerCluster) ≤ offset
    swap
    · exact skipLoop_here low more
    rcases fatNextCluster_cases dev v fs c with last | ⟨_, isLink⟩
    · rw [skipLoop_last more last]
      exact Safe.ok (by rintro p ⟨⟩)
    · rw [offset_step] at more
      exact absurd isLink (ends.resolve_left (Nat.not_lt.mpr more))
  | succ n ih =>
    intro k c fs ends low
    by_cases more : u64 (u64 (k * v.bytesPerCluster) + v.bytesPerCluster) ≤ offset
    swap
    · exact skipLoop_here low more
    rcases fatNextCluster_cases dev v fs c with last | ⟨next, isLink⟩
    · rw [skipLoop_last more last]
      exact Safe.ok (by rintro p ⟨⟩)
    · rw [skipLoop_next more next isLink]
      rw [offset_step] at more ⊢
      apply ih (k + 1) _ more
      rw [show k + 1 + n + 1 = k + (n + 1) + 1 by omega]
      exact ends

theorem copyRange_positive {size outPos : Nat} (room : outPos < size) (within : outPos = 0 → Within v offset c)
    (bytes : 0 < v.bytesPerCluster) :
    0 < (copyRange v offset size c outPos).2 ∧ (copyRange v offset size c outPos).2 ≤ size - outPos := by
  have here : 0 < v.bytesPerCluster - (if outPos = 0 then offset - c else 0) := by
    split
    · rename_i first
      have := (within first).1
      have := within_below (within first)
      omega
    · exact bytes
  rw [copyRange]
  dsimp only
  generalize v.bytesPerCluster - (if outPos = 0 then offset - c else 0) = copyLen at here ⊢
  split <;> omega

theorem readLoop_returns {size : Nat} (bytes : 0 < v.bytesPerCluster) : ∀ (rounds : Nat) {c clusterOffset : Nat}
    {out : List UInt8} {fs : State}, size ≤ out.length + rounds → (out.length = 0 → Within v offset clusterOffset) →
    ∃ r, readLoop dev v offset size (rounds + 1) c clusterOffset out fs = .ok r := by
  intro rounds
  induction rounds with
  | zero =>
    intro c clusterOffset out fs full _
    exact ⟨(out, fs), if_neg fun both => by omega⟩
  | succ rounds ih =>
    intro c clusterOffset out fs full within
    rw [readLoop]
    split
    · rename_i inside
      obtain ⟨positive, few⟩ := copyRange_positive inside.1 within bytes
      cases readCluster dev v fs c with
      | mk cbuf fs₁ =>
        cases cbuf with
        | none => exact ⟨(out, fs₁), rfl⟩
        | some cbuf =>
          dsimp only
          apply ih
          · rw [List.length_append, List.length_map, List.length_range]
            omega
          · intro none
            rw [List.length_append, List.length_map, List.length_range] at none
            omega
    · exact ⟨(out, fs), rfl⟩

/-- What a read from `offset` on of file `i` needs to come to an end. -/
def ReadEnds (v : Volume) (fs : State) (i offset : Nat) : Prop :=
  ∀ p, fs.nodes[i]? = some p → p.isDir = false → offset < p.size → Reached v offset ∨ EndsBehind v fs.disk p.startCluster

theorem zero_multiple (v : Volume) : u64 (0 * v.bytesPerCluster) = 0 := by
  rw [Nat.zero_mul]
  rfl

theorem Reached.rounds (reached : Reached v offset) : ∃ n, offset < u64 ((0 + n + 1) * v.bytesPerCluster) := by
  obtain ⟨k, beyond⟩ := reached_iff.mp reached
  cases k with
  | zero =>
    rw [zero_multiple] at beyond
    cases beyond
  | succ k => exact ⟨k, by rwa [Nat.zero_add]⟩

theorem read_returns {i : Nat} (size : Nat) (ends : ReadEnds v fs i offset) :
    ∃ r, Returns (fun fuel => fat32Read dev v fuel fs i offset size) r := by
  rcases node_or_other fs i false with ⟨p, found, file⟩ | other
  rotate_left
  · exact ⟨([], fs), 0, fat32Read_other other size⟩
  have dir := Bool.eq_false_iff.mp file
  by_cases behind : offset ≥ p.size
  · exact ⟨([], fs), 0, by simp only [fat32Read, found, dir, behind, if_true]; rfl⟩
  obtain ⟨n, enough⟩ : ∃ n, offset < u64 ((0 + n + 1) * v.bytesPerCluster) ∨ ¬ IsLink ((link v fs.disk)^[n + 1] p.startCluster) := by
    rcases ends p found file (Nat.not_le.mp behind) with reached | ⟨n, noLink⟩
    · exact reached.rounds.imp fun _ => Or.inl
    · exact ⟨n, Or.inr noLink⟩
  have start : u64 (0 * v.bytesPerCluster) ≤ offset := by
    rw [zero_multiple]
    exact Nat.zero_le offset
  obtain ⟨⟨place, fs₁⟩, skips, found'⟩ := skipLoop_returns dev n 0 enough start
  rw [zero_multiple] at skips
  cases place with
  | none =>
    refine ⟨([], fs₁), n + 1, ?_⟩
    dsimp only
    rw [fat32Read, found]
    dsimp only
    rw [if_neg dir, if_neg behind, skips]
    rfl
  | some place =>
    obtain ⟨cluster, clusterOffset⟩ := place
    have within : Within v offset clusterOffset := found' _ rfl
    have bytes : 0 < v.bytesPerCluster := by
      have := within.1
      have := within_below within
      omega
    obtain ⟨amount, wanted⟩ : ∃ amount, (if u64 (offset + size) > p.size then p.size - offset else size) = amount := ⟨_, rfl⟩
    obtain ⟨r, reads⟩ : ∃ r, readLoop dev v offset amount (amount + 1) cluster clusterOffset [] fs₁ = .ok r :=
      readLoop_returns bytes amount (Nat.le_add_left _ _) fun _ => within
    refine ⟨r, max (n + 1) (amount + 1), ?_⟩
    dsimp only
    rw [fat32Read, found]
    dsimp only
    rw [if_neg dir, if_neg behind, wanted,
      (skipLoop_settles dev v offset p.startCluster 0 fs).le skips (Nat.le_max_left _ _)]
    exact (readLoop_settles dev v offset amount cluster clusterOffset [] fs₁).le reads (Nat.le_max_right _ _)

theorem skipLoop_hangs (ok : Reliable dev) (never : ∀ k, u64 (k * v.bytesPerCluster) ≤ offset) :
    ∀ (fuel k : Nat) {c : Nat} {fs : State}, (∀ n, IsLink ((link v fs.disk)^[n + 1] c)) →
    skipLoop dev v offset fuel c (u64 (k * v.bytesPerCluster)) fs = .error .hang := by
  intro fuel
  induction fuel with
  | zero => exact fun _ _ _ _ => rfl
  | succ fuel ih =>
    intro k c fs links
    have next : fatNextCluster dev v fs c = (link v fs.disk c, fs.tick) := by
      rw [fatNextCluster_link, ok.reads, if_pos rfl]
    rw [skipLoop_next (by rw [offset_step]; exact never (k + 1)) next (links 0), offset_step]
    exact ih (k + 1) fun n => links (n + 1)

theorem never_reached (far : ¬ Reached v offset) (k : Nat) : u64 (k * v.bytesPerCluster) ≤ offset := by
  by_contra beyond
  exact far (reached_iff.mpr ⟨k, Nat.not_le.mp beyond⟩)

theorem read_ends (ok : Reliable dev) {i size : Nat} {r : List UInt8 × State}
    (returns : Returns (fun fuel => fat32Read dev v fuel fs i offset size) r) : ReadEnds v fs i offset := by
  intro p found file inside
  by_contra endless
  rw [not_or] at endless
  obtain ⟨far, endless⟩ := endless
  have links (n : Nat) : IsLink ((link v fs.disk)^[n + 1] p.startCluster) := by
    by_contra last
    exact endless ⟨n, last⟩
  obtain ⟨fuel, returned⟩ := returns
  have hangs := skipLoop_hangs ok (never_reached far) fuel 0 links
  rw [zero_multiple] at hangs
  dsimp only at returned
  rw [fat32Read, found] at returned
  dsimp only at returned
  rw [if_neg (Bool.eq_false_iff.mp file), if_neg (Nat.not_le.mpr inside), hangs] at returned
  cases returned

theorem allocLoop_none : ∀ (rounds sec : Nat) {fs : State},
    (∀ k, sec * entriesPerSec ≤ k → k < (sec + rounds) * entriesPerSec → ¬ LooksFree v fs.disk k) →
    (allocLoop dev v rounds sec fs).1 = 0 := by
  intro rounds
  induction rounds with
  | zero => exact fun _ _ _ => rfl
  | succ rounds ih =>
    intro sec fs used
    have less : sec * entriesPerSec ≤ (sec + 1) * entriesPerSec := Nat.mul_le_mul_right _ (Nat.le_succ sec)
    have rest : (allocLoop dev v rounds (sec + 1) fs.tick).1 = 0 := ih (sec + 1) fun k low high =>
      used k (Nat.le_trans less low) (by rwa [show sec + (rounds + 1) = sec + 1 + rounds by omega])
    cases read : dev.readOk fs.clock with
    | false =>
      simp only [allocLoop, readBlocks, read, Bool.false_eq_true, if_false]
      exact rest
    | true =>
      simp only [allocLoop, readBlocks, read, if_true]
      cases found : freeEntryLoop (fun i => fs.disk (u32 (v.fatStartLba + sec) * sectorSize + i)) sec entriesPerSec 0 with
      | none => exact rest
      | some j =>
        obtain ⟨small, free, _⟩ := searched_some found
        have inside : sec * entriesPerSec + j < (sec + (rounds + 1)) * entriesPerSec := by
          have more : (sec + 1) * entriesPerSec ≤ (sec + (rounds + 1)) * entriesPerSec := Nat.mul_le_mul_right _ (by omega)
          rw [Nat.succ_mul] at more
          omega
        exact absurd free (used _ (Nat.le_add_right _ _) inside)

theorem alloc_none (full : ¬ FreeEntry v fs.disk) : (fatAllocCluster dev v fs).1 = 0 := by
  apply allocLoop_none
  intro k _ high free
  rw [Nat.zero_add] at high
  exact full ⟨k, high, free⟩

def readOnly : Device := ⟨fun _ => true, fun _ => false, fun _ => true⟩

theorem readBlocks_readOnly (fs : State) (lba n : Nat) :
    readBlocks readOnly fs lba n = (some fun i => fs.disk (lba * sectorSize + i), fs.tick) := rfl

theorem writeBlocks_readOnly (fs : State) (lba n : Nat) (buf : Mem) : writeBlocks readOnly fs lba n buf = (false, fs.tick) := rfl

theorem setEntryLoop_readOnly (value : Nat) : ∀ (rounds fi : Nat) {fs : State},
    (setEntryLoop readOnly v c value rounds fi fs).disk = fs.disk := by
  intro rounds
  induction rounds with
  | zero => exact fun _ _ => rfl
  | succ rounds ih =>
    intro fi fs
    show (setEntryLoop readOnly v c value rounds (fi + 1) fs.tick.tick).disk = fs.tick.tick.disk
    exact ih (fi + 1)

theorem zeroCluster_readOnly (fs : State) (c : Nat) : (zeroCluster readOnly v fs c).disk = fs.disk := by
  show (writeChunks readOnly (fun _ => 0) v.sectorsPerCluster (clusterToLba v c) 0 v.sectorsPerCluster fs.tick).2.disk = _
  cases v.sectorsPerCluster with
  | zero => rfl
  | succ rounds =>
    rw [writeChunks, if_pos (Nat.succ_pos rounds)]
    rfl

theorem allocLoop_readOnly : ∀ (rounds sec : Nat) {fs : State},
    (∃ k, sec * entriesPerSec ≤ k ∧ k < (sec + rounds) * entriesPerSec ∧ LooksFree v fs.disk k) →
    2 ≤ (allocLoop readOnly v rounds sec fs).1 ∧ (allocLoop readOnly v rounds sec fs).2.disk = fs.disk := by
  intro rounds
  induction rounds with
  | zero =>
    rintro sec fs ⟨k, low, high, _⟩
    rw [Nat.add_zero] at high
    omega
  | succ rounds ih =>
    rintro sec fs ⟨k, low, high, free⟩
    simp only [allocLoop, readBlocks_readOnly, writeBlocks_readOnly]
    cases found : freeEntryLoop (fun i => fs.disk (u32 (v.fatStartLba + sec) * sectorSize + i)) sec entriesPerSec 0 with
    | none =>
      show 2 ≤ (allocLoop readOnly v rounds (sec + 1) fs.tick).1 ∧ (allocLoop readOnly v rounds (sec + 1) fs.tick).2.disk = fs.tick.disk
      apply ih (sec + 1)
      refine ⟨k, ?_, by rwa [show sec + 1 + rounds = sec + (rounds + 1) by omega], free⟩
      by_contra before
      exact searched_none found low (Nat.not_le.mp before) free
    | some j =>
      obtain ⟨_, ⟨_, real⟩, _⟩ := searched_some found
      refine ⟨real, ?_⟩
      dsimp only
      rw [markSecond]
      split <;> rfl

theorem alloc_readOnly (free : FreeEntry v fs.disk) :
    2 ≤ (fatAllocCluster readOnly v fs).1 ∧ (fatAllocCluster readOnly v fs).2.disk = fs.disk := by
  obtain ⟨k, inside, looks⟩ := free
  exact allocLoop_readOnly v.fatSize 0 ⟨k, by omega, by rwa [Nat.zero_add], looks⟩

section
variable {fuel : Nat} (at_ : Cursor)

theorem seekLoop_here (low : at_.clusterOffset ≤ offset) (here : ¬ u64 (at_.clusterOffset + v.bytesPerCluster) ≤ offset) :
    Safe (seekLoop dev v offset (fuel + 1) at_ fs) fun r => ∀ p, r.1 = some p → Within v offset p.clusterOffset := by
  rw [seekLoop, if_neg here]
  refine Safe.ok ?_
  rintro p ⟨⟩
  exact ⟨low, Nat.not_le.mp here⟩

theorem seekLoop_next (more : u64 (at_.clusterOffset + v.bytesPerCluster) ≤ offset)
    (next : fatNextCluster dev v fs at_.cluster = (n, fs')) (isLink : IsLink n) :
    seekLoop dev v offset (fuel + 1) at_ fs =
      seekLoop dev v offset fuel ⟨n, u64 (at_.clusterOffset + v.bytesPerCluster), at_.cluster⟩ fs' := by
  rw [seekLoop, if_pos more, next]
  exact if_neg fun ends => (not_link_iff n).mp ends isLink

theorem seekLoop_full (more : u64 (at_.clusterOffset + v.bytesPerCluster) ≤ offset)
    (last : ¬ IsLink (fatNextCluster dev v fs at_.cluster).1)
    (full : (fatAllocCluster dev v (fatNextCluster dev v fs at_.cluster).2).1 = 0) :
    seekLoop dev v offset (fuel + 1) at_ fs =
      .ok (none, (fatAllocCluster dev v (fatNextCluster dev v fs at_.cluster).2).2) := by
  rw [seekLoop, if_pos more]
  dsimp only
  rw [if_pos ((not_link_iff _).mpr last), if_pos full]

theorem seekLoop_grows (more : u64 (at_.clusterOffset + v.bytesPerCluster) ≤ offset)
    (last : ¬ IsLink (fatNextCluster dev v fs at_.cluster).1)
    (alloc : fatAllocCluster dev v (fatNextCluster dev v fs at_.cluster).2 = (n, fs')) (some_ : n ≠ 0) :
    seekLoop dev v offset (fuel + 1) at_ fs =
      seekLoop dev v offset fuel ⟨n, u64 (at_.clusterOffset + v.bytesPerCluster), at_.cluster⟩
        (zeroCluster dev v (fatSetEntry dev v fs' at_.cluster n) n) := by
  rw [seekLoop, if_pos more]
  dsimp only
  rw [if_pos ((not_link_iff _).mpr last), alloc]
  exact if_neg some_

end

theorem fatNextCluster_disk (dev : Device) (v : Volume) (fs : State) (c : Nat) : (fatNextCluster dev v fs c).2.disk = fs.disk := by
  rw [fatNextCluster_link]
  rfl

theorem seekLoop_returns (dev : Device) : ∀ (n k : Nat) {c prev : Nat} {fs : State},
    (offset < u64 ((k + n + 1) * v.bytesPerCluster) ∨
      ¬ IsLink ((link v fs.disk)^[n + 1] c) ∧ ¬ FreeEntry v fs.disk) →
    u64 (k * v.bytesPerCluster) ≤ offset →
    Safe (seekLoop dev v offset (n + 1) ⟨c, u64 (k * v.bytesPerCluster), prev⟩ fs)
      fun r => ∀ p, r.1 = some p → Within v offset p.clusterOffset := by
  intro n
  induction n with
  | zero =>
    intro k c prev fs ends low
    by_cases more : u64 (u64 (k * v.bytesPerCluster) + v.bytesPerCluster) ≤ offset
    swap
    · exact seekLoop_here ⟨c, u64 (k * v.bytesPerCluster), prev⟩ low more
    have more' := more
    rw [offset_step] at more'
    obtain ⟨noLink, full⟩ := ends.resolve_left (Nat.not_lt.mpr more')
    have last : ¬ IsLink (fatNextCluster dev v fs c).1 := by
      rcases fatNextCluster_cases dev v fs c with last | ⟨_, isLink⟩
      · exact last
      · exact absurd isLink noLink
    rw [← fatNextCluster_disk dev v fs c] at full
    rw [seekLoop_full ⟨c, u64 (k * v.bytesPerCluster), prev⟩ more last (alloc_none full)]
    exact Safe.ok (by rintro p ⟨⟩)
  | succ n ih =>
    intro k c prev fs ends low
    by_cases more : u64 (u64 (k * v.bytesPerCluster) + v.bytesPerCluster) ≤ offset
    swap
    · exact seekLoop_here ⟨c, u64 (k * v.bytesPerCluster), prev⟩ low more
    have more' := more
    rw [offset_step] at more'
    have rounds : k + 1 + n + 1 = k + (n + 1) + 1 := by omega
    rcases fatNextCluster_cases dev v fs c with last | ⟨next, isLink⟩
    · cases alloc : fatAllocCluster dev v (fatNextCluster dev v fs c).2 with
      | mk nc fs₂ =>
        by_cases none : nc = 0
        · rw [seekLoop_full ⟨c, u64 (k * v.bytesPerCluster), prev⟩ more last (by rw [alloc]; exact none)]
          exact Safe.ok (by rintro p ⟨⟩)
        · rw [seekLoop_grows ⟨c, u64 (k * v.bytesPerCluster), prev⟩ more last alloc none]
          dsimp only
          rw [offset_step]
          refine ih (k + 1) ?_ more'
          rcases ends with beyond | ⟨_, full⟩
          · exact Or.inl (by rw [rounds]; exact beyond)
          · -- a volume without a free entry has no cluster to give
            rw [← fatNextCluster_disk dev v fs c] at full
            have zero : (fatAllocCluster dev v (fatNextCluster dev v fs c).2).1 = 0 := alloc_none full
            rw [alloc] at zero
            exact absurd zero none
    · rw [seekLoop_next ⟨c, u64 (k * v.bytesPerCluster), prev⟩ more next isLink]
      dsimp only
      rw [offset_step]
      refine ih (k + 1) ?_ more'
      rw [rounds]
      exact ends

theorem writeLoop_returns {start : Nat} {buffer : List UInt8} (bytes : 0 < v.bytesPerCluster) : ∀ (rounds : Nat) {at_ : Cursor}
    {outPos : Nat} {fs : State}, buffer.length ≤ outPos + rounds → (outPos = 0 → Within v offset at_.clusterOffset) →
    ∃ r, writeLoop dev v start offset buffer (rounds + 1) at_ outPos fs = .ok r := by
  intro rounds
  induction rounds with
  | zero =>
    intro at_ outPos fs full _
    exact ⟨(outPos, fs), if_neg (by omega)⟩
  | succ rounds ih =>
    intro at_ outPos fs full within
    rw [writeLoop]
    split
    · rename_i room
      obtain ⟨positive, few⟩ := copyRange_positive room within bytes
      cases writeTarget dev v start at_ fs with
      | mk target fs₁ =>
        cases target with
        | none => exact ⟨(outPos, fs₁), rfl⟩
        | some cluster =>
          dsimp only
          cases readCluster dev v fs₁ cluster with
          | mk cbuf fs₂ =>
            cases cbuf with
            | none => exact ⟨(outPos, fs₂), rfl⟩
            | some cbuf =>
              dsimp only
              apply ih
              · omega
              · intro none
                omega
    · exact ⟨(outPos, fs), rfl⟩

/-- What a write of `buffer` at `offset` to file `i` needs to come to an end. -/
def WriteEnds (v : Volume) (fs : State) (i offset : Nat) (buffer : List UInt8) : Prop :=
  ∀ p, fs.nodes[i]? = some p → p.isDir = false → buffer.length ≠ 0 →
    Reached v offset ∨ (p.startCluster < 2 ∨ EndsBehind v fs.disk p.startCluster) ∧ ¬ FreeEntry v fs.disk

theorem walk_returns (dev : Device) {start : Nat} (buffer : List UInt8)
    (enough : ∃ n, offset < u64 ((0 + n + 1) * v.bytesPerCluster) ∨
      ¬ IsLink ((link v fs.disk)^[n + 1] start) ∧ ¬ FreeEntry v fs.disk) :
    ∃ fuel at_ fs₁, (∀ fuel' ≥ fuel, seekLoop dev v offset fuel' ⟨start, 0, 0⟩ fs = .ok (at_, fs₁)) ∧
      ∀ place, at_ = some place → ∃ r, ∀ fuel' ≥ fuel, writeLoop dev v start offset buffer fuel' place 0 fs₁ = .ok r := by
  obtain ⟨n, enough⟩ := enough
  have low : u64 (0 * v.bytesPerCluster) ≤ offset := by
    rw [zero_multiple]
    exact Nat.zero_le offset
  obtain ⟨⟨at_, fs₁⟩, seeks, found⟩ := seekLoop_returns dev n 0 enough low
  rw [zero_multiple] at seeks
  refine ⟨max (n + 1) (buffer.length + 1), at_, fs₁, ?_, ?_⟩
  · intro fuel' more
    exact (seekLoop_settles dev v offset ⟨start, 0, 0⟩ fs).le seeks (by omega)
  · intro place here
    have within := found place here
    have bytes : 0 < v.bytesPerCluster := by
      have := within.1
      have := within_below within
      omega
    obtain ⟨r, writes⟩ : ∃ r, writeLoop dev v start offset buffer (buffer.length + 1) place 0 fs₁ = .ok r :=
      writeLoop_returns bytes buffer.length (Nat.le_add_left _ _) fun _ => within
    exact ⟨r, fun fuel' more => (writeLoop_settles dev v start offset buffer place 0 fs₁).le writes (by omega)⟩

theorem firstCluster_some {start i : Nat} (some_ : ¬ start < 2) : firstCluster dev v fs i start = (some start, fs) := if_neg some_

theorem firstCluster_full {start i : Nat} (fresh : start < 2) (full : ¬ FreeEntry v fs.disk) :
    ∃ fs', firstCluster dev v fs i start = (none, fs') := by
  rw [firstCluster, if_pos fresh]
  dsimp only
  rw [if_pos (alloc_none full)]
  exact ⟨_, rfl⟩

section
variable {i : Nat} {buffer : List UInt8} {p : Node}

theorem fat32Write_unplaced {fuel : Nat} (found : fs.nodes[i]? = some p) (file : p.isDir = false) (some_ : buffer.length ≠ 0)
    (first : firstCluster dev v fs i p.startCluster = (none, fs')) : fat32Write dev v fuel fs i offset buffer = .ok (0, fs') := by
  rw [fat32Write, found]
  dsimp only
  rw [if_neg (Bool.eq_false_iff.mp file), if_neg some_, first]

theorem fat32Write_placed {start : Nat} (found : fs.nodes[i]? = some p) (file : p.isDir = false) (some_ : buffer.length ≠ 0)
    (first : firstCluster dev v fs i p.startCluster = (some start, fs'))
    (enough : ∃ n, offset < u64 ((0 + n + 1) * v.bytesPerCluster) ∨
      ¬ IsLink ((link v fs'.disk)^[n + 1] start) ∧ ¬ FreeEntry v fs'.disk) :
    ∃ r, Returns (fun fuel => fat32Write dev v fuel fs i offset buffer) r := by
  obtain ⟨fuel, at_, fs₂, seeks, writes⟩ := walk_returns dev buffer enough
  cases at_ with
  | none =>
    refine ⟨(0, fs₂), fuel, ?_⟩
    dsimp only
    rw [fat32Write, found]
    dsimp only
    rw [if_neg (Bool.eq_false_iff.mp file), if_neg some_, first]
    dsimp only
    rw [seeks fuel (Nat.le_refl fuel)]
    rfl
  | some at_ =>
    obtain ⟨⟨outPos, fs₃⟩, writes⟩ := writes at_ rfl
    refine ⟨(outPos, recordSize dev fs₃ i p.size (offset + outPos)), fuel, ?_⟩
    dsimp only
    rw [fat32Write, found]
    dsimp only
    rw [if_neg (Bool.eq_false_iff.mp file), if_neg some_, first]
    dsimp only
    rw [seeks fuel (Nat.le_refl fuel)]
    show (writeLoop dev v start offset buffer fuel at_ 0 fs₂ >>= _) = _
    rw [writes fuel (Nat.le_refl fuel)]
    rfl

theorem write_returns (ends : WriteEnds v fs i offset buffer) :
    ∃ r, Returns (fun fuel => fat32Write dev v fuel fs i offset buffer) r := by
  rcases node_or_other fs i false with ⟨p, found, file⟩ | other
  rotate_left
  · exact ⟨(0, fs), 0, fat32Write_other other buffer⟩
  by_cases empty : buffer.length = 0
  · exact ⟨(0, fs), 0, by simp only [fat32Write, found, file, empty, if_true]; rfl⟩
  rcases ends p found file empty with reached | ⟨chain, full⟩
  · cases first : firstCluster dev v fs i p.startCluster with
    | mk start fs₁ =>
      cases start with
      | none => exact ⟨(0, fs₁), 0, fat32Write_unplaced found file empty first⟩
      | some start => exact fat32Write_placed found file empty first (reached.rounds.imp fun _ => Or.inl)
  · by_cases fresh : p.startCluster < 2
    · obtain ⟨fs₁, first⟩ : ∃ fs₁, firstCluster dev v fs i p.startCluster = (none, fs₁) := firstCluster_full fresh full
      exact ⟨(0, fs₁), 0, fat32Write_unplaced found file empty first⟩
    · obtain ⟨n, noLink⟩ := chain.resolve_left fresh
      exact fat32Write_placed found file empty (firstCluster_some fresh) ⟨n, Or.inr ⟨noLink, full⟩⟩

end

theorem seekLoop_cycles (ok : Reliable dev) (never : ∀ k, u64 (k * v.bytesPerCluster) ≤ offset) :
    ∀ (fuel k prev : Nat) {c : Nat} {fs : State}, (∀ n, IsLink ((link v fs.disk)^[n + 1] c)) →
    seekLoop dev v offset fuel ⟨c, u64 (k * v.bytesPerCluster), prev⟩ fs = .error .hang := by
  intro fuel
  induction fuel with
  | zero => exact fun _ _ _ _ _ => rfl
  | succ fuel ih =>
    intro k prev c fs links
    have next : fatNextCluster dev v fs c = (link v fs.disk c, fs.tick) := by
      rw [fatNextCluster_link, ok.reads, if_pos rfl]
    rw [seekLoop_next ⟨c, u64 (k * v.bytesPerCluster), prev⟩ (by rw [offset_step]; exact never (k + 1)) next (links 0)]
    dsimp only
    rw [offset_step]
    exact ih (k + 1) c fun n => links (n + 1)

theorem seekLoop_readOnly (never : ∀ k, u64 (k * v.bytesPerCluster) ≤ offset) :
    ∀ (fuel k c prev : Nat) {fs : State}, FreeEntry v fs.disk →
    seekLoop readOnly v offset fuel ⟨c, u64 (k * v.bytesPerCluster), prev⟩ fs = .error .hang := by
  intro fuel
  induction fuel with
  | zero => exact fun _ _ _ _ _ => rfl
  | succ fuel ih =>
    intro k c prev fs free
    have more : u64 (u64 (k * v.bytesPerCluster) + v.bytesPerCluster) ≤ offset := by
      rw [offset_step]
      exact never (k + 1)
    rcases fatNextCluster_cases readOnly v fs c with last | ⟨next, isLink⟩
    · have disk := fatNextCluster_disk readOnly v fs c
      have free' : FreeEntry v (fatNextCluster readOnly v fs c).2.disk := by
        rw [disk]
        exact free
      obtain ⟨found, kept⟩ := alloc_readOnly free'
      cases alloc : fatAllocCluster readOnly v (fatNextCluster readOnly v fs c).2 with
      | mk nc fs₂ =>
        rw [alloc, disk] at kept
        rw [alloc] at found
        rw [seekLoop_grows ⟨c, u64 (k * v.bytesPerCluster), prev⟩ more last alloc (by rintro rfl; cases found)]
        dsimp only
        rw [offset_step]
        apply ih (k + 1)
        rw [zeroCluster_readOnly, fatSetEntry, setEntryLoop_readOnly, kept]
        exact free
    · rw [seekLoop_next ⟨c, u64 (k * v.bytesPerCluster), prev⟩ more next isLink]
      dsimp only
      rw [offset_step]
      exact ih (k + 1) _ _ free

theorem updateDirent_readOnly (fs : State) (i newSize newCluster : Nat) :
    (fat32UpdateDirent readOnly fs i newSize newCluster).disk = fs.disk := by
  rw [fat32UpdateDirent]
  split
  · rfl
  · split <;> rfl

theorem firstCluster_readOnly (i start : Nat) (free : FreeEntry v fs.disk) :
    ∃ nc fs', firstCluster readOnly v fs i start = (some nc, fs') ∧ fs'.disk = fs.disk := by
  by_cases fresh : start < 2
  · obtain ⟨found, kept⟩ := alloc_readOnly free
    rw [firstCluster, if_pos fresh]
    dsimp only
    rw [if_neg (by omega)]
    refine ⟨_, _, rfl, ?_⟩
    rw [updateDirent_readOnly, zeroCluster_readOnly]
    exact kept
  · exact ⟨start, fs, firstCluster_some fresh, rfl⟩

theorem write_hangs {i fuel start : Nat} {buffer : List UInt8} {p : Node} (found : fs.nodes[i]? = some p)
    (file : p.isDir = false) (some_ : buffer.length ≠ 0) (first : firstCluster dev v fs i p.startCluster = (some start, fs'))
    (hangs : seekLoop dev v offset fuel ⟨start, 0, 0⟩ fs' = .error .hang) :
    fat32Write dev v fuel fs i offset buffer = .error .hang := by
  rw [fat32Write, found]
  dsimp only
  rw [if_neg (Bool.eq_false_iff.mp file), if_neg some_, first]
  dsimp only
  rw [hangs]
  rfl

theorem write_ends {i : Nat} {buffer : List UInt8}
    (returns : ∀ dev, ∃ r, Returns (fun fuel => fat32Write dev v fuel fs i offset buffer) r) : WriteEnds v fs i offset buffer := by
  intro p found file some_
  by_contra endless
  rw [not_or] at endless
  obtain ⟨far, endless⟩ := endless
  have never := never_reached far
  by_cases free : FreeEntry v fs.disk
  · obtain ⟨nc, fs₁, first, kept⟩ := firstCluster_readOnly i p.startCluster free
    obtain ⟨r, fuel, returned⟩ := returns readOnly
    have free' : FreeEntry v fs₁.disk := by
      rw [kept]
      exact free
    have hangs := seekLoop_readOnly never fuel 0 nc 0 free'
    rw [zero_multiple] at hangs
    dsimp only at returned
    rw [write_hangs found file some_ first hangs] at returned
    cases returned
  · have chain : ¬ (p.startCluster < 2 ∨ EndsBehind v fs.disk p.startCluster) := fun chain => endless ⟨chain, free⟩
    rw [not_or] at chain
    obtain ⟨fresh, endless⟩ := chain
    have links (n : Nat) : IsLink ((link v fs.disk)^[n + 1] p.startCluster) := by
      by_contra last
      exact endless ⟨n, last⟩
    obtain ⟨r, fuel, returned⟩ := returns reliable
    have hangs := seekLoop_cycles reliable_ok never fuel 0 0 links
    rw [zero_multiple] at hangs
    dsimp only at returned
    rw [write_hangs found file some_ (firstCluster_some fresh) hangs] at returned
    cases returned

inductive Walk where
  | loadChildren (d : Nat)
  | findFreeDirent (dirCluster : Nat)
  | read (i offset size : Nat)
  | write (i offset : Nat) (buffer : List UInt8)

def Walk.Terminates (dev : Device) (v : Volume) (fs : State) : Walk → Prop
  | .loadChildren d => ∃ r, Returns (fun fuel => fat32DirLoadChildren dev v fuel fs d) r
  | .findFreeDirent dirCluster => ∃ r, Returns (fun fuel => fat32FindFreeDirent dev v fuel fs dirCluster) r
  | .read i offset size => ∃ r, Returns (fun fuel => fat32Read dev v fuel fs i offset size) r
  | .write i offset buffer => ∃ r, Returns (fun fuel => fat32Write dev v fuel fs i offset buffer) r

def Walk.Ends (v : Volume) (fs : State) : Walk → Prop
  | .loadChildren d => LoadStops v fs d
  | .findFreeDirent dirCluster => ChainEnds v fs.disk dirCluster
  | .read i offset _ => ReadEnds v fs i offset
  | .write i offset buffer => WriteEnds v fs i offset buffer

/-- A walk terminates on every device with this disk exactly if it ends in this sense. -/
theorem walks_terminate (v : Volume) (fs : State) (w : Walk) : (∀ dev, w.Terminates dev v fs) ↔ w.Ends v fs := by
  cases w with
  | loadChildren d =>
    constructor
    · intro all
      obtain ⟨r, returns⟩ := all reliable
      exact load_stops reliable_ok returns
    · exact fun stops dev => load_returns stops
  | findFreeDirent dirCluster =>
    constructor
    · intro all
      by_contra endless
      obtain ⟨r, fuel, returned⟩ := all (noSectors v.sectorsPerCluster fs.clock)
      have hangs := findFreeDirent_hangs (v := v) fs.clock fuel (c := dirCluster) (Nat.le_refl fs.clock)
        (by rw [Nat.sub_self, Nat.zero_mod]) fun n => by_contra fun last => endless ⟨n, last⟩
      dsimp only at returned
      rw [hangs] at returned
      cases returned
    · rintro ⟨n, last⟩ dev
      exact findFreeDirent_returns n last
  | read i offset size =>
    constructor
    · intro all
      obtain ⟨r, returns⟩ := all reliable
      exact read_ends reliable_ok returns
    · exact fun ends dev => read_returns size ends
  | write i offset buffer =>
    constructor
    · exact write_ends
    · exact fun ends dev => write_returns ends

/-- The root directory has one cluster, which is its own successor, and all its entries are deleted. -/
def cyclicDisk : Mem := fun a =>
  if a < 512 then bootSector 2 a else if a = 520 ∨ a = 1032 then 2 else if 1536 ≤ a ∧ a < 2048 then 0xE5 else 0

def cyclicRoot : State := ⟨cyclicDisk, [⟨⟨true, 2, 0, 0, 0⟩, fat32Type, 0, [], 0, false⟩], 0⟩

theorem cyclicDisk_entries (n : Nat) : ∀ e ∈ dirEntries ((bootBpb 2).volume 0) cyclicDisk n 2, e 0 = 0xE5 := by
  have link_ : link ((bootBpb 2).volume 0) cyclicDisk 2 = 2 := by decide
  have deleted : ∀ i < 16, clusterBytes ((bootBpb 2).volume 0) cyclicDisk 2 (i * 32 + 0) = 0xE5 := by decide
  induction n with
  | zero => rintro e ⟨⟩
  | succ n ih =>
    intro e member
    rw [dirEntries, link_] at member
    rcases List.mem_append.mp member with here | later
    · obtain ⟨i, small, rfl⟩ := List.mem_map.mp here
      obtain ⟨_, few⟩ := List.mem_range'_1.mp small
      exact deleted i (Nat.lt_of_lt_of_eq few rfl)
    · exact ih e later

theorem cyclic_root_loads : ¬ ∀ dev fs partLba bpb, Reliable dev → Mounts dev fs partLba bpb →
    ∀ w : Walk, w.Terminates dev (bpb.volume partLba) fs := by
  intro all
  have mounts : Mounts reliable cyclicRoot 0 (bootBpb 2) := ⟨rfl, rfl, rfl⟩
  obtain ⟨r, returns⟩ := all reliable cyclicRoot 0 (bootBpb 2) reliable_ok mounts (.loadChildren 0)
  obtain ⟨n, _, stop⟩ := load_stops reliable_ok returns _ rfl rfl
  rcases stop with noLink | ⟨e, member, last⟩
  · have fixed : link ((bootBpb 2).volume 0) cyclicDisk 2 = 2 := by decide
    apply noLink
    rw [show cyclicRoot.disk = cyclicDisk from rfl, Function.iterate_fixed fixed]
    exact ⟨by decide, by decide⟩
  · have deleted := cyclicDisk_entries n e member
    rw [last] at deleted
    cases deleted

end RexOs.Fs
