import RexOs.Fs.FatMount
import RexOs.Library.Reach
import RexOs.Library.Safe

/-! The words of the tables.

The tables of a volume follow each other from its first table on. Block numbers have 32 bits, so the
place of an entry is only known modulo `2 ^ 32` blocks; different entries have different places as
long as the tables are not larger than that.
-/

set_option autoImplicit false

namespace RexOs.Fs

open RexOs.Library

/-- The place of the entry of cluster `c` in a copy of the table. -/
def wordPlace (v : Volume) (copy c : Nat) : Nat :=
  u32 (v.fatStartLba + copy * v.fatSize + c / 128) * sectorSize + 4 * (c % 128)

def word (v : Volume) (m : Mem) (copy c : Nat) : Nat := load m (wordPlace v copy c) 4

def lowBits (e : Nat) : Nat := e &&& 0x0FFFFFFF

def highBits (e : Nat) : Nat := e &&& 0xF0000000

section
variable {dev : Device} {v : Volume} {fs : State} {m m' : Mem} {c x copy : Nat}

theorem word_lt (v : Volume) (m : Mem) (copy c : Nat) : word v m copy c < 2 ^ 32 := load_lt m _ 4

theorem rows_lt (listed : c < v.fatSize * entriesPerSec) : c / 128 < v.fatSize := by
  simp only [entriesPerSec, sectorSize] at listed
  omega

theorem copy_unique {size copy' row row' : Nat} (small : row < size) (small' : row' < size)
    (same : copy * size + row = copy' * size + row') : copy = copy' ∧ row = row' := by
  have positive : 0 < size := by omega
  have quotient : (copy * size + row) / size = (copy' * size + row') / size := by rw [same]
  rw [Nat.mul_comm copy, Nat.mul_comm copy', Nat.mul_add_div positive, Nat.mul_add_div positive,
    Nat.div_eq_of_lt small, Nat.div_eq_of_lt small', Nat.add_zero, Nat.add_zero] at quotient
  subst quotient
  exact ⟨rfl, by omega⟩

theorem u32_unique {base a b : Nat} (small : a < 2 ^ 32) (small' : b < 2 ^ 32) (same : u32 (base + a) = u32 (base + b)) :
    a = b := by
  rw [u32, u32] at same
  omega

theorem places_apart (copy copy' : Nat) {c' : Nat} (listed : c < v.fatSize * entriesPerSec) (listed' : c' < v.fatSize * entriesPerSec)
    (small : copy * v.fatSize + c / 128 < 2 ^ 32) (small' : copy' * v.fatSize + c' / 128 < 2 ^ 32)
    (other : ¬ (copy = copy' ∧ c = c')) :
    wordPlace v copy c + 4 ≤ wordPlace v copy' c' ∨ wordPlace v copy' c' + 4 ≤ wordPlace v copy c := by
  rw [wordPlace, wordPlace, Nat.add_assoc v.fatStartLba, Nat.add_assoc v.fatStartLba (copy' * v.fatSize), sectorSize]
  by_cases same : u32 (v.fatStartLba + (copy * v.fatSize + c / 128)) = u32 (v.fatStartLba + (copy' * v.fatSize + c' / 128))
  · obtain ⟨sameCopy, row⟩ := copy_unique (rows_lt listed) (rows_lt listed') (u32_unique small small' same)
    have column : c % 128 ≠ c' % 128 := by
      intro column
      exact other ⟨sameCopy, by omega⟩
    rw [same]
    omega
  · generalize u32 (v.fatStartLba + (copy * v.fatSize + c / 128)) = a at same ⊢
    generalize u32 (v.fatStartLba + (copy' * v.fatSize + c' / 128)) = b at same ⊢
    omega

/-- The entry of `c` is changed alike in the first two copies of the table. -/
structure SetsWords (v : Volume) (m : Mem) (c : Nat) (f : Nat → Nat) (m' : Mem) : Prop where
  set : ∀ copy < 2, word v m' copy c = f (word v m copy c)
  others : ∀ copy x, copy * v.fatSize + x / 128 < 2 ^ 32 → x < v.fatSize * entriesPerSec → ¬ (copy < 2 ∧ x = c) →
    word v m' copy x = word v m copy x

theorem stores_setWords {f : Nat → Nat} (fits : ∀ e < 2 ^ 32, f e < 2 ^ 32) (listed : c < v.fatSize * entriesPerSec)
    (small : v.fatSize + c / 128 < 2 ^ 32) :
    SetsWords v m c f (store (store m (wordPlace v 0 c) 4 (f (word v m 0 c))) (wordPlace v 1 c) 4
      (f (load (store m (wordPlace v 0 c) 4 (f (word v m 0 c))) (wordPlace v 1 c) 4))) := by
  have first : 0 * v.fatSize + c / 128 < 2 ^ 32 := by omega
  have second : 1 * v.fatSize + c / 128 < 2 ^ 32 := by omega
  have between := places_apart 1 0 listed listed second first (by omega)
  have twin : load (store m (wordPlace v 0 c) 4 (f (word v m 0 c))) (wordPlace v 1 c) 4 = word v m 1 c :=
    load_store_apart between
  rw [twin]
  constructor
  · intro copy few
    rcases (by omega : copy = 0 ∨ copy = 1) with rfl | rfl
    · rw [word, load_store_apart between.symm, load_store (fits _ (word_lt v m 0 c))]
    · rw [word, load_store (fits _ (word_lt v m 1 c))]
  · intro copy x small' listed' other
    rw [word, load_store_apart, load_store_apart]
    · rfl
    · exact places_apart copy 0 listed' listed small' first (by omega)
    · exact places_apart copy 1 listed' listed small' second (by omega)

theorem setWord_fits (x : Nat) : ∀ e < 2 ^ 32, setWord x e < 2 ^ 32 := fun e _ => setWord_lt x e

theorem setEntryLoop_succ (writes : WritesSucceed dev) (few : c < 2 ^ 28) (x rounds copy : Nat) (fs : State) :
    setEntryLoop dev v c x (rounds + 1) copy fs =
      if dev.readOk fs.clock then
        setEntryLoop dev v c x rounds (copy + 1)
          (fs.after (store fs.disk (wordPlace v copy c) 4 (setWord x (word v fs.disk copy c))) (fs.clock + 2))
      else fs.after fs.disk (fs.clock + 1) := by
  have whole : u32 (c * 4) = c * 4 := Nat.mod_eq_of_lt (by omega)
  have part : c * 4 / 512 = c / 128 := by omega
  have sector : u32 (fatSectorOf v c + copy * v.fatSize) = u32 (v.fatStartLba + copy * v.fatSize + c / 128) := by
    rw [fatSectorOf, whole, sectorSize, part, u32, u32, Nat.mod_add_mod]
    congr 1
    omega
  have place : u32 (c * 4) % sectorSize = 4 * (c % 128) := by
    rw [whole, sectorSize]
    omega
  have inside : 4 * (c % 128) + 4 ≤ sectorSize := by
    rw [sectorSize]
    omega
  have written : paste fs.disk (u32 (v.fatStartLba + copy * v.fatSize + c / 128) * sectorSize) (1 * sectorSize)
      (store (fun i => fs.disk (u32 (v.fatStartLba + copy * v.fatSize + c / 128) * sectorSize + i)) (4 * (c % 128)) 4
        (load (fun i => fs.disk (u32 (v.fatStartLba + copy * v.fatSize + c / 128) * sectorSize + i)) (4 * (c % 128)) 4
          &&& 0xF0000000 ||| x &&& 0x0FFFFFFF)) =
      store fs.disk (wordPlace v copy c) 4 (setWord x (word v fs.disk copy c)) := by
    rw [Nat.one_mul]
    exact sector_word fs.disk _ inside (setWord x)
  rw [setEntryLoop]
  dsimp only
  rw [sector, place]
  cases read : dev.readOk fs.clock with
  | false =>
    rw [readBlocks_unread read]
    rfl
  | true =>
    simp only [readBlocks_read read, if_true, writeBlocks_done writes, after_disk, after_after, after_clock, written]

theorem fatSetEntry_words (ok : Reliable dev) (fs : State) (x : Nat) (listed : c < v.fatSize * entriesPerSec)
    (few : c < 2 ^ 28) (small : v.fatSize + c / 128 < 2 ^ 32) :
    ∃ m t, fatSetEntry dev v fs c x = fs.after m t ∧ SetsWords v fs.disk c (setWord x) m := by
  have table : 0 < v.fatSize := by
    have := rows_lt listed
    omega
  refine ⟨_, fs.clock + 2 + 2, ?_, stores_setWords (setWord_fits x) listed small⟩
  rw [fatSetEntry, if_pos table, setEntryLoop_succ ok.writes few, if_pos (ok.reads _), setEntryLoop_succ ok.writes few,
    if_pos (ok.reads _), setEntryLoop]
  rfl

theorem fatNextCluster_word (ok : Reliable dev) (fs : State) (few : c < 2 ^ 28) :
    fatNextCluster dev v fs c = (lowBits (word v fs.disk 0 c), fs.after fs.disk (fs.clock + 1)) := by
  have whole : u32 (c * 4) = c * 4 := Nat.mod_eq_of_lt (by omega)
  have part : c * 4 / 512 = c / 128 := by omega
  have place : 4 * (c * 4 % 512 / 4) = 4 * (c % 128) := by omega
  simp only [fatNextCluster, readBlocks_ok ok, fatSectorOf, whole, sectorSize, part, place]
  rw [load_shift, word, wordPlace, Nat.zero_mul, Nat.add_zero]
  rfl

/-- What `fat_alloc_cluster` takes for a free entry. -/
def LooksFree (v : Volume) (m : Mem) (k : Nat) : Prop := lowBits (word v m 0 k) = 0 ∧ 2 ≤ u32 k

def FreeEntry (v : Volume) (m : Mem) : Prop := ∃ k < v.fatSize * entriesPerSec, LooksFree v m k

theorem word_of_sector (v : Volume) (m : Mem) (sec : Nat) {j : Nat} (small : j < entriesPerSec) :
    load (fun i => m (u32 (v.fatStartLba + sec) * sectorSize + i)) (4 * j) 4 = word v m 0 (sec * entriesPerSec + j) := by
  simp only [entriesPerSec, sectorSize] at small
  have row : (sec * 128 + j) / 128 = sec := by omega
  have column : (sec * 128 + j) % 128 = j := by omega
  have index : sec * entriesPerSec + j = sec * 128 + j := rfl
  rw [load_shift, word, wordPlace, index, row, column, Nat.zero_mul, Nat.add_zero]

theorem freeEntryLoop_first {buf : Mem} {sec : Nat} : ∀ {rounds j : Nat} {found : Option Nat},
    freeEntryLoop buf sec rounds j = found →
    ∀ k, j ≤ k → k < j + rounds → (∀ k' ∈ found, k < k') →
      ¬ (load buf (4 * k) 4 &&& 0x0FFFFFFF = 0 ∧ 2 ≤ u32 (sec * entriesPerSec + k)) := by
  intro rounds
  induction rounds with
  | zero => exact fun _ k low high => by omega
  | succ rounds ih =>
    intro j found is k low high before
    rw [freeEntryLoop] at is
    split at is
    · subst is
      have := before j rfl
      omega
    · rename_i used
      rcases Nat.eq_or_lt_of_le low with rfl | later
      · exact used
      · exact ih is k later (by omega) before

theorem searched_none {sec : Nat}
    (none : freeEntryLoop (fun i => m (u32 (v.fatStartLba + sec) * sectorSize + i)) sec entriesPerSec 0 = none) {k : Nat}
    (low : sec * entriesPerSec ≤ k) (high : k < (sec + 1) * entriesPerSec) : ¬ LooksFree v m k := by
  rw [Nat.succ_mul] at high
  obtain ⟨j, rfl⟩ := Nat.exists_eq_add_of_le low
  have used := freeEntryLoop_first none j (Nat.zero_le j) (by omega) (by rintro k' ⟨⟩)
  rwa [word_of_sector v m sec (by omega)] at used

theorem searched_some {sec j : Nat}
    (found : freeEntryLoop (fun i => m (u32 (v.fatStartLba + sec) * sectorSize + i)) sec entriesPerSec 0 = some j) :
    j < entriesPerSec ∧ LooksFree v m (sec * entriesPerSec + j) ∧
      ∀ k, sec * entriesPerSec ≤ k → k < sec * entriesPerSec + j → ¬ LooksFree v m k := by
  obtain ⟨_, small, free, real⟩ := freeEntryLoop_some found
  rw [Nat.zero_add] at small
  rw [word_of_sector v m sec small] at free
  refine ⟨small, ⟨free, real⟩, fun k low high => ?_⟩
  obtain ⟨i, rfl⟩ := Nat.exists_eq_add_of_le low
  have used := freeEntryLoop_first found i (Nat.zero_le i) (by omega) (by rintro k' ⟨⟩; omega)
  rwa [word_of_sector v m sec (by omega)] at used

end

/-! `fat_free_chain` reads the link of a cluster and then clears its entry. A chain that comes back to
one of its clusters finds an entry without a link there, so the walk ends on every chain, and it
has come to every cluster of it.
-/

def firstLink (v : Volume) (m : Mem) (c : Nat) : Nat := lowBits (word v m 0 c)

def OnChain (v : Volume) (m : Mem) (start c : Nat) : Prop := Linked IsLink (firstLink v m) start c

/-- The chain from `start` on is freed in both tables, and no other entry changes. -/
def FreesChain (v : Volume) (m : Mem) (start : Nat) (m' : Mem) : Prop :=
  ∀ copy < 2, ∀ c < v.fatSize * entriesPerSec,
    (OnChain v m start c → lowBits (word v m' copy c) = 0 ∧ highBits (word v m' copy c) = highBits (word v m copy c)) ∧
      (¬ OnChain v m start c → word v m' copy c = word v m copy c)

def inUse (v : Volume) (m : Mem) : Nat := ((Finset.range (v.fatSize * entriesPerSec)).filter fun c => firstLink v m c ≠ 0).card

variable {dev : Device} {v : Volume} {m m' : Mem} {start c : Nat}

theorem highBits_clear (e : Nat) : highBits (setWord 0 e) = highBits e := by
  simp only [highBits, setWord, Nat.zero_and, Nat.or_zero, Nat.and_assoc, Nat.and_self]

theorem lowBits_clear (e : Nat) : lowBits (setWord 0 e) = 0 := by
  rw [lowBits, setWord, Nat.zero_and, Nat.or_zero, Nat.and_assoc]
  exact Nat.and_zero e

theorem isLink_small (isLink : IsLink c) : c < 2 ^ 28 := Nat.lt_trans isLink.2 (by decide)

theorem firstLink_cleared (set : SetsWords v m c (setWord 0) m') (tables : 2 * v.fatSize ≤ 2 ^ 32) {x : Nat}
    (listed : x < v.fatSize * entriesPerSec) : firstLink v m' x = Function.update (firstLink v m) c 0 x := by
  by_cases here : x = c
  · rw [here, Function.update_self, firstLink, set.set 0 (by decide), lowBits_clear]
  · have row := rows_lt listed
    rw [Function.update_of_ne here, firstLink, set.others 0 x (by omega) listed (by omega), firstLink]

theorem inUse_cleared (set : SetsWords v m c (setWord 0) m') (tables : 2 * v.fatSize ≤ 2 ^ 32)
    (listed : c < v.fatSize * entriesPerSec) (used : firstLink v m c ≠ 0) : inUse v m' < inUse v m := by
  apply Finset.card_lt_card
  rw [Finset.ssubset_iff_of_subset]
  · refine ⟨c, Finset.mem_filter.mpr ⟨Finset.mem_range.mpr listed, used⟩, fun still => ?_⟩
    apply (Finset.mem_filter.mp still).2
    rw [firstLink_cleared set tables listed, Function.update_self]
  · intro x member
    obtain ⟨range, linked⟩ := Finset.mem_filter.mp member
    refine Finset.mem_filter.mpr ⟨range, fun zero => linked ?_⟩
    rw [firstLink_cleared set tables (Finset.mem_range.mp range)]
    by_cases here : x = c
    · rw [here, Function.update_self]
    · rw [Function.update_of_ne here, zero]

theorem onChain_cleared (set : SetsWords v m start (setWord 0) m') (tables : 2 * v.fatSize ≤ 2 ^ 32) (isLink : IsLink start)
    (inside : ∀ x, OnChain v m start x → x < v.fatSize * entriesPerSec) (x : Nat) :
    OnChain v m start x ↔ x = start ∨ OnChain v m' (firstLink v m start) x := by
  have zero : ¬ IsLink 0 := fun both => absurd both.1 (by decide)
  have step (b : Nat) : OnChain v m start b ↔ b = start ∨
      Linked IsLink (Function.update (firstLink v m) start 0) (firstLink v m start) b := Linked.cut_iff isLink zero
  -- behind the start both tables have the same links
  have listed {b : Nat} (behind : Linked IsLink (Function.update (firstLink v m) start 0) (firstLink v m start) b) :
      b < v.fatSize * entriesPerSec := inside b ((step b).mpr (Or.inr behind))
  rw [step]
  exact or_congr_right (Linked.congr_iff fun y there => firstLink_cleared set tables (listed there)).symm

theorem freeChain_round (ok : Reliable dev) (tables : 2 * v.fatSize ≤ 2 ^ 32) (fuel : Nat) (fs : State) (isLink : IsLink start)
    (listed : start < v.fatSize * entriesPerSec) :
    ∃ fs', fatFreeChain dev v (fuel + 1) fs start = fatFreeChain dev v fuel fs' (firstLink v fs.disk start) ∧
      SetsWords v fs.disk start (setWord 0) fs'.disk := by
  have row := rows_lt listed
  have inside : 2 ≤ start ∧ start < clusterEndMark := isLink
  rw [fatFreeChain, if_pos inside, fatNextCluster_word ok fs (isLink_small isLink)]
  dsimp only
  obtain ⟨m, t, cleared, set⟩ := fatSetEntry_words ok (fs.after fs.disk (fs.clock + 1)) 0 listed (isLink_small isLink) (by omega)
  rw [cleared]
  exact ⟨_, rfl, set⟩

theorem freesChain_nothing (noLink : ¬ IsLink start) (m : Mem) : FreesChain v m start m := by
  intro copy _ c _
  exact ⟨fun onChain => absurd onChain.start noLink, fun _ => rfl⟩

theorem freesChain_step (set : SetsWords v m start (setWord 0) m') (tables : 2 * v.fatSize ≤ 2 ^ 32) (isLink : IsLink start)
    (inside : ∀ x, OnChain v m start x → x < v.fatSize * entriesPerSec) {m'' : Mem}
    (rest : FreesChain v m' (firstLink v m start) m'') : FreesChain v m start m'' := by
  intro copy few c listed
  have chain := onChain_cleared set tables isLink inside c
  obtain ⟨freed, kept⟩ := rest copy few c listed
  have row := rows_lt listed
  have copies : copy * v.fatSize ≤ 1 * v.fatSize := Nat.mul_le_mul_right _ (by omega)
  by_cases here : c = start
  · have clear : word v m' copy c = setWord 0 (word v m copy c) := by
      rw [here]
      exact set.set copy few
    refine ⟨fun _ => ?_, fun off => absurd (chain.mpr (Or.inl here)) off⟩
    -- a chain that comes back clears the entry once more
    by_cases again : OnChain v m' (firstLink v m start) c
    · rw [(freed again).1, (freed again).2, clear, highBits_clear]
      exact ⟨rfl, rfl⟩
    · rw [kept again, clear, highBits_clear, lowBits_clear]
      exact ⟨rfl, rfl⟩
  · have same : word v m' copy c = word v m copy c := set.others copy c (by omega) listed fun both => here both.2
    rw [same] at freed kept
    rw [chain, or_iff_right here]
    exact ⟨freed, kept⟩

theorem freeChain_frees (ok : Reliable dev) (tables : 2 * v.fatSize ≤ 2 ^ 32) : ∀ (k : Nat) {fs : State} {start : Nat},
    inUse v fs.disk ≤ k → (∀ c, OnChain v fs.disk start c → c < v.fatSize * entriesPerSec) →
    ∃ fs', fatFreeChain dev v (k + 2) fs start = .ok fs' ∧ FreesChain v fs.disk start fs'.disk := by
  intro k
  induction k with
  | zero =>
    intro fs start few inside
    by_cases isLink : IsLink start
    swap
    · exact ⟨fs, if_neg isLink, freesChain_nothing isLink fs.disk⟩
    have listed := inside start (.here isLink)
    obtain ⟨fs₁, round, set⟩ := freeChain_round ok tables 1 fs isLink listed
    have last : ¬ IsLink (firstLink v fs.disk start) := by
      intro more
      have fewer := inUse_cleared set tables listed fun zero => absurd (zero ▸ more).1 (by decide)
      omega
    refine ⟨fs₁, round.trans (if_neg last), ?_⟩
    exact freesChain_step set tables isLink inside (freesChain_nothing last fs₁.disk)
  | succ k ih =>
    intro fs start few inside
    by_cases isLink : IsLink start
    swap
    · exact ⟨fs, if_neg isLink, freesChain_nothing isLink fs.disk⟩
    have listed := inside start (.here isLink)
    obtain ⟨fs₁, round, set⟩ := freeChain_round ok tables (k + 2) fs isLink listed
    by_cases more : IsLink (firstLink v fs.disk start)
    · have fewer := inUse_cleared set tables listed fun zero => absurd (zero ▸ more).1 (by decide)
      have behind (c : Nat) (onChain : OnChain v fs₁.disk (firstLink v fs.disk start) c) : c < v.fatSize * entriesPerSec :=
        inside c ((onChain_cleared set tables isLink inside c).mpr (Or.inr onChain))
      obtain ⟨fs', frees, all⟩ := ih (by omega) behind
      exact ⟨fs', round.trans frees, freesChain_step set tables isLink inside all⟩
    · refine ⟨fs₁, round.trans (if_neg more), ?_⟩
      exact freesChain_step set tables isLink inside (freesChain_nothing more fs₁.disk)

/-- On a device that works `fat_free_chain` ends, whatever the table has, and frees the chain. Two
tables have room among the block numbers. -/
theorem chain_freed (ok : Reliable dev) (tables : 2 * v.fatSize ≤ 2 ^ 32) (fs : State) (start : Nat)
    (inside : ∀ c, OnChain v fs.disk start c → c < v.fatSize * entriesPerSec) :
    ∃ fs', Returns (fun fuel => fatFreeChain dev v fuel fs start) fs' ∧ FreesChain v fs.disk start fs'.disk := by
  obtain ⟨fs', returns, frees⟩ := freeChain_frees ok tables (inUse v fs.disk) (Nat.le_refl _) inside
  exact ⟨fs', ⟨_, returns⟩, frees⟩

def cyclicChain : Mem := fun a =>
  if a = 520 ∨ a = 1032 then 3 else if a = 524 ∨ a = 1036 then 4 else if a = 528 ∨ a = 1040 then 3 else 0

theorem cyclicChain_small {c : Nat} (onChain : OnChain ((bootBpb 2).volume 0) cyclicChain 2 c) : c < 5 := by
  have links (a : Nat) : a = 2 ∨ a = 3 ∨ a = 4 → firstLink ((bootBpb 2).volume 0) cyclicChain a = 3 ∨
      firstLink ((bootBpb 2).volume 0) cyclicChain a = 4 := by
    rintro (rfl | rfl | rfl) <;> decide
  suffices bound : ∀ a, OnChain ((bootBpb 2).volume 0) cyclicChain a c → a = 2 ∨ a = 3 ∨ a = 4 → c < 5 from
    bound 2 onChain (Or.inl rfl)
  clear onChain
  intro a there start
  induction there with
  | here => omega
  | link _ _ ih => exact ih (Or.inr (links _ start))

theorem chain_freed_cyclic : ∃ fs', Returns (fun fuel => fatFreeChain reliable ((bootBpb 2).volume 0) fuel ⟨cyclicChain, [], 0⟩ 2) fs' ∧
    FreesChain ((bootBpb 2).volume 0) cyclicChain 2 fs'.disk :=
  chain_freed reliable_ok (by decide) ⟨cyclicChain, [], 0⟩ 2 fun _ onChain => Nat.lt_trans (cyclicChain_small onChain) (by decide)

end RexOs.Fs
