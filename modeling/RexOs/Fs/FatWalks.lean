import RexOs.Fs.LongNames
import RexOs.Fs.FatFuel
import RexOs.Fs.FatMount
import Mathlib.Data.Nat.ModEq

/-! When the walks along chains end.

A walk follows links that it reads from the disk. Nothing checks them, so a chain may be a cycle.
A walk to an offset advances by the size of a cluster, which may be zero, and in 64 bits.
-/

set_option autoImplicit false

namespace RexOs.Fs

open RexOs.Library

/-- The link of a cluster in the table, as `fat_next_cluster` reads it. -/
def link (v : Volume) (m : Mem) (c : Nat) : Nat :=
  load (fun i => m (fatSectorOf v c * sectorSize + i)) (4 * (u32 (c * 4) % sectorSize / 4)) 4 &&& 0x0FFFFFFF

/-- The chain from `c` on ends, `c` counted. -/
def ChainEnds (v : Volume) (m : Mem) (c : Nat) : Prop := ∃ n, ¬ IsLink ((link v m)^[n] c)

def EndsBehind (v : Volume) (m : Mem) (c : Nat) : Prop := ∃ n, ¬ IsLink ((link v m)^[n + 1] c)

variable {dev : Device} {v : Volume} {fs fs' : State} {m : Mem} {c n : Nat} {before : List Mem} {ld : Loading}

theorem fatNextCluster_link (dev : Device) (v : Volume) (fs : State) (c : Nat) :
    fatNextCluster dev v fs c = (if dev.readOk fs.clock then link v fs.disk c else 0x0FFFFFFF, fs.tick) := by
  cases read : dev.readOk fs.clock with
  | false => simp only [fatNextCluster, readBlocks, read, Bool.false_eq_true, if_false]
  | true =>
    simp only [fatNextCluster, readBlocks, read, if_true]
    rfl

theorem endMark_ends : ¬ IsLink 0x0FFFFFFF := fun both => absurd both.2 (by decide)

def clusterBytes (v : Volume) (m : Mem) (c : Nat) : Mem := (readCluster reliable v ⟨m, [], 0⟩ c).1.getD fun _ => 0

def entriesOf (v : Volume) (m : Mem) (c : Nat) : List Mem := direntsAt (clusterBytes v m c) 0 (v.bytesPerCluster / 32)

def dirEntries (v : Volume) (m : Mem) : Nat → Nat → List Mem
  | 0, _ => []
  | n + 1, c => entriesOf v m c ++ dirEntries v m n (link v m c)

/-- The entries of the first `n` clusters fit, and behind them the chain ends, or there is an end
mark among them. -/
def StopsAfter (v : Volume) (m : Mem) (before : List Mem) (c n : Nat) : Prop :=
  FitBehind before (dirEntries v m n c) ∧
    (¬ IsLink ((link v m)^[n] c) ∨ ∃ e ∈ dirEntries v m n c, e 0 = 0x00)

def DirStops (v : Volume) (m : Mem) (c : Nat) : Prop := ∃ n, StopsAfter v m [] c n

theorem readChunks_cases (dev : Device) (rounds lba p remaining : Nat) (buf : Mem) (fs fs₀ : State) (same : fs₀.disk = fs.disk) :
    ∃ fs', fs'.disk = fs.disk ∧
      (readChunks dev rounds lba p remaining buf fs = (none, fs') ∧ ¬ Reliable dev ∨
        readChunks dev rounds lba p remaining buf fs = ((readChunks reliable rounds lba p remaining buf fs₀).1, fs') ∧
          (readChunks reliable rounds lba p remaining buf fs₀).1.isSome = true) := by
  induction rounds generalizing lba p remaining buf fs fs₀ with
  | zero => exact ⟨fs, rfl, Or.inr ⟨rfl, rfl⟩⟩
  | succ rounds ih =>
    rw [readChunks, readChunks]
    split
    · dsimp only
      rw [readBlocks_ok reliable_ok]
      cases read : dev.readOk fs.clock with
      | false =>
        refine ⟨fs.tick, rfl, Or.inl ⟨?_, fun ok => absurd (read.symm.trans (ok.reads _)) Bool.false_ne_true⟩⟩
        simp only [readBlocks, read, Bool.false_eq_true, if_false]
      | true =>
        simp only [readBlocks, read, if_true]
        rw [same]
        exact ih _ _ _ _ fs.tick (fs₀.after fs.disk (fs₀.clock + 1)) rfl
    · exact ⟨fs, rfl, Or.inr ⟨rfl, rfl⟩⟩

theorem readCluster_cases (dev : Device) (v : Volume) (fs : State) (c : Nat) :
    ∃ fs', fs'.disk = fs.disk ∧
      (readCluster dev v fs c = (none, fs') ∧ ¬ Reliable dev ∨ readCluster dev v fs c = (some (clusterBytes v fs.disk c), fs')) := by
  rw [clusterBytes, readCluster, readCluster, heapAlloc_ok reliable_ok]
  cases room : dev.allocOk fs.clock with
  | false =>
    refine ⟨fs.tick, rfl, Or.inl ⟨?_, fun ok => absurd (room.symm.trans (ok.allocs _)) Bool.false_ne_true⟩⟩
    simp only [heapAlloc, room]
  | true =>
    simp only [heapAlloc, room]
    obtain ⟨fs', disk, ⟨fails, notOk⟩ | ⟨reads, some_⟩⟩ := readChunks_cases dev v.sectorsPerCluster (clusterToLba v c) 0
      v.sectorsPerCluster (fun _ => 0) fs.tick ((⟨fs.disk, [], 0⟩ : State).after fs.disk (0 + 1)) rfl
    · exact ⟨fs', disk, Or.inl ⟨fails, notOk⟩⟩
    · refine ⟨fs', disk, Or.inr ?_⟩
      rw [reads]
      congr 1
      obtain ⟨buf, is⟩ := Option.isSome_iff_exists.mp some_
      rw [is, Option.getD_some]

theorem fitBehind_append {es es' : List Mem} (used : ∀ e ∈ es, e 0 ≠ 0x00) :
    FitBehind before (es ++ es') ↔ FitBehind before es ∧ FitBehind (es.reverse ++ before) es' := by
  induction es generalizing before with
  | nil => exact ⟨fun fit => ⟨eachStep_nil _, fit⟩, fun both => both.2⟩
  | cons e es ih =>
    have here := used e List.mem_cons_self
    rw [List.cons_append, fitBehind_cons here, fitBehind_cons here, and_assoc,
      ih fun e' member => used e' (List.mem_cons_of_mem e member), List.reverse_cons, List.append_assoc]
    rfl

theorem fitBehind_left {es es' : List Mem} (fit : FitBehind before (es ++ es')) : FitBehind before es := by
  induction es generalizing before with
  | nil => exact eachStep_nil _
  | cons e es ih =>
    by_cases last : e 0 = 0x00
    · exact fitBehind_end last
    · have both := (fitBehind_cons last).mp fit
      exact (fitBehind_cons last).mpr ⟨both.1, ih both.2⟩

theorem clusterLoop_end (noLink : ¬ IsLink c) (fuel : Nat) : clusterLoop dev v (fuel + 1) c ld fs = .ok (ld, fs) :=
  if_neg fun both => noLink ⟨both.2, both.1⟩

section
variable {fs₁ : State} {cbuf : Mem} {fuel : Nat} {ld' : Loading}

theorem clusterLoop_unread (isLink : IsLink c) (fails : readCluster dev v fs c = (none, fs₁)) :
    clusterLoop dev v (fuel + 1) c ld fs = .ok (ld, fs₁) := by
  rw [clusterLoop, if_pos ⟨isLink.2, isLink.1⟩, fails]

theorem clusterLoop_error {fault : Fault} (isLink : IsLink c) (reads : readCluster dev v fs c = (some cbuf, fs₁))
    (entries : entryLoop dev (clusterToLba v c) cbuf (v.bytesPerCluster / 32) 0 ld fs₁ = .error fault) :
    clusterLoop dev v (fuel + 1) c ld fs = .error fault := by
  rw [clusterLoop, if_pos ⟨isLink.2, isLink.1⟩, reads]
  dsimp only
  rw [entries]
  rfl

theorem clusterLoop_done (isLink : IsLink c) (reads : readCluster dev v fs c = (some cbuf, fs₁))
    (entries : entryLoop dev (clusterToLba v c) cbuf (v.bytesPerCluster / 32) 0 ld fs₁ = .ok (false, ld', fs')) :
    clusterLoop dev v (fuel + 1) c ld fs = .ok (ld', fs') := by
  rw [clusterLoop, if_pos ⟨isLink.2, isLink.1⟩, reads]
  dsimp only
  rw [entries]
  rfl

theorem clusterLoop_next (isLink : IsLink c) (reads : readCluster dev v fs c = (some cbuf, fs₁))
    (entries : entryLoop dev (clusterToLba v c) cbuf (v.bytesPerCluster / 32) 0 ld fs₁ = .ok (true, ld', fs')) :
    clusterLoop dev v (fuel + 1) c ld fs =
      clusterLoop dev v fuel (if dev.readOk fs'.clock then link v fs'.disk c else 0x0FFFFFFF) ld' fs'.tick := by
  rw [clusterLoop, if_pos ⟨isLink.2, isLink.1⟩, reads]
  dsimp only
  rw [entries]
  show clusterLoop dev v fuel (fatNextCluster dev v fs' c).1 ld' (fatNextCluster dev v fs' c).2 = _
  rw [fatNextCluster_link]

end

theorem clusterLoop_returns (dev : Device) : ∀ (n : Nat) {before : List Mem} {c : Nat} {ld : Loading} (fs : State), ld.Follows before →
    StopsAfter v fs.disk before c n → ∃ r, Returns (fun fuel => clusterLoop dev v fuel c ld fs) r := by
  intro n
  induction n with
  | zero =>
    rintro before c ld fs _ ⟨_, noLink | ⟨e, member, _⟩⟩
    · exact ⟨(ld, fs), 1, clusterLoop_end noLink 0⟩
    · cases member
  | succ n ih =>
    rintro before c ld fs follows ⟨fit, stop⟩
    by_cases isLink : IsLink c
    swap
    · exact ⟨(ld, fs), 1, clusterLoop_end isLink 0⟩
    obtain ⟨fs₁, disk₁, ⟨fails, _⟩ | reads⟩ := readCluster_cases dev v fs c
    · exact ⟨(ld, fs₁), 1, clusterLoop_unread isLink fails⟩
    rcases entryLoop_passes dev (clusterToLba v c) (clusterBytes v fs.disk c)
      (v.bytesPerCluster / 32) 0 fs₁ follows with ⟨_, unfit⟩ | ⟨more, ld', fs', returns, passes⟩
    · exact absurd (fitBehind_left fit) unfit
    cases more with
    | false => exact ⟨(ld', fs'), 1, clusterLoop_done isLink reads returns⟩
    | true =>
      obtain ⟨used, _, follows'⟩ := passes.goesOn rfl
      have same : fs'.tick.disk = fs.disk := passes.disk.trans disk₁
      cases read : dev.readOk fs'.clock with
      | false =>
        refine ⟨(ld', fs'.tick), 2, ?_⟩
        dsimp only
        rw [clusterLoop_next isLink reads returns, read, if_neg Bool.false_ne_true, clusterLoop_end endMark_ends]
      | true =>
        have rest : StopsAfter v fs'.tick.disk ((entriesOf v fs.disk c).reverse ++ before) (link v fs.disk c) n := by
          rw [same]
          constructor
          · exact ((fitBehind_append used).mp fit).2
          · rcases stop with noLink | ⟨e, member, last⟩
            · exact Or.inl noLink
            · rcases List.mem_append.mp member with here | later
              · exact absurd last (used e here)
              · exact Or.inr ⟨e, later, last⟩
        obtain ⟨r, fuel, ends⟩ := ih fs'.tick follows' rest
        refine ⟨r, fuel + 1, ?_⟩
        dsimp only
        rw [clusterLoop_next isLink reads returns, read, if_pos rfl, passes.disk, disk₁]
        exact ends

theorem clusterLoop_stops (ok : Reliable dev) : ∀ (fuel : Nat) {before : List Mem} {c : Nat} {ld : Loading} {fs : State}
    {r : Loading × State}, ld.Follows before → clusterLoop dev v fuel c ld fs = .ok r → ∃ n, StopsAfter v fs.disk before c n := by
  intro fuel
  induction fuel with
  | zero =>
    intro before c ld fs r _ returned
    cases returned
  | succ fuel ih =>
    intro before c ld fs r follows returned
    by_cases isLink : IsLink c
    swap
    · exact ⟨0, eachStep_nil _, Or.inl isLink⟩
    obtain ⟨fs₁, disk₁, ⟨_, notOk⟩ | reads⟩ := readCluster_cases dev v fs c
    · exact absurd ok notOk
    rcases entryLoop_passes dev (clusterToLba v c) (clusterBytes v fs.disk c)
      (v.bytesPerCluster / 32) 0 fs₁ follows with ⟨faults, _⟩ | ⟨more, ld', fs', returns, passes⟩
    · rw [clusterLoop_error isLink reads faults] at returned
      cases returned
    obtain ⟨fit, goesOn⟩ := passes.ends ok.allocs
    cases more with
    | false =>
      refine ⟨1, ?_, Or.inr ?_⟩
      · rw [dirEntries, dirEntries, List.append_nil]
        exact fit
      · by_contra none
        apply Bool.false_ne_true
        apply goesOn
        intro e member last
        exact none ⟨e, List.mem_append_left _ member, last⟩
    | true =>
      obtain ⟨used, _, follows'⟩ := passes.goesOn rfl
      rw [clusterLoop_next isLink reads returns, ok.reads, if_pos rfl] at returned
      obtain ⟨n, rest, stop⟩ := ih follows' returned
      have same : fs'.tick.disk = fs.disk := passes.disk.trans disk₁
      rw [same, passes.disk, disk₁] at rest stop
      refine ⟨n + 1, (fitBehind_append used).mpr ⟨fit, rest⟩, ?_⟩
      rcases stop with noLink | ⟨e, member, last⟩
      · exact Or.inl noLink
      · exact Or.inr ⟨e, List.mem_append_right _ member, last⟩

theorem noName_follows : (⟨[], 0, noName, false⟩ : Loading).Follows [] := by
  constructor
  · exact iff_of_false Bool.false_ne_true fun name => name rfl
  · exact List.length_replicate
  · intro opened
    cases opened

/-- What the load of directory `d` needs to come to an end. -/
def LoadStops (v : Volume) (fs : State) (d : Nat) : Prop :=
  ∀ dp, fs.nodes[d]? = some dp → dp.childrenLoaded = false → DirStops v fs.disk dp.startCluster

theorem load_returns {d : Nat} (stops : LoadStops v fs d) :
    ∃ r, Returns (fun fuel => fat32DirLoadChildren dev v fuel fs d) r := by
  cases found : fs.nodes[d]? with
  | none => exact ⟨fs, 0, by simp only [fat32DirLoadChildren, found]⟩
  | some dp =>
    by_cases loaded : dp.childrenLoaded = true
    · exact ⟨fs, 0, by simp only [fat32DirLoadChildren, found, loaded, if_true]⟩
    · by_cases noLink : dp.startCluster < 2 ∨ dp.startCluster ≥ clusterEndMark
      · exact ⟨_, 0, by simp only [fat32DirLoadChildren, found, loaded, noLink, if_true]; rfl⟩
      · obtain ⟨n, stop⟩ := stops dp found (Bool.eq_false_iff.mpr loaded)
        obtain ⟨⟨ld, fs'⟩, fuel, ends⟩ := clusterLoop_returns dev n
          (fs.setNode d fun dp => { dp with childrenLoaded := true }) noName_follows stop
        dsimp only at ends
        refine ⟨fs'.setNode d fun dp => { dp with children := ld.kids, childrenCap := ld.kidsCap }, fuel, ?_⟩
        dsimp only
        rw [fat32DirLoadChildren, found]
        dsimp only
        rw [if_neg loaded, if_neg noLink, ends]
        rfl

theorem load_stops (ok : Reliable dev) {d : Nat} {r : State}
    (returns : Returns (fun fuel => fat32DirLoadChildren dev v fuel fs d) r) : LoadStops v fs d := by
  intro dp found unloaded
  obtain ⟨fuel, returned⟩ := returns
  dsimp only at returned
  rw [fat32DirLoadChildren, found] at returned
  dsimp only at returned
  rw [if_neg (Bool.eq_false_iff.mp unloaded)] at returned
  by_cases noLink : dp.startCluster < 2 ∨ dp.startCluster ≥ clusterEndMark
  · refine ⟨0, eachStep_nil _, Or.inl fun isLink => ?_⟩
    have low := isLink.1
    have high := isLink.2
    rw [Function.iterate_zero_apply] at low high
    omega
  · rw [if_neg noLink] at returned
    cases looped : clusterLoop dev v fuel dp.startCluster ⟨[], 0, noName, false⟩
        (fs.setNode d fun dp => { dp with childrenLoaded := true }) with
    | error fault =>
      rw [looped] at returned
      cases returned
    | ok r =>
      obtain ⟨n, stop⟩ := clusterLoop_stops ok fuel noName_follows looped
      exact ⟨n, stop⟩

theorem freeSectorLoop_disk (dev : Device) (lba : Nat) : ∀ (rounds s : Nat) (fs : State),
    (freeSectorLoop dev lba rounds s fs).2.disk = fs.disk := by
  intro rounds
  induction rounds with
  | zero => exact fun _ _ => rfl
  | succ rounds ih =>
    intro s fs
    cases read : dev.readOk fs.clock with
    | false =>
      simp only [freeSectorLoop, readBlocks, read, Bool.false_eq_true, if_false]
      exact ih (s + 1) fs.tick
    | true =>
      simp only [freeSectorLoop, readBlocks, read, if_true]
      split
      · rfl
      · exact ih (s + 1) fs.tick

theorem findFreeDirent_returns : ∀ (n : Nat) {c : Nat} {fs : State}, ¬ IsLink ((link v fs.disk)^[n] c) →
    ∃ r, Returns (fun fuel => fat32FindFreeDirent dev v fuel fs c) r := by
  intro n
  induction n with
  | zero =>
    intro c fs noLink
    exact ⟨(none, fs), 1, if_neg noLink⟩
  | succ n ih =>
    intro c fs noLink
    by_cases isLink : IsLink c
    swap
    · exact ⟨(none, fs), 1, if_neg isLink⟩
    have inside : 2 ≤ c ∧ c < clusterEndMark := isLink
    have disk := freeSectorLoop_disk dev (clusterToLba v c) v.sectorsPerCluster 0 fs
    cases searched : freeSectorLoop dev (clusterToLba v c) v.sectorsPerCluster 0 fs with
    | mk place fs₁ =>
      rw [searched] at disk
      cases place with
      | some place =>
        refine ⟨(some place, fs₁), 1, ?_⟩
        dsimp only
        rw [fat32FindFreeDirent, if_pos inside, searched]
      | none =>
        have next (fuel : Nat) : fat32FindFreeDirent dev v (fuel + 1) fs c =
            fat32FindFreeDirent dev v fuel fs₁.tick (if dev.readOk fs₁.clock then link v fs.disk c else 0x0FFFFFFF) := by
          rw [fat32FindFreeDirent, if_pos inside, searched]
          dsimp only
          rw [fatNextCluster_link, disk]
        cases read : dev.readOk fs₁.clock with
        | false =>
          refine ⟨(none, fs₁.tick), 2, ?_⟩
          dsimp only
          rw [next, read, if_neg Bool.false_ne_true]
          exact if_neg endMark_ends
        | true =>
          have rest : ¬ IsLink ((link v fs₁.tick.disk)^[n] (link v fs.disk c)) := disk.symm ▸ noLink
          obtain ⟨r, fuel, ends⟩ := ih rest
          refine ⟨r, fuel + 1, ?_⟩
          dsimp only
          rw [next, read, if_pos rfl]
          exact ends

/-- The blocks of directories cannot be read, those of the table can: each `k + 1`-st read from `t` on succeeds. -/
def noSectors (k t : Nat) : Device := ⟨fun t' => (t' - t) % (k + 1) = k, fun _ => true, fun _ => true⟩

theorem freeSectorLoop_noSectors (k t lba : Nat) : ∀ (rounds s : Nat) (fs : State), t ≤ fs.clock →
    (fs.clock - t) % (k + 1) + rounds = k →
    freeSectorLoop (noSectors k t) lba rounds s fs = (none, { fs with clock := fs.clock + rounds }) := by
  intro rounds
  induction rounds with
  | zero => exact fun _ _ _ _ => rfl
  | succ rounds ih =>
    intro s fs later phase
    have fails : (noSectors k t).readOk fs.clock = false := decide_eq_false (by omega)
    have following : (fs.clock + 1 - t) % (k + 1) = (fs.clock - t) % (k + 1) + 1 := by
      rw [show fs.clock + 1 - t = fs.clock - t + 1 by omega, Nat.add_mod_eq_add_mod_right (c := 1) (Nat.mod_mod _ _).symm]
      exact Nat.mod_eq_of_lt (by omega)
    simp only [freeSectorLoop, readBlocks, fails, Bool.false_eq_true, if_false]
    rw [ih (s + 1) fs.tick (Nat.le_succ_of_le later) (by rw [State.tick, following]; omega)]
    simp only [State.tick, Nat.add_assoc, Nat.add_comm 1 rounds]

theorem findFreeDirent_hangs (t : Nat) : ∀ (fuel : Nat) {c : Nat} {fs : State}, t ≤ fs.clock →
    (fs.clock - t) % (v.sectorsPerCluster + 1) = 0 → (∀ n, IsLink ((link v fs.disk)^[n] c)) →
    fat32FindFreeDirent (noSectors v.sectorsPerCluster t) v fuel fs c = .error .hang := by
  intro fuel
  induction fuel with
  | zero => exact fun _ _ _ => rfl
  | succ fuel ih =>
    intro c fs later phase links
    have inside : 2 ≤ c ∧ c < clusterEndMark := links 0
    rw [fat32FindFreeDirent, if_pos inside, freeSectorLoop_noSectors _ _ _ _ _ _ later (by omega)]
    dsimp only
    have reads : (noSectors v.sectorsPerCluster t).readOk (fs.clock + v.sectorsPerCluster) = true := by
      apply decide_eq_true
      rw [show fs.clock + v.sectorsPerCluster - t = fs.clock - t + v.sectorsPerCluster by omega, Nat.add_mod, phase,
        Nat.zero_add, Nat.mod_mod]
      exact Nat.mod_eq_of_lt (Nat.lt_succ_self _)
    rw [fatNextCluster_link, reads, if_pos rfl]
    apply ih
    · show t ≤ fs.clock + v.sectorsPerCluster + 1
      omega
    · show (fs.clock + v.sectorsPerCluster + 1 - t) % (v.sectorsPerCluster + 1) = 0
      rw [show fs.clock + v.sectorsPerCluster + 1 - t = fs.clock - t + (v.sectorsPerCluster + 1) by omega, Nat.add_mod_right]
      exact phase
    · exact fun n => links (n + 1)

end RexOs.Fs
