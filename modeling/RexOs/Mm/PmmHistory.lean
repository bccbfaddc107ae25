import Mathlib.Order.Interval.Finset.Nat
import RexOs.Library.Run
import RexOs.Mm.PmmInvariant

/-! The frame allocator over whole histories.

The ledger adds to the allocator the frames that callers hold. Every history of
allocations and releases keeps the counter equal to the bitmap, and only frames
that no caller holds, of usable memory outside the bitmap, are handed out.
-/

set_option autoImplicit false

namespace RexOs.Mm

open RexOs.Library

/-- Frame `i` lies inside a usable region. -/
def UsableFrame (map : List MemmapEntry) (i : Nat) : Prop :=
  ∃ e ∈ map, e.type = .usable ∧ e.base ≤ i * pageSize ∧ (i + 1) * pageSize ≤ e.base + e.length

/-- Frame `i` shares a byte with the bitmap's storage. -/
def InBitmap (s : Pmm) (i : Nat) : Prop :=
  s.bitmapPhys < (i + 1) * pageSize ∧ i * pageSize < s.bitmapPhys + s.bitmapSize

def MemmapEntry.Disjoint (a b : MemmapEntry) : Prop :=
  a.base + a.length ≤ b.base ∨ b.base + b.length ≤ a.base

structure MemmapOk (map : List MemmapEntry) : Prop where
  addressable : ∀ e ∈ map, e.base + e.length < 2 ^ 64
  aligned : ∀ e ∈ map, pageSize ∣ e.base ∧ pageSize ∣ e.length
  disjoint : map.Pairwise MemmapEntry.Disjoint
  zeroReserved : ∀ e ∈ map, e.type = .usable → e.base ≠ 0
  room : ∃ e ∈ map, e.type = .usable ∧ bitmapBytes (usableTop map / pageSize) ≤ e.length

theorem raiseTop_bounds (top : Nat) (e : MemmapEntry) :
    top ≤ raiseTop top e ∧ (e.type = .usable → e.end ≤ raiseTop top e) := by
  unfold raiseTop
  split
  · exact ⟨by omega, fun _ => le_refl _⟩
  · rename_i small
    exact ⟨le_refl _, fun usable => Nat.le_of_not_lt fun larger => small ⟨usable, larger⟩⟩

theorem raiseTop_fold_bounds (map : List MemmapEntry) (start : Nat) :
    start ≤ map.foldl raiseTop start ∧
      ∀ e ∈ map, e.type = .usable → e.end ≤ map.foldl raiseTop start := by
  induction map generalizing start with
  | nil => simp
  | cons first rest ih =>
    obtain ⟨grown, bounded⟩ := ih (raiseTop start first)
    obtain ⟨kept, raised⟩ := raiseTop_bounds start first
    refine ⟨kept.trans grown, ?_⟩
    intro e member usable
    rcases List.mem_cons.mp member with rfl | later
    · exact (raised usable).trans grown
    · exact bounded e later usable

theorem usable_end_le {map : List MemmapEntry} (ok : MemmapOk map) {e : MemmapEntry}
    (member : e ∈ map) (usable : e.type = .usable) :
    e.base / pageSize + e.length / pageSize ≤ usableTop map / pageSize := by
  have below : e.end ≤ usableTop map := (raiseTop_fold_bounds map 0).2 e member usable
  obtain ⟨⟨a, base⟩, ⟨b, length⟩⟩ := ok.aligned e member
  rw [MemmapEntry.end, Nat.mod_eq_of_lt (ok.addressable e member)] at below
  simp only [pageSize] at *
  omega

theorem bitmapPlace_region {map : List MemmapEntry} {size : Nat}
    (room : ∃ e ∈ map, e.type = .usable ∧ size ≤ e.length) :
    ∃ e ∈ map, e.type = .usable ∧ size ≤ e.length ∧ bitmapPlace map size = e.base := by
  induction map with
  | nil => simp at room
  | cons first rest ih =>
    by_cases fits : first.type = .usable ∧ first.length ≥ size
    · exact ⟨first, by simp, fits.1, fits.2, by simp [bitmapPlace, fits]⟩
    · obtain ⟨e, member, usable, large⟩ := room
      have later : e ∈ rest := by
        rcases List.mem_cons.mp member with rfl | later
        · exact absurd ⟨usable, large⟩ fits
        · exact later
      obtain ⟨found, inRest, isUsable, holds, place⟩ := ih ⟨e, later, usable, large⟩
      exact ⟨found, by simp [inRest], isUsable, holds, by rw [bitmapPlace, if_neg fits, place]⟩

theorem releaseFrames_spec (s : Pmm) (first n : Nat) (inside : first + n ≤ s.totalFrames)
    (counted : s.usedFrames = s.setBits) :
    (releaseFrames s first n).totalFrames = s.totalFrames ∧
    (releaseFrames s first n).bitmapPhys = s.bitmapPhys ∧
    (releaseFrames s first n).bitmapSize = s.bitmapSize ∧
    (releaseFrames s first n).searchHint = s.searchHint ∧
    (releaseFrames s first n).usedFrames = (releaseFrames s first n).setBits ∧
    (∀ j, (releaseFrames s first n).bmTest j = (!decide (first ≤ j ∧ j < first + n) && s.bmTest j)) := by
  induction n with
  | zero =>
    refine ⟨rfl, rfl, rfl, rfl, counted, fun j => ?_⟩
    rw [decide_eq_false (show ¬ (first ≤ j ∧ j < first + 0) by omega)]
    rfl
  | succ n ih =>
    obtain ⟨total, phys, size, hint, count, bits⟩ := ih (by omega)
    have step (j : Nat) : (!decide (first ≤ j ∧ j < first + (n + 1)) && s.bmTest j) =
        (!decide (j = first + n) && (releaseFrames s first n).bmTest j) := by
      rw [bits, ← Bool.and_assoc, ← Bool.not_or, ← Bool.decide_or]
      congr 3
      apply propext
      omega
    simp only [releaseFrames]
    by_cases set : (releaseFrames s first n).bmTest (first + n) = true
    · rw [if_pos set]
      refine ⟨total, phys, size, hint, ?_, fun j => ?_⟩
      · have lowered := Pmm.setBits_clear (s := releaseFrames s first n)
          (t := (releaseFrames s first n).bmClear (first + n)) rfl (by omega) set (Pmm.bmTest_bmClear _ _)
        show (releaseFrames s first n).usedFrames - 1 = _
        change _ = ((releaseFrames s first n).bmClear (first + n)).setBits
        omega
      · rw [step]
        exact Pmm.bmTest_bmClear _ _ j
    · rw [if_neg set]
      refine ⟨total, phys, size, hint, count, fun j => ?_⟩
      rw [step]
      by_cases here : j = first + n
      · simpa [here] using set
      · simp [here]

theorem reserveFrames_spec (s : Pmm) (first n : Nat) (inside : first + n ≤ s.totalFrames)
    (counted : s.usedFrames = s.setBits) :
    (reserveFrames s first n).totalFrames = s.totalFrames ∧
    (reserveFrames s first n).bitmapPhys = s.bitmapPhys ∧
    (reserveFrames s first n).bitmapSize = s.bitmapSize ∧
    (reserveFrames s first n).searchHint = s.searchHint ∧
    (reserveFrames s first n).usedFrames = (reserveFrames s first n).setBits ∧
    (∀ j, (reserveFrames s first n).bmTest j = (decide (first ≤ j ∧ j < first + n) || s.bmTest j)) := by
  induction n with
  | zero =>
    refine ⟨rfl, rfl, rfl, rfl, counted, fun j => ?_⟩
    rw [decide_eq_false (show ¬ (first ≤ j ∧ j < first + 0) by omega)]
    rfl
  | succ n ih =>
    obtain ⟨total, phys, size, hint, count, bits⟩ := ih (by omega)
    have step (j : Nat) : (decide (first ≤ j ∧ j < first + (n + 1)) || s.bmTest j) =
        (decide (j = first + n) || (reserveFrames s first n).bmTest j) := by
      rw [bits, ← Bool.or_assoc, ← Bool.decide_or]
      congr 2
      apply propext
      omega
    simp only [reserveFrames]
    by_cases set : (reserveFrames s first n).bmTest (first + n) = true
    · rw [if_pos set]
      refine ⟨total, phys, size, hint, count, fun j => ?_⟩
      rw [step]
      by_cases here : j = first + n
      · simpa [here] using set
      · simp [here]
    · rw [if_neg set]
      refine ⟨total, phys, size, hint, ?_, fun j => ?_⟩
      · have raised := Pmm.setBits_set (s := reserveFrames s first n)
          (t := (reserveFrames s first n).bmSet (first + n)) rfl (by omega) (by simpa using set)
          (Pmm.bmTest_bmSet _ _)
        show (reserveFrames s first n).usedFrames + 1 = _
        change _ = ((reserveFrames s first n).bmSet (first + n)).setBits
        omega
      · rw [step]
        exact Pmm.bmTest_bmSet _ _ j

theorem usableFrame_cons {e : MemmapEntry} {rest : List MemmapEntry} {j : Nat} :
    UsableFrame (e :: rest) j ↔
      e.type = .usable ∧ e.base ≤ j * pageSize ∧ (j + 1) * pageSize ≤ e.base + e.length ∨ UsableFrame rest j := by
  simp only [UsableFrame, List.mem_cons, exists_eq_or_imp]

theorem releaseUsable_spec (map regions : List MemmapEntry) (ok : MemmapOk map)
    (sub : ∀ e ∈ regions, e ∈ map) (s : Pmm) (total : s.totalFrames = usableTop map / pageSize)
    (counted : s.usedFrames = s.setBits) :
    (releaseUsable s regions).totalFrames = s.totalFrames ∧
    (releaseUsable s regions).bitmapPhys = s.bitmapPhys ∧
    (releaseUsable s regions).bitmapSize = s.bitmapSize ∧
    (releaseUsable s regions).searchHint = s.searchHint ∧
    (releaseUsable s regions).usedFrames = (releaseUsable s regions).setBits ∧
    (∀ j, (releaseUsable s regions).bmTest j = false ↔ UsableFrame regions j ∨ s.bmTest j = false) := by
  induction regions generalizing s with
  | nil =>
    refine ⟨rfl, rfl, rfl, rfl, counted, fun j => ?_⟩
    simp only [UsableFrame, List.not_mem_nil, false_and, exists_false, false_or]
    rfl
  | cons e rest ih =>
    have member := sub e (by simp)
    have restSub : ∀ r ∈ rest, r ∈ map := fun r inRest => sub r (by simp [inRest])
    by_cases usable : e.type = .usable
    · have inside := usable_end_le ok member usable
      obtain ⟨total', phys', size', hint', counted', bits⟩ :=
        releaseFrames_spec s (e.base / pageSize) (e.length / pageSize) (by omega) counted
      obtain ⟨totalR, physR, sizeR, hintR, countedR, clearR⟩ :=
        ih restSub (releaseFrames s (e.base / pageSize) (e.length / pageSize)) (by omega) counted'
      have unfolded : releaseUsable s (e :: rest) =
          releaseUsable (releaseFrames s (e.base / pageSize) (e.length / pageSize)) rest := by
        simp only [releaseUsable, List.foldl_cons, usable, if_true]
      rw [unfolded]
      refine ⟨by omega, by omega, by omega, by omega, countedR, fun j => ?_⟩
      have covered : (e.base / pageSize ≤ j ∧ j < e.base / pageSize + e.length / pageSize) ↔
          e.base ≤ j * pageSize ∧ (j + 1) * pageSize ≤ e.base + e.length := by
        obtain ⟨⟨a, base⟩, ⟨b, length⟩⟩ := ok.aligned e member
        simp only [pageSize] at *
        omega
      rw [clearR, bits, usableFrame_cons, ← covered]
      by_cases here : e.base / pageSize ≤ j ∧ j < e.base / pageSize + e.length / pageSize
      · simp [here, usable]
      · simp [here]
    · have unfolded : releaseUsable s (e :: rest) = releaseUsable s rest := by
        simp only [releaseUsable, List.foldl_cons, usable, if_false]
      rw [unfolded]
      simp only [usableFrame_cons, usable, false_and, false_or]
      exact ih restSub s total counted

def Allocatable (map : List MemmapEntry) (s : Pmm) (i : Nat) : Prop :=
  UsableFrame map i ∧ ¬ InBitmap s i

theorem allocatable_ne_zero {map : List MemmapEntry} (ok : MemmapOk map) {s : Pmm} {i : Nat}
    (own : Allocatable map s i) : i ≠ 0 := by
  rintro rfl
  obtain ⟨⟨e, member, usable, low, _⟩, _⟩ := own
  exact ok.zeroReserved e member usable (by omega)

/-- The allocator as `pmmInit` leaves it. -/
structure InitialPmm (map : List MemmapEntry) (s : Pmm) : Prop where
  ok : s.Ok (Allocatable map s)
  total : s.totalFrames = usableTop map / pageSize
  clear : ∀ i, Allocatable map s i → s.bmTest i = false
  start : s.searchHint = 0
  size : s.bitmapSize = bitmapBytes (usableTop map / pageSize)
  place : s.bitmapPhys = bitmapPlace map s.bitmapSize

theorem pmmInit_ok {map : List MemmapEntry} (ok : MemmapOk map) (memory : Nat → UInt8) :
    ∃ s, pmmInit map memory = some s ∧ InitialPmm map s := by
  obtain ⟨e, member, usable, large, place⟩ := bitmapPlace_region ok.room
  have inside := usable_end_le ok member usable
  obtain ⟨⟨a, base⟩, ⟨b, length⟩⟩ := ok.aligned e member
  have nonzero := ok.zeroReserved e member usable
  let size := bitmapBytes (usableTop map / pageSize)
  let full : Pmm :=
    { bitmap := fun i => if i < size then 255 else memory i
      bitmapPhys := e.base
      bitmapSize := size
      totalFrames := usableTop map / pageSize
      usedFrames := usableTop map / pageSize
      searchHint := 0 }
  have allSet : ∀ j, j < full.totalFrames → full.bmTest j = true := by
    intro j below
    have covered : j >>> 3 < size := by
      rw [Nat.shiftRight_eq_div_pow]
      change j < usableTop map / pageSize at below
      simp only [size, bitmapBytes]
      omega
    simp only [full, Pmm.bmTest, covered, if_true]
    exact byteTest_full (bit_offset_lt j)
  have counted : full.usedFrames = full.setBits := (Nat.count_of_forall fun {j} below => allSet j below).symm
  obtain ⟨totalU, physU, sizeU, hintU, countedU, clearU⟩ :=
    releaseUsable_spec map map ok (fun _ h => h) full rfl counted
  have held : e.base / pageSize + (size + pageSize - 1) / pageSize ≤ full.totalFrames := by
    change size ≤ e.length at large
    change _ ≤ usableTop map / pageSize
    simp only [pageSize] at *
    omega
  obtain ⟨total, phys, sizeEq, hint, countedR, bits⟩ :=
    reserveFrames_spec (releaseUsable full map) (e.base / pageSize) ((size + pageSize - 1) / pageSize)
      (by omega) countedU
  refine ⟨_, ?_, ⟨countedR, by rw [hint, hintU]; exact Nat.zero_le _, ?_⟩, ?_, ?_, ?_, ?_, ?_⟩
  · simp only [pmmInit, place, nonzero, if_false]
    rfl
  · intro j below clear
    rw [bits] at clear
    simp only [Bool.or_eq_false_iff, decide_eq_false_iff_not] at clear
    refine ⟨((clearU j).mp clear.2).resolve_right (by simp [allSet j (by omega)]), ?_⟩
    -- a frame outside the reserved range has no byte in common with the bitmap
    rintro ⟨low, high⟩
    rw [phys, physU] at low
    rw [phys, physU, sizeEq, sizeU] at high
    apply clear.1
    change e.base < _ at low
    change _ < e.base + size at high
    simp only [pageSize] at *
    omega
  · rw [total, totalU]
  · intro j own
    have outside := own.2
    rw [InBitmap, phys, physU, sizeEq, sizeU] at outside
    change ¬ (e.base < _ ∧ _ < e.base + size) at outside
    rw [bits, (clearU j).mpr (Or.inl own.1), Bool.or_false]
    apply decide_eq_false
    simp only [pageSize] at *
    omega
  · rw [hint, hintU]
  · rw [sizeEq, sizeU]
  · rw [phys, physU, sizeEq, sizeU]
    exact place.symm

inductive PmmOp where
  | allocFrame
  | allocFrames (count : Nat)
  | freeFrame (phys : Nat)
  | freeFrames (phys count : Nat)
  deriving DecidableEq, Repr

/-- The allocator with the frames that are held and the frames ever handed out. -/
structure Ledger where
  pmm : Pmm
  live : Finset Nat
  ever : Finset Nat

def framesAt (phys count : Nat) : Finset Nat :=
  if phys = 0 then ∅ else Finset.Ico (phys / pageSize) (phys / pageSize + count)

def handedOut (s : Pmm) : PmmOp → Finset Nat
  | .allocFrame => framesAt (pmmAllocFrame s).1 1
  | .allocFrames count => framesAt (pmmAllocFrames s count).1 count
  | .freeFrame _ | .freeFrames _ _ => ∅

def givenBack : PmmOp → Finset Nat
  | .allocFrame | .allocFrames _ => ∅
  | .freeFrame phys => {phys / pageSize}
  | .freeFrames phys count => (Finset.range count).image fun k => (phys + k * pageSize) / pageSize

def applyOp (s : Pmm) : PmmOp → Pmm
  | .allocFrame => (pmmAllocFrame s).2
  | .allocFrames count => (pmmAllocFrames s count).2
  | .freeFrame phys => pmmFreeFrame s phys
  | .freeFrames phys count => pmmFreeFrames s phys count

def LedgerStep (l : Ledger) (op : PmmOp) (next : Ledger) : Prop :=
  givenBack op ⊆ l.ever ∧
  next = ⟨applyOp l.pmm op, (l.live ∪ handedOut l.pmm op) \ givenBack op, l.ever ∪ handedOut l.pmm op⟩

structure LedgerOk (Free : Nat → Prop) (l : Ledger) : Prop where
  pmm : l.pmm.Ok Free
  held : ∀ i ∈ l.live, i < l.pmm.totalFrames ∧ l.pmm.bmTest i = true
  known : ∀ i ∈ l.ever, Free i

theorem mem_framesAt {start count i : Nat} (member : i ∈ framesAt (start * pageSize) count) :
    start ≤ i ∧ i < start + count := by
  unfold framesAt at member
  split at member
  · simp at member
  · rw [Nat.mul_div_cancel start (show 0 < pageSize by decide), Finset.mem_Ico] at member
    exact member

theorem handedOut_clear {Free : Nat → Prop} {s : Pmm} (ok : s.Ok Free) {op : PmmOp} {i : Nat}
    (member : i ∈ handedOut s op) :
    i < s.totalFrames ∧ s.bmTest i = false ∧ (applyOp s op).bmTest i = true := by
  cases op with
  | allocFrame =>
    simp only [handedOut] at member
    rcases pmmAllocFrame_cases ok.hint with ⟨start, inside, clear, result⟩ | ⟨_, result⟩
    · rw [result] at member
      obtain rfl : i = start := by have := mem_framesAt member; omega
      refine ⟨inside, clear, ?_⟩
      simp only [applyOp, result]
      exact (Pmm.bmTest_bmSet s i i).trans (by simp)
    · simp [result, framesAt] at member
  | allocFrames count =>
    simp only [handedOut] at member
    rcases pmmAllocFrames_cases ok count with ⟨start, inside, clear, result, _, bits⟩ | result
    · rw [result] at member
      obtain ⟨low, high⟩ := mem_framesAt member
      exact ⟨by omega, clear i low high, (bits i).trans (by simp [low, high])⟩
    · simp [result, framesAt] at member
  | freeFrame phys => simp [handedOut] at member
  | freeFrames phys count => simp [handedOut] at member

theorem applyOp_ok {Free : Nat → Prop} {s : Pmm} (ok : s.Ok Free) {op : PmmOp}
    (own : ∀ i ∈ givenBack op, Free i) : (applyOp s op).Ok Free := by
  cases op with
  | allocFrame =>
    rcases pmmAllocFrame_cases ok.hint with ⟨i, inside, clear, result⟩ | ⟨_, result⟩
    · simpa only [applyOp, result] using takeFrame_ok ok inside clear
    · simpa only [applyOp, result] using ok
  | allocFrames count =>
    rcases pmmAllocFrames_cases ok count with ⟨_, _, _, _, kept, _⟩ | result
    · exact kept
    · simpa only [applyOp, result] using ok
  | freeFrame phys => exact pmmFreeFrame_ok ok (own _ (by simp [givenBack]))
  | freeFrames phys count =>
    refine pmmFreeFrames_ok ok fun k small => own _ ?_
    simp only [givenBack, Finset.mem_image, Finset.mem_range]
    exact ⟨k, small, rfl⟩

theorem applyOp_fields {Free : Nat → Prop} {s : Pmm} (ok : s.Ok Free) (op : PmmOp) :
    (applyOp s op).totalFrames = s.totalFrames := by
  cases op with
  | allocFrame =>
    rcases pmmAllocFrame_cases ok.hint with ⟨i, _, _, result⟩ | ⟨_, result⟩
    · simp only [applyOp, result, takeFrame, Pmm.bmSet_totalFrames]
    · simp only [applyOp, result]
  | allocFrames count =>
    simp only [applyOp, pmmAllocFrames]
    split
    · rfl
    · split
      · rcases pmmAllocFrame_cases ok.hint with ⟨i, _, _, result⟩ | ⟨_, result⟩
        · simp only [result, takeFrame, Pmm.bmSet_totalFrames]
        · simp only [result]
      · split
        · exact (setRun_fields s _ _).1
        · rfl
  | freeFrame phys => exact (pmmFreeFrame_fields s phys).1
  | freeFrames phys count => exact pmmFreeFrames_fields s phys count

theorem applyOp_keeps {Free : Nat → Prop} {s : Pmm} (ok : s.Ok Free) {op : PmmOp} {i : Nat}
    (inside : i < s.totalFrames) (set : s.bmTest i = true) (kept : i ∉ givenBack op) :
    (applyOp s op).bmTest i = true := by
  cases op with
  | allocFrame =>
    rcases pmmAllocFrame_cases ok.hint with ⟨j, _, _, result⟩ | ⟨_, result⟩
    · simp only [applyOp, result]
      exact (Pmm.bmTest_bmSet s j i).trans (by simp [set])
    · simpa only [applyOp, result] using set
  | allocFrames count =>
    rcases pmmAllocFrames_cases ok count with ⟨_, _, _, _, _, bits⟩ | result
    · exact (bits i).trans (by simp [set])
    · simpa only [applyOp, result] using set
  | freeFrame phys =>
    have apart : i ≠ phys / pageSize := by simpa [givenBack] using kept
    exact (pmmFreeFrame_bmTest s phys i inside).trans (by simp [apart, set])
  | freeFrames phys count =>
    refine (pmmFreeFrames_bmTest s phys count i inside fun k small eq => kept ?_).trans set
    simp only [givenBack, Finset.mem_image, Finset.mem_range]
    exact ⟨k, small, eq.symm⟩

theorem ledger_step {Free : Nat → Prop} {l next : Ledger} {op : PmmOp} (ok : LedgerOk Free l)
    (taken : LedgerStep l op next) : LedgerOk Free next := by
  obtain ⟨own, rfl⟩ := taken
  refine ⟨applyOp_ok ok.pmm fun i member => ok.known i (own member), ?_, ?_⟩
  · intro i member
    simp only [Finset.mem_sdiff, Finset.mem_union] at member
    rw [applyOp_fields ok.pmm]
    rcases member.1 with held | fresh
    · obtain ⟨inside, set⟩ := ok.held i held
      exact ⟨inside, applyOp_keeps ok.pmm inside set member.2⟩
    · obtain ⟨inside, _, set⟩ := handedOut_clear ok.pmm fresh
      exact ⟨inside, set⟩
  · intro i member
    rcases Finset.mem_union.mp member with before | fresh
    · exact ok.known i before
    · obtain ⟨inside, clear, _⟩ := handedOut_clear ok.pmm fresh
      exact ok.pmm.clear i inside clear

theorem alloc_other {Free : Nat → Prop} {s : Pmm} {i : Nat} (ok : s.Ok Free) (inside : i < s.totalFrames)
    (clear : s.bmTest i = false) (nonzero : i ≠ 0) :
    i ∈ handedOut s .allocFrame ∨
      (applyOp s .allocFrame).bmTest i = false ∧ (applyOp s .allocFrame).usedFrames = s.usedFrames + 1 := by
  rcases pmmAllocFrame_cases ok.hint with ⟨k, _, _, result⟩ | ⟨full, _⟩
  · by_cases same : i = k
    · left
      have phys : k * pageSize ≠ 0 := Nat.mul_ne_zero (same ▸ nonzero) (by decide)
      simp only [handedOut, result, framesAt, phys, if_false, Finset.mem_Ico]
      rw [Nat.mul_div_cancel k (show 0 < pageSize by decide)]
      omega
    · right
      have bit : (takeFrame s k).bmTest i = (decide (i = k) || s.bmTest i) := Pmm.bmTest_bmSet s k i
      simp only [applyOp, result]
      exact ⟨by rw [bit, clear, decide_eq_false same]; rfl, rfl⟩
  · rw [full i inside] at clear
    cases clear

theorem alloc_reaches {Free : Nat → Prop} {l : Ledger} {i : Nat} (ok : l.pmm.Ok Free) (inside : i < l.pmm.totalFrames)
    (clear : l.pmm.bmTest i = false) (nonzero : i ≠ 0) :
    ∃ ops l', Run LedgerStep l ops l' ∧ i ∈ handedOut l'.pmm .allocFrame := by
  by_contra never
  -- then the counter grows without end
  have grows : ∀ n, ∃ ops l', Run LedgerStep l ops l' ∧ l'.pmm.Ok Free ∧ l'.pmm.totalFrames = l.pmm.totalFrames ∧
      l'.pmm.bmTest i = false ∧ l'.pmm.usedFrames = l.pmm.usedFrames + n := by
    intro n
    induction n with
    | zero => exact ⟨[], l, Run.nil, ok, rfl, clear, rfl⟩
    | succ n ih =>
      obtain ⟨ops, l', run, ok', total, clear', used⟩ := ih
      rcases alloc_other ok' (by omega) clear' nonzero with handed | ⟨clear'', used'⟩
      · exact absurd ⟨ops, l', run, handed⟩ never
      · have taken : LedgerStep l' .allocFrame _ := ⟨Finset.empty_subset _, rfl⟩
        have none : ∀ j ∈ givenBack .allocFrame, Free j := nofun
        refine ⟨_, _, run.snoc taken, applyOp_ok ok' none, (applyOp_fields ok' _).trans total, clear'', ?_⟩
        dsimp only
        omega
  obtain ⟨_, l', _, ok', total, _, used⟩ := grows (l.pmm.totalFrames + 1)
  have bound : l'.pmm.setBits ≤ l'.pmm.totalFrames := Nat.count_le _
  have counted := ok'.counted
  omega

/-- The allocator's contract in every state of every history. -/
theorem pmm_histories (map : List MemmapEntry) (ok : MemmapOk map) (memory : Nat → UInt8) :
    ∃ s, pmmInit map memory = some s ∧
      ∀ ops l, Run LedgerStep ⟨s, ∅, ∅⟩ ops l →
        l.pmm.usedFrames = l.pmm.setBits ∧
        (∀ op, Disjoint (handedOut l.pmm op) l.live) ∧
        (∀ op, ∀ i ∈ handedOut l.pmm op, UsableFrame map i ∧ ¬ InBitmap s i) ∧
        ((pmmAllocFrame l.pmm).1 = 0 → ∀ i, i < l.pmm.totalFrames → l.pmm.bmTest i = true) := by
  obtain ⟨s, init, initial⟩ := pmmInit_ok ok memory
  refine ⟨s, init, fun ops l run => ?_⟩
  have inv : LedgerOk (Allocatable map s) l :=
    run.invariant (LedgerOk (Allocatable map s)) ⟨initial.ok, by simp, by simp⟩ fun _ _ _ before taken => ledger_step before taken
  refine ⟨inv.pmm.counted, fun op => ?_, fun op i member => ?_, fun failed => ?_⟩
  · rw [Finset.disjoint_left]
    intro i fresh held
    have clear := (handedOut_clear inv.pmm fresh).2.1
    simp [(inv.held i held).2] at clear
  · obtain ⟨inside, clear, _⟩ := handedOut_clear inv.pmm member
    exact inv.pmm.clear i inside clear
  · rcases pmmAllocFrame_cases inv.pmm.hint with ⟨i, inside, clear, result⟩ | ⟨full, _⟩
    · have nonzero := allocatable_ne_zero ok (inv.pmm.clear i inside clear)
      rw [result] at failed
      exact absurd failed (Nat.mul_ne_zero nonzero (by decide))
    · exact full

def smallMap : List MemmapEntry :=
  [⟨0, 4096, .reserved⟩, ⟨4096, 16384, .usable⟩]

theorem smallMap_ok : MemmapOk smallMap where
  addressable := by decide
  aligned := by decide
  disjoint := by simp [smallMap, MemmapEntry.Disjoint]
  zeroReserved := by decide
  room := by decide

theorem pmm_histories_smallMap :
    MemmapOk smallMap ∧ ∃ s, pmmInit smallMap (fun _ => 0) = some s ∧
      ∀ ops l, Run LedgerStep ⟨s, ∅, ∅⟩ ops l → l.pmm.usedFrames = l.pmm.setBits := by
  obtain ⟨s, init, holds⟩ := pmm_histories smallMap smallMap_ok (fun _ => 0)
  exact ⟨smallMap_ok, s, init, fun ops l run => (holds ops l run).1⟩

end RexOs.Mm
