import RexOs.Mm.Pmm

/-! What each allocator operation does to the bitmap, and the invariant that
ties the counter and the search hint to it.
-/

set_option autoImplicit false

namespace RexOs.Mm

open RexOs.Library

theorem bit_position_inj {i j : Nat} : (j >>> 3 = i >>> 3 ∧ j &&& 7 = i &&& 7) ↔ j = i := by
  have low (n : Nat) : n &&& 7 = n % 8 := Nat.and_two_pow_sub_one_eq_mod n 3
  simp only [Nat.shiftRight_eq_div_pow, low]
  omega

theorem bit_offset_lt (i : Nat) : i &&& 7 < 8 := Nat.lt_succ_of_le Nat.and_le_right

namespace Pmm

@[simp] theorem bmTest_bmSet (s : Pmm) (i j : Nat) :
    (s.bmSet i).bmTest j = (decide (j = i) || s.bmTest j) := by
  simp only [bmTest, bmSet]
  by_cases same : j >>> 3 = i >>> 3
  · rw [same, Function.update_self, byteTest_byteSet _ (bit_offset_lt j)]
    simp only [← bit_position_inj (i := i), same, true_and]
  · rw [Function.update_of_ne same]
    have : j ≠ i := fun eq => same (by rw [eq])
    simp [this]

@[simp] theorem bmTest_bmClear (s : Pmm) (i j : Nat) :
    (s.bmClear i).bmTest j = (!decide (j = i) && s.bmTest j) := by
  simp only [bmTest, bmClear]
  by_cases same : j >>> 3 = i >>> 3
  · rw [same, Function.update_self, byteTest_byteClear _ (bit_offset_lt j)]
    simp only [← bit_position_inj (i := i), same, true_and]
  · rw [Function.update_of_ne same]
    have : j ≠ i := fun eq => same (by rw [eq])
    simp [this]

@[simp] theorem bmSet_totalFrames (s : Pmm) (i : Nat) : (s.bmSet i).totalFrames = s.totalFrames := rfl
theorem setBits_set {s t : Pmm} {i : Nat} (total : t.totalFrames = s.totalFrames)
    (inside : i < s.totalFrames) (clear : s.bmTest i = false)
    (bits : ∀ j, t.bmTest j = (decide (j = i) || s.bmTest j)) : t.setBits = s.setBits + 1 := by
  simp only [setBits, total]
  exact count_set inside (by simp [clear]) (fun j => by simp [bits])

theorem setBits_clear {s t : Pmm} {i : Nat} (total : t.totalFrames = s.totalFrames)
    (inside : i < s.totalFrames) (set : s.bmTest i = true)
    (bits : ∀ j, t.bmTest j = (!decide (j = i) && s.bmTest j)) : t.setBits + 1 = s.setBits := by
  simp only [setBits, total]
  exact count_clear inside set (fun j => by simp [bits])

/-- The counter, the hint and the bits that are clear. `Free` bounds the frames
whose bit may be clear; no operation changes where the bitmap lies. -/
structure Ok (Free : Nat → Prop) (s : Pmm) : Prop where
  counted : s.usedFrames = s.setBits
  hint : s.searchHint ≤ s.totalFrames
  clear : ∀ i, i < s.totalFrames → s.bmTest i = false → Free i

end Pmm

theorem firstClear_some {s : Pmm} {lo n i : Nat} (found : firstClear s lo n = some i) :
    lo ≤ i ∧ i < lo + n ∧ s.bmTest i = false := by
  induction n generalizing lo with
  | zero => simp [firstClear] at found
  | succ n ih =>
    simp only [firstClear] at found
    split at found
    · obtain ⟨low, high, clear⟩ := ih found
      exact ⟨by omega, by omega, clear⟩
    · cases found
      exact ⟨le_refl _, by omega, by simp_all⟩

theorem firstClear_none {s : Pmm} {lo n : Nat} (found : firstClear s lo n = none) :
    ∀ i, lo ≤ i → i < lo + n → s.bmTest i = true := by
  induction n generalizing lo with
  | zero => intro i low high; omega
  | succ n ih =>
    simp only [firstClear] at found
    split at found
    · rename_i set
      intro i low high
      rcases Nat.eq_or_lt_of_le low with rfl | low
      · exact set
      · exact ih found i low (by omega)
    · cases found

theorem findRun_some {s : Pmm} {count i runStart runLen n start : Nat}
    (open_run : runLen ≠ 0 → runStart + runLen = i ∧ ∀ j, runStart ≤ j → j < i → s.bmTest j = false)
    (found : findRun s count i runStart runLen n = some start) :
    start + count ≤ i + n ∧ ∀ j, start ≤ j → j < start + count → s.bmTest j = false := by
  induction n generalizing i runStart runLen with
  | zero => simp [findRun] at found
  | succ n ih =>
    simp only [findRun] at found
    split at found
    · obtain ⟨bound, clear⟩ := ih (by simp) found
      exact ⟨by omega, clear⟩
    · rename_i clearHere
      -- the run as it stands after frame `i`, whether it started here or before
      have extended : (if runLen = 0 then i else runStart) + (runLen + 1) = i + 1 ∧
          ∀ j, (if runLen = 0 then i else runStart) ≤ j → j < i + 1 → s.bmTest j = false := by
        by_cases fresh : runLen = 0
        · rw [if_pos fresh]
          refine ⟨by omega, fun j low high => ?_⟩
          have : j = i := by omega
          subst this
          simpa using clearHere
        · obtain ⟨sum, clear⟩ := open_run fresh
          rw [if_neg fresh]
          refine ⟨by omega, fun j low high => ?_⟩
          rcases Nat.lt_or_ge j i with below | above
          · exact clear j low below
          · have : j = i := by omega
            subst this
            simpa using clearHere
      split at found
      · rename_i full
        cases found
        refine ⟨by omega, fun j low high => extended.2 j low (by omega)⟩
      · obtain ⟨bound, clear⟩ := ih (fun _ => extended) found
        exact ⟨by omega, clear⟩

theorem setRun_fields (s : Pmm) (start k : Nat) :
    (setRun s start k).totalFrames = s.totalFrames ∧ (setRun s start k).bitmapPhys = s.bitmapPhys ∧
      (setRun s start k).bitmapSize = s.bitmapSize := by
  induction k with
  | zero => exact ⟨rfl, rfl, rfl⟩
  | succ k ih => exact ih

theorem setRun_bmTest (s : Pmm) (start k j : Nat) :
    (setRun s start k).bmTest j = (decide (start ≤ j ∧ j < start + k) || s.bmTest j) := by
  induction k with
  | zero => simp [setRun]
  | succ k ih =>
    simp only [setRun, Pmm.bmTest_bmSet, ih]
    rw [← Bool.or_assoc]
    congr 1
    rw [← Bool.decide_or]
    congr 1
    apply propext
    omega

theorem setRun_setBits (s : Pmm) (start k : Nat) (inside : start + k ≤ s.totalFrames)
    (clear : ∀ j, start ≤ j → j < start + k → s.bmTest j = false) :
    (setRun s start k).setBits = s.setBits + k := by
  induction k with
  | zero => rfl
  | succ k ih =>
    have before := ih (by omega) (fun j low high => clear j low (by omega))
    have stillClear : (setRun s start k).bmTest (start + k) = false := by
      rw [setRun_bmTest, clear (start + k) (by omega) (by omega)]
      simp
    have raised := Pmm.setBits_set (s := setRun s start k) (t := setRun s start (k + 1))
      rfl (by rw [(setRun_fields s start k).1]; omega) stillClear (Pmm.bmTest_bmSet _ _)
    omega

section
variable {Free : Nat → Prop} {s : Pmm}

theorem takeFrame_ok {i : Nat} (ok : s.Ok Free) (inside : i < s.totalFrames) (clear : s.bmTest i = false) :
    (takeFrame s i).Ok Free := by
  have bits : ∀ j, (takeFrame s i).bmTest j = (decide (j = i) || s.bmTest j) := Pmm.bmTest_bmSet s i
  refine ⟨?_, ?_, ?_⟩
  · have raised := Pmm.setBits_set (s := s) (t := takeFrame s i) rfl inside clear bits
    rw [← ok.counted] at raised
    exact raised.symm
  · exact inside
  · intro j below test
    rw [bits] at test
    simp only [Bool.or_eq_false_iff] at test
    exact ok.clear j below test.2

theorem pmmAllocFrame_cases (hint : s.searchHint ≤ s.totalFrames) :
    (∃ i, i < s.totalFrames ∧ s.bmTest i = false ∧ pmmAllocFrame s = (i * pageSize, takeFrame s i)) ∨
    ((∀ i, i < s.totalFrames → s.bmTest i = true) ∧ pmmAllocFrame s = (0, s)) := by
  unfold pmmAllocFrame
  cases upper : firstClear s s.searchHint (s.totalFrames - s.searchHint) with
  | some i =>
    obtain ⟨_, high, clear⟩ := firstClear_some upper
    exact Or.inl ⟨i, by omega, clear, rfl⟩
  | none =>
    cases lower : firstClear s 0 s.searchHint with
    | some i =>
      obtain ⟨_, high, clear⟩ := firstClear_some lower
      exact Or.inl ⟨i, by omega, clear, rfl⟩
    | none =>
      refine Or.inr ⟨fun i below => ?_, rfl⟩
      rcases Nat.lt_or_ge i s.searchHint with early | late
      · exact firstClear_none lower i (by omega) (by omega)
      · exact firstClear_none upper i late (by omega)

theorem pmmAllocFrames_cases (ok : s.Ok Free) (count : Nat) :
    (∃ start, start + count ≤ s.totalFrames ∧
      (∀ j, start ≤ j → j < start + count → s.bmTest j = false) ∧
      (pmmAllocFrames s count).1 = start * pageSize ∧ (pmmAllocFrames s count).2.Ok Free ∧
      (∀ j, (pmmAllocFrames s count).2.bmTest j =
        (decide (start ≤ j ∧ j < start + count) || s.bmTest j))) ∨
    pmmAllocFrames s count = (0, s) := by
  unfold pmmAllocFrames
  by_cases none : count = 0
  · simp [none]
  by_cases one : count = 1
  · subst one
    simp only [one_ne_zero, if_false, if_true]
    rcases pmmAllocFrame_cases ok.hint with ⟨i, inside, clear, result⟩ | ⟨_, result⟩
    · rw [result]
      refine Or.inl ⟨i, inside, fun j low high => ?_, rfl, takeFrame_ok ok inside clear, fun j => ?_⟩
      · obtain rfl : j = i := by omega
        exact clear
      · rw [show (takeFrame s i).bmTest j = _ from Pmm.bmTest_bmSet s i j]
        congr 2
        apply propext
        omega
    · exact Or.inr result
  simp only [none, one, if_false]
  cases search : findRun s count 0 0 0 s.totalFrames with
  | none => exact Or.inr rfl
  | some start =>
    obtain ⟨bound, clear⟩ := findRun_some (by simp) search
    have bits := setRun_bmTest s start count
    refine Or.inl ⟨start, by omega, clear, rfl, ⟨?_, ?_, ?_⟩, bits⟩
    · have raised := setRun_setBits s start count (by omega) clear
      rw [← ok.counted] at raised
      exact raised.symm
    · show start + count ≤ (setRun s start count).totalFrames
      rw [(setRun_fields s start count).1]
      omega
    · intro j below test
      have test := (bits j).symm.trans test
      simp only [Bool.or_eq_false_iff] at test
      exact ok.clear j ((setRun_fields s start count).1 ▸ below) test.2

theorem pmmFreeFrame_bmTest (s : Pmm) (phys j : Nat) (below : j < s.totalFrames) :
    (pmmFreeFrame s phys).bmTest j = (!decide (j = phys / pageSize) && s.bmTest j) := by
  unfold pmmFreeFrame
  by_cases past : phys / pageSize ≥ s.totalFrames
  · simp only [past, if_true]
    have : j ≠ phys / pageSize := by omega
    simp [this]
  by_cases set : s.bmTest (phys / pageSize) = true
  · simp only [past, set, Bool.not_true, Bool.false_eq_true, if_false]
    exact Pmm.bmTest_bmClear s (phys / pageSize) j
  · simp only [past, set, Bool.not_false, if_true, if_false]
    by_cases here : j = phys / pageSize
    · simpa [here] using set
    · simp [here]

theorem pmmFreeFrame_fields (s : Pmm) (phys : Nat) :
    (pmmFreeFrame s phys).totalFrames = s.totalFrames ∧
      (pmmFreeFrame s phys).bitmapPhys = s.bitmapPhys ∧
      (pmmFreeFrame s phys).bitmapSize = s.bitmapSize := by
  unfold pmmFreeFrame
  dsimp only
  split
  · exact ⟨rfl, rfl, rfl⟩
  · split <;> exact ⟨rfl, rfl, rfl⟩

theorem pmmFreeFrame_ok {phys : Nat} (ok : s.Ok Free) (own : Free (phys / pageSize)) :
    (pmmFreeFrame s phys).Ok Free := by
  have clear : ∀ j, j < (pmmFreeFrame s phys).totalFrames →
      (pmmFreeFrame s phys).bmTest j = false → Free j := by
    intro j below test
    rw [(pmmFreeFrame_fields s phys).1] at below
    rw [pmmFreeFrame_bmTest s phys j below] at test
    by_cases here : j = phys / pageSize
    · exact here ▸ own
    · exact ok.clear j below (by simpa [here] using test)
  refine ⟨?_, ?_, clear⟩ <;> unfold pmmFreeFrame <;> dsimp only
  · split
    · exact ok.counted
    · split
      · exact ok.counted
      · rename_i inside set
        have lowered := Pmm.setBits_clear (s := s) (t := s.bmClear (phys / pageSize)) rfl
          (by omega) (by simpa using set) (Pmm.bmTest_bmClear s _)
        rw [← ok.counted] at lowered
        show s.usedFrames - 1 = (s.bmClear (phys / pageSize)).setBits
        omega
  · have := ok.hint
    split
    · exact this
    · split
      · exact this
      · dsimp only [Pmm.bmClear]
        split <;> omega

theorem pmmFreeFrames_fields (s : Pmm) (phys count : Nat) :
    (pmmFreeFrames s phys count).totalFrames = s.totalFrames := by
  induction count with
  | zero => rfl
  | succ count ih => exact (pmmFreeFrame_fields _ _).1.trans ih

theorem pmmFreeFrames_bmTest (s : Pmm) (phys count j : Nat) (below : j < s.totalFrames)
    (kept : ∀ k, k < count → j ≠ (phys + k * pageSize) / pageSize) :
    (pmmFreeFrames s phys count).bmTest j = s.bmTest j := by
  induction count with
  | zero => rfl
  | succ count ih =>
    have apart := kept count (by omega)
    simp only [pmmFreeFrames]
    rw [pmmFreeFrame_bmTest _ _ _ (by rwa [pmmFreeFrames_fields]),
      ih (fun k small => kept k (by omega))]
    simp [apart]

theorem pmmFreeFrames_ok {phys count : Nat} (ok : s.Ok Free)
    (own : ∀ k, k < count → Free ((phys + k * pageSize) / pageSize)) :
    (pmmFreeFrames s phys count).Ok Free := by
  induction count with
  | zero => exact ok
  | succ count ih =>
    exact pmmFreeFrame_ok (ih fun k small => own k (by omega)) (own count (by omega))

end

namespace Pmm

/-- The frames `[f, f + count)` are frames of the bitmap, and free. -/
def FreeRun (s : Pmm) (count f : Nat) : Prop :=
  f + count ≤ s.totalFrames ∧ ∀ j, f ≤ j → j < f + count → s.bmTest j = false

/-- The loop before frame `i`: the open run is the longest that ends there, and no run that ended
earlier is long enough. -/
structure Scan (s : Pmm) (count i runStart runLen : Nat) : Prop where
  short : runLen < count
  start : runLen ≠ 0 → runStart + runLen = i
  longest : ∀ g, (∀ j, g ≤ j → j < i → s.bmTest j = false) → i ≤ g + runLen
  earlier : ∀ g, g + count ≤ i → ¬∀ j, g ≤ j → j < g + count → s.bmTest j = false

variable {s : Pmm} {count i runStart runLen : Nat}

theorem Scan.first (some : 0 < count) : Scan s count 0 0 0 :=
  ⟨some, by simp, fun g _ => by omega, fun g ended => by omega⟩

theorem Scan.used (scan : Scan s count i runStart runLen) (test : s.bmTest i = true) :
    Scan s count (i + 1) runStart 0 := by
  have blocked : ∀ g, (∀ j, g ≤ j → j < i + 1 → s.bmTest j = false) → i + 1 ≤ g := by
    intro g clear
    by_contra inside
    have := clear i (by omega) (by omega)
    simp [test] at this
  refine ⟨by have := scan.short; omega, by simp, blocked, fun g ended clear => ?_⟩
  rcases Nat.lt_or_ge i (g + count) with last | before
  · have := blocked g fun j low high => clear j low (by omega)
    have := scan.short
    omega
  · exact scan.earlier g before clear

theorem Scan.free (scan : Scan s count i runStart runLen) (more : runLen + 1 ≠ count) :
    Scan s count (i + 1) (if runLen = 0 then i else runStart) (runLen + 1) := by
  have short := scan.short
  have longest : ∀ g, (∀ j, g ≤ j → j < i + 1 → s.bmTest j = false) → i + 1 ≤ g + (runLen + 1) := by
    intro g clear
    have := scan.longest g fun j low high => clear j low (by omega)
    omega
  refine ⟨by omega, fun _ => ?_, longest, fun g ended clear => ?_⟩
  · split
    · omega
    · rename_i opened
      have := scan.start opened
      omega
  · rcases Nat.lt_or_ge i (g + count) with last | before
    · have := longest g fun j low high => clear j low (by omega)
      omega
    · exact scan.earlier g before clear

end Pmm

theorem findRun_lowest {s : Pmm} {count i runStart runLen n : Nat} (scan : s.Scan count i runStart runLen) :
    (∀ start, findRun s count i runStart runLen n = some start →
      ∀ g, g < start → ¬∀ j, g ≤ j → j < g + count → s.bmTest j = false) ∧
    (findRun s count i runStart runLen n = none →
      ∀ g, g + count ≤ i + n → ¬∀ j, g ≤ j → j < g + count → s.bmTest j = false) := by
  induction n generalizing i runStart runLen with
  | zero =>
    refine ⟨fun start found => ?_, fun _ => scan.earlier⟩
    simp [findRun] at found
  | succ n ih =>
    rw [findRun, show i + (n + 1) = i + 1 + n by omega]
    split
    · rename_i test
      exact ih (scan.used test)
    · dsimp only
      by_cases full : runLen + 1 = count
      · rw [if_pos full]
        refine ⟨fun start found g below => ?_, fun none => by simp at none⟩
        cases found
        refine scan.earlier g ?_
        split at below
        · omega
        · rename_i opened
          have := scan.start opened
          omega
      · rw [if_neg full]
        exact ih (scan.free full)

/-- `pmm_alloc_frames` takes the lowest run of free frames, and exactly its frames; without such a
run it changes nothing. -/
theorem pmmAllocFrames_first (s : Pmm) {count : Nat} (reserved : s.bmTest 0 = true) (many : 2 ≤ count) :
    (∃ f, s.FreeRun count f ∧ (∀ g, g < f → ¬s.FreeRun count g) ∧
      (pmmAllocFrames s count).1 = f * pageSize ∧ (pmmAllocFrames s count).1 ≠ 0 ∧
      (∀ j, (pmmAllocFrames s count).2.bmTest j = (decide (f ≤ j ∧ j < f + count) || s.bmTest j)) ∧
      (pmmAllocFrames s count).2.usedFrames = s.usedFrames + count ∧
      (pmmAllocFrames s count).2.totalFrames = s.totalFrames) ∨
    (∀ f, ¬s.FreeRun count f) ∧ pmmAllocFrames s count = (0, s) := by
  have lowest := findRun_lowest (n := s.totalFrames) (Pmm.Scan.first (s := s) (by omega : 0 < count))
  rw [pmmAllocFrames, if_neg (by omega), if_neg (by omega)]
  cases search : findRun s count 0 0 0 s.totalFrames with
  | none =>
    refine Or.inr ⟨fun f run => ?_, rfl⟩
    exact lowest.2 search f (by have := run.1; omega) run.2
  | some start =>
    obtain ⟨bound, clear⟩ := findRun_some (by simp) search
    have positive : start ≠ 0 := by
      rintro rfl
      have := clear 0 (by omega) (by omega)
      simp [reserved] at this
    refine Or.inl ⟨start, ⟨by omega, clear⟩, fun g below run => lowest.1 start search g below run.2, rfl, ?_,
      setRun_bmTest s start count, rfl, (setRun_fields s start count).1⟩
    exact Nat.mul_ne_zero positive (by decide)

/-- Frames 1 and 2 of four, where frames 0 and 3 are used. -/
theorem pmmAllocFrames_first_middle :
    let s : Pmm := ⟨fun i => if i = 0 then 9 else 0, 0, 1, 4, 2, 0⟩
    (pmmAllocFrames s 2).1 = pageSize ∧ (pmmAllocFrames s 2).2.usedFrames = 4 := by
  intro s
  rcases @pmmAllocFrames_first s 2 (by decide) (by decide) with
    ⟨f, run, -, address, -, -, used, -⟩ | ⟨none, -⟩
  · have inside := run.1
    have below : f ≤ 2 := by simpa [s] using inside
    have first : f = 1 := by
      have zero : f ≠ 0 := by
        rintro rfl
        exact absurd (run.2 0 (by decide) (by decide)) (by decide)
      have two : f ≠ 2 := by
        rintro rfl
        exact absurd (run.2 3 (by decide) (by decide)) (by decide)
      omega
    rw [address, used, first]
    exact ⟨rfl, rfl⟩
  · refine absurd ⟨by decide, fun j low high => ?_⟩ (none 1)
    have : j = 1 ∨ j = 2 := by omega
    rcases this with rfl | rfl <;> decide

end RexOs.Mm
