import RexOs.Library.Calendar
import RexOs.Library.CInt
import Mathlib.Tactic.IntervalCases

/-! The number of a day: `days_from_civil` of `user/newlib-glue/syscalls.c`, and its copies in
`user/tls.c` and `user/netsurf/fetch_rexos.c`.

The year starts with March, so that the leap day is the last one, and 400 years are an era.
-/

set_option autoImplicit false

namespace RexOs.User.Dates

open RexOs.Library

/-- The `int64_t` with the same last 64 bits. -/
def wrapInt64 (x : Int) : Int := Int.bmod x (2 ^ 64)

def unsigned (x : Int) : Int := x % 2 ^ 32

def Int64Fits (x : Int) : Prop := -2 ^ 63 ≤ x ∧ x < 2 ^ 63

instance (x : Int) : Decidable (Int64Fits x) := inferInstanceAs (Decidable (_ ∧ _))

def daysFromCivil (y : Int) (m d : Nat) : Int :=
  let y := wrapInt64 (y - if m ≤ 2 then 1 else 0)
  let era := (if 0 ≤ y then y else wrapInt64 (y - 399)).tdiv 400
  let yoe := unsigned (y - era * 400)
  let doy := unsigned (unsigned (153 * (m + if 2 < m then -3 else 9) + 2) / 5 + d - 1)
  let doe := unsigned (yoe * 365 + yoe / 4 - yoe / 100 + doy)
  wrapInt64 (era * 146097 + doe - 719468)

structure RtcTime where
  second : UInt8
  minute : UInt8
  hour : UInt8
  day : UInt8
  month : UInt8
  year : UInt32
  deriving DecidableEq, Repr

def Accepts (t : RtcTime) : Prop :=
  ¬ (wrapInt t.year.toNat < 2024 ∨ wrapInt t.year.toNat > 2100 ∨ t.month.toNat < 1 ∨ t.month.toNat > 12 ∨ t.day.toNat < 1 ∨
    t.day.toNat > 31)

instance (t : RtcTime) : Decidable (Accepts t) := inferInstanceAs (Decidable (¬ _))

def bearsslDays (y : Int) (m d : Nat) : Int :=
  let adjY := y - if m ≤ 2 then 1 else 0
  let era := (if 0 ≤ adjY then adjY else adjY - 399).tdiv 400
  let yoe := adjY - era * 400
  let doy := (153 * ((m : Int) + if 2 < m then -3 else 9) + 2).tdiv 5 + d - 1
  let doe := yoe * 365 + yoe.tdiv 4 - yoe.tdiv 100 + doy
  let unixDays := era * 146097 + doe - 719468
  unsigned (unixDays + 719528)

/-- The days and the seconds that `br_x509_minimal_set_time` is given. When the clock is not set, they are those of
midnight on a fixed date. -/
def setTime (year : Int) (month day : Nat) (t : RtcTime) : Int × Int :=
  if Accepts t then
    (bearsslDays (wrapInt t.year.toNat) t.month.toNat t.day.toNat,
      unsigned (t.hour.toNat * 3600 + t.minute.toNat * 60 + t.second.toNat))
  else (bearsslDays year month day, 0)

def tlsSetValidationTime (t : RtcTime) : Int × Int := setTime 2025 6 1 t

def tlsSetTime (t : RtcTime) : Int × Int := setTime 2026 1 1 t

/-- The days from 1970-01-01, with the years counted from March. -/
def civil (y : Int) (m d : Nat) : Int :=
  let y := y - if m ≤ 2 then 1 else 0
  365 * y + y / 4 - y / 100 + y / 400 + ((153 * (m + if 2 < m then -3 else 9) + 2) / 5 + d - 1) - 719468

section
variable {y : Int} {m d : Nat}

theorem wrapInt64_of_fits {x : Int} (fits : Int64Fits x) : wrapInt64 x = x := by
  obtain ⟨low, high⟩ := fits
  unfold wrapInt64
  rw [Int.bmod_def]
  split <;> omega

theorem wrapInt64_fits (x : Int) : Int64Fits (wrapInt64 x) := ⟨Int.le_bmod (by decide), Int.bmod_lt (by decide)⟩

theorem unsigned_of_small {x : Int} (low : 0 ≤ x) (high : x < 2 ^ 32) : unsigned x = x := Int.emod_eq_of_lt low high

theorem era_eq (y : Int) : (if 0 ≤ y then y else y - 399).tdiv 400 = y / 400 := by
  split
  · rename_i positive
    rw [Int.tdiv_eq_ediv_of_nonneg positive]
  · rw [Int.tdiv_eq_ediv]
    split
    · omega
    · have sign : Int.sign 400 = 1 := rfl
      omega

theorem eras_eq (y : Int) :
    y / 400 * 146097 + ((y - y / 400 * 400) * 365 + (y - y / 400 * 400) / 4 - (y - y / 400 * 400) / 100) =
      365 * y + y / 4 - y / 100 + y / 400 := by
  omega

theorem doy_bounds (low : 1 ≤ m) (high : m ≤ 12) :
    0 ≤ ((153 * ((m : Int) + if 2 < m then -3 else 9) + 2) / 5) ∧ ((153 * ((m : Int) + if 2 < m then -3 else 9) + 2) / 5) ≤ 337 := by
  split <;> omega

theorem daysFromCivil_eq (low : 1 ≤ m) (high : m ≤ 12) (first : 1 ≤ d) (last : d ≤ 31) (lowY : -2 ^ 62 ≤ y) (highY : y < 2 ^ 62) :
    daysFromCivil y m d = wrapInt64 (civil y m d) := by
  have days := doy_bounds low high
  unfold daysFromCivil civil
  dsimp only
  generalize adjusted : y - (if m ≤ 2 then 1 else 0) = Y
  have bounds : -2 ^ 62 - 1 ≤ Y ∧ Y < 2 ^ 62 := by
    rw [← adjusted]
    split <;> omega
  have year : wrapInt64 Y = Y := wrapInt64_of_fits ⟨by omega, by omega⟩
  have back : wrapInt64 (Y - 399) = Y - 399 := wrapInt64_of_fits ⟨by omega, by omega⟩
  have month : unsigned (153 * ((m : Int) + if 2 < m then -3 else 9) + 2) = 153 * (m + if 2 < m then -3 else 9) + 2 := by
    apply unsigned_of_small <;> split <;> omega
  have yoe : unsigned (Y - Y / 400 * 400) = Y - Y / 400 * 400 := unsigned_of_small (by omega) (by omega)
  rw [year, back, era_eq, yoe, month]
  generalize (153 * ((m : Int) + if 2 < m then -3 else 9) + 2) / 5 = before at days ⊢
  have eras := eras_eq Y
  have doy : unsigned (before + d - 1) = before + d - 1 := unsigned_of_small (by omega) (by omega)
  have doe : unsigned ((Y - Y / 400 * 400) * 365 + (Y - Y / 400 * 400) / 4 - (Y - Y / 400 * 400) / 100 + (before + d - 1)) =
      (Y - Y / 400 * 400) * 365 + (Y - Y / 400 * 400) / 4 - (Y - Y / 400 * 400) / 100 + (before + d - 1) :=
    unsigned_of_small (by omega) (by omega)
  rw [doy, doe]
  congr 1
  omega

theorem bearsslDays_eq (low : 1 ≤ m) (high : m ≤ 12) (first : 1 ≤ d) (last : d ≤ 31) (lowY : 2024 ≤ y) (highY : y ≤ 2100) :
    bearsslDays y m d = civil y m d + 719528 := by
  have days := doy_bounds low high
  have positive : 0 ≤ 153 * ((m : Int) + if 2 < m then -3 else 9) + 2 := by split <;> omega
  unfold bearsslDays civil
  dsimp only
  generalize adjusted : y - (if m ≤ 2 then 1 else 0) = Y
  have bounds : 2023 ≤ Y ∧ Y ≤ 2100 := by
    rw [← adjusted]
    split <;> omega
  rw [era_eq, Int.tdiv_eq_ediv_of_nonneg positive, Int.tdiv_eq_ediv_of_nonneg (by omega : 0 ≤ Y - Y / 400 * 400),
    Int.tdiv_eq_ediv_of_nonneg (by omega : 0 ≤ Y - Y / 400 * 400)]
  generalize (153 * ((m : Int) + if 2 < m then -3 else 9) + 2) / 5 = before at days ⊢
  have eras := eras_eq Y
  rw [unsigned_of_small (by omega) (by omega)]
  omega

theorem civil_early (early : m ≤ 2) : civil y m d =
    365 * (y - 1) + (y - 1) / 4 - (y - 1) / 100 + (y - 1) / 400 + ((153 * (m + 9) + 2) / 5 + d - 1) - 719468 := by
  unfold civil
  rw [if_pos early, if_neg (Nat.not_lt.mpr early)]

theorem civil_late (late : 2 < m) : civil y m d =
    365 * y + y / 4 - y / 100 + y / 400 + ((153 * (m - 3) + 2) / 5 + d - 1) - 719468 := by
  unfold civil
  rw [if_neg (Nat.not_le.mpr late), if_pos late, Int.sub_zero]
  rfl

theorem civil_day (y : Int) (m d : Nat) : civil y m (d + 1) = civil y m d + 1 := by
  rcases Nat.lt_or_ge 2 m with late | early
  · rw [civil_late late, civil_late late]
    omega
  · rw [civil_early early, civil_early early]
    omega

theorem civil_month_late (y : Int) (late : 2 < m) (more : m < 12) : civil y (m + 1) 1 = civil y m (daysInMonth y m) + 1 := by
  have length : (153 * ((m : Int) + 1 - 3) + 2) / 5 = (153 * (m - 3) + 2) / 5 + daysInMonth y m := by
    unfold daysInMonth
    interval_cases m <;> rfl
  rw [civil_late (by omega), civil_late late, Nat.cast_add, Nat.cast_one, length]
  omega

theorem civil_month (y : Int) (low : 1 ≤ m) (more : m < 12) : civil y (m + 1) 1 = civil y m (daysInMonth y m) + 1 := by
  rcases Nat.lt_or_ge 2 m with late | early
  · exact civil_month_late y late more
  rcases (by omega : m = 1 ∨ m = 2) with rfl | rfl
  · have january : daysInMonth y 1 = 31 := rfl
    rw [civil_early (by decide), civil_early (by decide), january]
    omega
  · have february : daysInMonth y 2 = if IsLeap y then 29 else 28 := rfl
    rw [civil_late (by decide), civil_early (by decide), february]
    by_cases leap : IsLeap y
    · rw [if_pos leap]
      unfold IsLeap at leap
      omega
    · rw [if_neg leap]
      unfold IsLeap at leap
      omega

theorem civil_year (y : Int) : civil (y + 1) 1 1 = civil y 12 (daysInMonth y 12) + 1 := by
  have december : daysInMonth y 12 = 31 := rfl
  rw [civil_early (by decide), civil_late (by decide), december]
  omega

theorem civil_next (date : Date) : civil date.next.year date.next.month date.next.day = civil date.year date.month date.day + 1 := by
  rcases Nat.lt_or_eq_of_le date.valid.day_le with inside | last
  · obtain ⟨year, month, day⟩ := Date.next_inside date inside
    rw [year, month, day, civil_day]
  rcases Nat.lt_or_eq_of_le date.valid.month_le with more | december
  · rw [Date.next_month last more, last]
    exact civil_month date.year date.valid.month_pos more
  · rw [Date.next_year last december, last, december]
    exact civil_year date.year

end

theorem epoch_valid : ValidDate 1970 1 1 := by decide

def epoch : Date := ⟨1970, 1, 1, epoch_valid⟩

section
variable {date : Date} {t : RtcTime}

theorem daysFrom_epoch (date : Date) (days : Int) : DaysFrom epoch date days ↔ civil date.year date.month date.day = days :=
  daysFrom_iff (fun date => civil date.year date.month date.day) civil_next days (by decide)

theorem day_le (date : Date) : date.day ≤ 31 := by
  refine Nat.le_trans date.valid.day_le ?_
  unfold daysInMonth
  split
  · split <;> decide
  · split <;> decide

theorem daysFromCivil_of_fits (fits : Int64Fits (civil date.year date.month date.day)) :
    daysFromCivil date.year date.month date.day = civil date.year date.month date.day := by
  have low := date.valid.month_pos
  have high := date.valid.month_le
  have first := date.valid.day_pos
  have last := day_le date
  have bounds : -2 ^ 62 ≤ date.year ∧ date.year < 2 ^ 62 := by
    have before := doy_bounds low high
    obtain ⟨least, most⟩ := fits
    unfold civil at least most
    dsimp only at least most
    generalize (153 * ((date.month : Int) + if 2 < date.month then -3 else 9) + 2) / 5 = doy at before least most
    generalize adjusted : date.year - (if date.month ≤ 2 then 1 else 0) = y at least most
    have years : date.year - 1 ≤ y ∧ y ≤ date.year := by
      rw [← adjusted]
      split <;> omega
    omega
  rw [daysFromCivil_eq low high first last bounds.1 bounds.2, wrapInt64_of_fits fits]

theorem daysFromCivil_iff (date : Date) : daysFromCivil date.year date.month date.day = civil date.year date.month date.day ↔
    Int64Fits (civil date.year date.month date.day) :=
  ⟨fun same => same ▸ wrapInt64_fits _, daysFromCivil_of_fits⟩

theorem setTime_days (accepts : Accepts t) (year : Int) (month day : Nat) :
    (setTime year month day t).1 = daysFromCivil t.year.toNat t.month.toNat t.day.toNat + 719528 := by
  have size := t.year.toNat_lt
  have whole : wrapInt t.year.toNat = t.year.toNat := by
    unfold Accepts at accepts
    unfold wrapInt at accepts ⊢
    rw [Int.bmod_def] at accepts ⊢
    split at accepts
    · rename_i small
      rw [if_pos small]
      omega
    · omega
  rw [setTime, if_pos accepts]
  unfold Accepts at accepts
  rw [whole] at accepts ⊢
  show bearsslDays t.year.toNat t.month.toNat t.day.toNat = _
  rw [bearsslDays_eq (by omega) (by omega) (by omega) (by omega) (by omega) (by omega),
    daysFromCivil_eq (by omega) (by omega) (by omega) (by omega) (by omega) (by omega), wrapInt64_of_fits]
  have before := doy_bounds (m := t.month.toNat) (by omega) (by omega)
  unfold civil
  dsimp only
  generalize (153 * ((t.month.toNat : Int) + if 2 < t.month.toNat then -3 else 9) + 2) / 5 = doy at before ⊢
  constructor <;> split <;> omega

end

/-- For each date there is one number of days from the epoch, and it is what is computed if and only if it is an `int64_t`.
It grows by one from each date to the next, and the copies give it, counted from the year zero, on the dates that they
accept. -/
theorem daysFromCivil_counts (date : Date) :
    ∃ days, (∀ n, DaysFrom epoch date n ↔ n = days) ∧
      (daysFromCivil date.year date.month date.day = days ↔ Int64Fits days) ∧
      daysFromCivil 1970 1 1 = 0 ∧
      (Int64Fits days → Int64Fits (days + 1) →
        daysFromCivil date.next.year date.next.month date.next.day = daysFromCivil date.year date.month date.day + 1) ∧
      ∀ t, Accepts t → (tlsSetValidationTime t).1 = daysFromCivil t.year.toNat t.month.toNat t.day.toNat + 719528 ∧
        (tlsSetTime t).1 = daysFromCivil t.year.toNat t.month.toNat t.day.toNat + 719528 := by
  refine ⟨civil date.year date.month date.day, fun n => ?_, daysFromCivil_iff date, by decide +kernel, fun fits fits' => ?_,
    fun t accepts => ⟨setTime_days accepts _ _ _, setTime_days accepts _ _ _⟩⟩
  · rw [daysFrom_epoch]
    exact eq_comm
  · rw [← civil_next] at fits'
    rw [daysFromCivil_of_fits fits, daysFromCivil_of_fits fits', civil_next]

/-- New Year's Day of the year 2^60 is so far away that the number of days is no `int64_t`. -/
theorem daysFromCivil_far : Int64Fits (2 ^ 60) ∧ ValidDate (2 ^ 60) 1 1 ∧
    ¬ DaysFrom epoch (Date.first (2 ^ 60) 1 (by decide) (by decide)) (daysFromCivil (2 ^ 60) 1 1) := by
  rw [daysFrom_epoch]
  decide +kernel

end RexOs.User.Dates
