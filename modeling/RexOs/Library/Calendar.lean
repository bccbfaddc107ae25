import Mathlib.Order.SuccPred.IntervalSucc
import Mathlib.Algebra.Order.Ring.Int

/-! The proleptic Gregorian calendar.

A date carries the proof that there is such a day. `next` is the day after, and the number of
days between two dates is counted with it. A function that grows by one from each date to the
next is the count from the date where it is zero.
-/

set_option autoImplicit false

namespace RexOs.Library

def IsLeap (year : Int) : Prop := year % 4 = 0 ∧ (year % 100 ≠ 0 ∨ year % 400 = 0)

instance (year : Int) : Decidable (IsLeap year) := inferInstanceAs (Decidable (_ ∧ _))

def daysInMonth (year : Int) (month : Nat) : Nat :=
  if month = 2 then if IsLeap year then 29 else 28
  else if month = 4 ∨ month = 6 ∨ month = 9 ∨ month = 11 then 30
  else 31

structure ValidDate (year : Int) (month day : Nat) : Prop where
  month_pos : 1 ≤ month
  month_le : month ≤ 12
  day_pos : 1 ≤ day
  day_le : day ≤ daysInMonth year month

instance (year : Int) (month day : Nat) : Decidable (ValidDate year month day) :=
  decidable_of_iff (1 ≤ month ∧ month ≤ 12 ∧ 1 ≤ day ∧ day ≤ daysInMonth year month)
    ⟨fun h => ⟨h.1, h.2.1, h.2.2.1, h.2.2.2⟩, fun h => ⟨h.month_pos, h.month_le, h.day_pos, h.day_le⟩⟩

@[ext] structure Date where
  year : Int
  month : Nat
  day : Nat
  valid : ValidDate year month day
  deriving DecidableEq

theorem daysInMonth_pos (year : Int) (month : Nat) : 1 ≤ daysInMonth year month := by
  unfold daysInMonth
  split
  · split <;> decide
  · split <;> decide

def Date.first (year : Int) (month : Nat) (pos : 1 ≤ month) (le : month ≤ 12) : Date :=
  ⟨year, month, 1, pos, le, Nat.le_refl 1, daysInMonth_pos year month⟩

def Date.next (date : Date) : Date :=
  if inside : date.day < daysInMonth date.year date.month then
    ⟨date.year, date.month, date.day + 1, date.valid.month_pos, date.valid.month_le, Nat.le_add_left 1 _, inside⟩
  else if more : date.month < 12 then Date.first date.year (date.month + 1) (Nat.le_add_left 1 _) more
  else Date.first (date.year + 1) 1 (Nat.le_refl 1) (by decide)

/-- `date` is `days` days after `start`, or before it when that is negative. -/
def DaysFrom (start date : Date) (days : Int) : Prop :=
  ∃ n : Nat, days = n ∧ Date.next^[n] start = date ∨ days = -n ∧ Date.next^[n] date = start

section
variable {date start : Date} {year : Int} {month day : Nat}

theorem Date.next_inside (date : Date) (inside : date.day < daysInMonth date.year date.month) :
    date.next.year = date.year ∧ date.next.month = date.month ∧ date.next.day = date.day + 1 := by
  unfold Date.next
  rw [dif_pos inside]
  exact ⟨rfl, rfl, rfl⟩

theorem Date.next_month (last : date.day = daysInMonth date.year date.month) (more : date.month < 12) :
    date.next = Date.first date.year (date.month + 1) (Nat.le_add_left 1 _) more := by
  unfold Date.next
  rw [dif_neg (by omega), dif_pos more]

theorem Date.next_year (last : date.day = daysInMonth date.year date.month) (december : date.month = 12) :
    date.next = Date.first (date.year + 1) 1 (Nat.le_refl 1) (by decide) := by
  unfold Date.next
  rw [dif_neg (by omega), dif_neg (by omega)]

def Later (a b : Date) : Prop := ∃ n : Nat, Date.next^[n] a = b

theorem Later.refl (a : Date) : Later a a := ⟨0, rfl⟩

theorem Later.trans {a b c : Date} (first : Later a b) (second : Later b c) : Later a c := by
  obtain ⟨n, rfl⟩ := first
  obtain ⟨k, rfl⟩ := second
  exact ⟨k + n, Function.iterate_add_apply _ _ _ _⟩

theorem Later.next (a : Date) : Later a a.next := ⟨1, rfl⟩

theorem later_in_month (valid : ValidDate year month day) {day' : Nat} (valid' : ValidDate year month day') (le : day ≤ day') :
    Later ⟨year, month, day, valid⟩ ⟨year, month, day', valid'⟩ := by
  induction le with
  | refl => exact Later.refl _
  | @step day' le ih =>
    have before : ValidDate year month day' :=
      ⟨valid.month_pos, valid.month_le, Nat.le_trans valid.day_pos le, Nat.le_of_succ_le valid'.day_le⟩
    have next : Date.next ⟨year, month, day', before⟩ = ⟨year, month, day' + 1, valid'⟩ := by
      obtain ⟨sameYear, sameMonth, nextDay⟩ := Date.next_inside ⟨year, month, day', before⟩ valid'.day_le
      exact Date.ext sameYear sameMonth nextDay
    have step := Later.next ⟨year, month, day', before⟩
    rw [next] at step
    exact (ih before).trans step

theorem later_month (valid : ValidDate year month day) (more : month < 12) :
    Later ⟨year, month, day, valid⟩ (Date.first year (month + 1) (Nat.le_add_left 1 _) more) := by
  have last : ValidDate year month (daysInMonth year month) :=
    ⟨valid.month_pos, valid.month_le, daysInMonth_pos year month, Nat.le_refl _⟩
  have step := Later.next ⟨year, month, _, last⟩
  rw [Date.next_month rfl more] at step
  exact (later_in_month valid last valid.day_le).trans step

theorem later_year (date : Date) : Later date (Date.first (date.year + 1) 1 (Nat.le_refl 1) (by decide)) := by
  obtain ⟨year, month, day, valid⟩ := date
  have count : ∃ n, month + n = 12 := ⟨12 - month, Nat.add_sub_cancel' valid.month_le⟩
  obtain ⟨n, count⟩ := count
  induction n generalizing month day with
  | zero =>
    obtain rfl : month = 12 := count
    have last : ValidDate year 12 (daysInMonth year 12) := ⟨by decide, by decide, daysInMonth_pos year 12, Nat.le_refl _⟩
    have step := Later.next ⟨year, 12, _, last⟩
    rw [Date.next_year rfl rfl] at step
    exact (later_in_month valid last valid.day_le).trans step
  | succ n ih =>
    have more : month < 12 := by omega
    exact (later_month valid more).trans (ih (month + 1) 1 _ (by omega))

theorem later_of_newYear (date : Date) : Later (Date.first date.year 1 (Nat.le_refl 1) (by decide)) date := by
  obtain ⟨year, month, day, valid⟩ := date
  have months : ∀ n (le : n + 1 ≤ 12), Later (Date.first year 1 (Nat.le_refl 1) (by decide))
      (Date.first year (n + 1) (Nat.le_add_left 1 n) le) := by
    intro n
    induction n with
    | zero => exact fun _ => Later.refl _
    | succ n ih => exact fun le => (ih (Nat.le_of_succ_le le)).trans (later_month _ le)
  obtain ⟨n, rfl⟩ : ∃ n, month = n + 1 := ⟨month - 1, (Nat.sub_add_cancel valid.month_pos).symm⟩
  exact (months n valid.month_le).trans (later_in_month _ valid valid.day_pos)

theorem newYears {year year' : Int} (le : year ≤ year') : Later (Date.first year 1 (Nat.le_refl 1) (by decide))
    (Date.first year' 1 (Nat.le_refl 1) (by decide)) := by
  induction year', le using Int.leInduction with
  | base => exact Later.refl _
  | succ year' _ ih => exact ih.trans (later_year (Date.first year' 1 (Nat.le_refl 1) (by decide)))

theorem later_of_year {a b : Date} (before : a.year < b.year) : Later a b :=
  (later_year a).trans ((newYears before).trans (later_of_newYear b))

theorem count_iterate {count : Date → Int} (grows : ∀ date, count date.next = count date + 1) (n : Nat) (date : Date) :
    count (Date.next^[n] date) = count date + n := by
  induction n generalizing date with
  | zero => exact (Int.add_zero _).symm
  | succ n ih =>
    rw [Function.iterate_succ_apply, ih, grows]
    omega

theorem daysFrom_iff (count : Date → Int) (grows : ∀ date, count date.next = count date + 1) {year : Int} (days : Int)
    (zero : count (Date.first year 1 (Nat.le_refl 1) (by decide)) = 0) :
    DaysFrom (Date.first year 1 (Nat.le_refl 1) (by decide)) date days ↔ count date = days := by
  constructor
  · rintro ⟨n, ⟨rfl, rfl⟩ | ⟨rfl, back⟩⟩
    · rw [count_iterate grows, zero, Int.zero_add]
    · have all := count_iterate grows n date
      rw [back, zero] at all
      omega
  · rintro rfl
    rcases lt_or_ge date.year year with before | after
    · obtain ⟨n, back⟩ := later_of_year (b := Date.first year 1 (Nat.le_refl 1) (by decide)) before
      have all := count_iterate grows n date
      rw [back, zero] at all
      exact ⟨n, Or.inr ⟨by omega, back⟩⟩
    · obtain ⟨n, forth⟩ := (newYears after).trans (later_of_newYear date)
      have all := count_iterate grows n (Date.first year 1 (Nat.le_refl 1) (by decide))
      rw [forth, zero] at all
      exact ⟨n, Or.inl ⟨by omega, forth⟩⟩

end

end RexOs.Library
