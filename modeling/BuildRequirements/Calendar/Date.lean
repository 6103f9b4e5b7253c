/-!
Dates of the Gregorian calendar, extended to all years, year 0 and negative years included. A date
and the number of days since 1970-01-01 determine each other.
-/

namespace BuildRequirements.Calendar

def isLeap (year : Int) : Bool := year % 4 == 0 && (year % 100 != 0 || year % 400 == 0)

def monthLengths (year : Int) : List Nat :=
  [31, if isLeap year then 29 else 28, 31, 30, 31, 30, 31, 31, 30, 31, 30, 31]

def total : List Nat → Nat
  | [] => 0
  | n :: ns => n + total ns

def daysBeforeYear (year : Int) : Int :=
  365 * (year - 1) + (year - 1) / 4 - (year - 1) / 100 + (year - 1) / 400 - 719162

structure Date where
  year : Int
  month : Nat
  day : Nat
  deriving DecidableEq, Repr

namespace Date

def IsValid (d : Date) : Prop :=
  1 ≤ d.month ∧ 1 ≤ d.day ∧ ∃ n, (monthLengths d.year)[d.month - 1]? = some n ∧ d.day ≤ n

def dayNumber (d : Date) : Int :=
  daysBeforeYear d.year + total ((monthLengths d.year).take (d.month - 1)) + (d.day - 1)

end Date

def monthsOver : List Nat → Nat → Nat × Nat
  | [], days => (0, days)
  | n :: ns, days =>
    if days < n then (0, days)
    else ((monthsOver ns (days - n)).1 + 1, (monthsOver ns (days - n)).2)

theorem total_monthsOver (ns : List Nat) (days : Nat) :
    total (ns.take (monthsOver ns days).1) + (monthsOver ns days).2 = days := by
  fun_induction monthsOver ns days with
  | case1 => simp [total]
  | case2 => simp [total]
  | case3 n ns days h ih =>
    simp only [List.take_succ_cons, total]
    omega

theorem monthsOver_lt {ns : List Nat} {days : Nat} (h : days < total ns) :
    ∃ n, ns[(monthsOver ns days).1]? = some n ∧ (monthsOver ns days).2 < n := by
  fun_induction monthsOver ns days with
  | case1 => simp [total] at h
  | case2 n ns days hd => exact ⟨n, by simp, hd⟩
  | case3 n ns days hd ih =>
    rw [total] at h
    simpa using ih (by omega)

/-- The year that holds a day, and the days since it began. The days are divided into runs of 400,
100, 4 years and 1 year, of which the last may be a day longer than the others. -/
def yearOfDay (number : Int) : Int × Nat :=
  let d400 := (number + 719162) % 146097
  let c := min (d400 / 36524) 3
  let d100 := d400 - 36524 * c
  let d4 := d100 % 1461
  let y := min (d4 / 365) 3
  (400 * ((number + 719162) / 146097) + 100 * c + 4 * (d100 / 1461) + y + 1, (d4 - 365 * y).toNat)

theorem daysBeforeYear_runs (a : Int) {c b y : Int} (hc : 0 ≤ c ∧ c ≤ 3) (hb : 0 ≤ b ∧ b ≤ 24)
    (hy : 0 ≤ y ∧ y ≤ 3) :
    daysBeforeYear (400 * a + 100 * c + 4 * b + y + 1) =
      146097 * a + 36524 * c + 1461 * b + 365 * y - 719162 := by
  have h4 : (400 * a + 100 * c + 4 * b + y + 1 - 1) / 4 = 100 * a + 25 * c + b := by omega
  have h100 : (400 * a + 100 * c + 4 * b + y + 1 - 1) / 100 = 4 * a + c := by omega
  have h400 : (400 * a + 100 * c + 4 * b + y + 1 - 1) / 400 = a := by omega
  rw [daysBeforeYear, h4, h100, h400]
  omega

theorem yearOfDay_eq (number : Int) :
    daysBeforeYear (yearOfDay number).1 + (yearOfDay number).2 = number := by
  simp only [yearOfDay]
  rw [daysBeforeYear_runs]
  all_goals omega

def Date.ofDayNumber (number : Int) : Date :=
  let year := (yearOfDay number).1
  let month := monthsOver (monthLengths year) (yearOfDay number).2
  ⟨year, month.1 + 1, month.2 + 1⟩

theorem dayNumber_ofDayNumber (number : Int) : (Date.ofDayNumber number).dayNumber = number := by
  have hy := yearOfDay_eq number
  have hm := total_monthsOver (monthLengths (yearOfDay number).1) (yearOfDay number).2
  simp only [Date.ofDayNumber, Date.dayNumber, Nat.add_sub_cancel]
  omega

end BuildRequirements.Calendar
