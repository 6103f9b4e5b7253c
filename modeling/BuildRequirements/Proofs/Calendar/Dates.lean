import BuildRequirements.Calendar.Date

namespace BuildRequirements.Calendar

theorem isLeap_iff {year : Int} :
    isLeap year = true ↔ year % 4 = 0 ∧ (year % 100 ≠ 0 ∨ year % 400 = 0) := by
  simp [isLeap]

theorem total_monthLengths (year : Int) :
    total (monthLengths year) = if isLeap year then 366 else 365 := by
  rw [monthLengths]
  cases isLeap year <;> rfl

/-- Only the last day of a leap year is the 366th: a run of 4 years that ends with one lasts 1461 days,
and the last such run of a century is a day shorter, unless 400 divides the century's last year. -/
theorem yearOfDay_lt (number : Int) :
    (yearOfDay number).2 < total (monthLengths (yearOfDay number).1) := by
  have hday : (yearOfDay number).2 ≤ 365 := by
    simp only [yearOfDay]
    omega
  have hleap : (yearOfDay number).2 = 365 → isLeap (yearOfDay number).1 = true := by
    intro h
    rw [isLeap_iff]
    simp only [yearOfDay] at h ⊢
    omega
  rw [total_monthLengths]
  split
  · omega
  · rename_i hcommon
    have hne : (yearOfDay number).2 ≠ 365 := fun h => hcommon (hleap h)
    omega

theorem total_take_succ {ns : List Nat} {i n : Nat} (h : ns[i]? = some n) :
    total (ns.take (i + 1)) = total (ns.take i) + n := by
  induction ns generalizing i with
  | nil => cases h
  | cons m ns ih =>
    cases i with
    | zero =>
      cases h
      simp [total]
    | succ i =>
      rw [List.take_succ_cons, List.take_succ_cons, total, total, ih h, Nat.add_assoc]

theorem daysBeforeYear_succ (year : Int) :
    daysBeforeYear (year + 1) = daysBeforeYear year + total (monthLengths year) := by
  rw [total_monthLengths, daysBeforeYear, daysBeforeYear]
  split
  · rename_i h
    rw [isLeap_iff] at h
    omega
  · rename_i h
    rw [isLeap_iff] at h
    omega

namespace Date

variable {d : Date}

theorem isValid_ofDayNumber (number : Int) : (ofDayNumber number).IsValid := by
  obtain ⟨n, hn, hlt⟩ := monthsOver_lt (yearOfDay_lt number)
  refine ⟨Nat.succ_pos _, Nat.succ_pos _, n, ?_, hlt⟩
  simpa [ofDayNumber] using hn

theorem IsValid.le (h : d.IsValid) : d.month ≤ 12 ∧ d.day ≤ 31 := by
  obtain ⟨-, -, n, hn, hday⟩ := h
  have hmonth : d.month - 1 < 12 := (List.getElem?_eq_some_iff.mp hn).1
  have hlength : ∀ n ∈ monthLengths d.year, n ≤ 31 := by
    rw [monthLengths]
    cases isLeap d.year <;> decide
  have hn31 := hlength n (List.mem_of_getElem? hn)
  omega

def next (d : Date) : Date :=
  if (monthLengths d.year)[d.month - 1]?.any (d.day < ·) then ⟨d.year, d.month, d.day + 1⟩
  else if d.month < 12 then ⟨d.year, d.month + 1, 1⟩
  else ⟨d.year + 1, 1, 1⟩

theorem dayNumber_next (h : d.IsValid) : d.next.dayNumber = d.dayNumber + 1 := by
  obtain ⟨hmonth, hday, n, hn, hle⟩ := h
  have hlast : d.month - 1 < 12 := (List.getElem?_eq_some_iff.mp hn).1
  rw [next, hn, Option.any_some]
  split
  · simp only [dayNumber]
    omega
  · rename_i hend
    rw [decide_eq_true_eq] at hend
    -- The month is over, so its whole length counts.
    have hover := total_take_succ hn
    rw [Nat.sub_add_cancel hmonth] at hover
    split
    · simp only [dayNumber, Nat.add_sub_cancel, hover]
      omega
    · rename_i hyear
      have htake : (monthLengths d.year).take d.month = monthLengths d.year :=
        List.take_of_length_le (by change 12 ≤ _; omega)
      have hfirst : total ((monthLengths (d.year + 1)).take (1 - 1)) = 0 := rfl
      rw [htake] at hover
      simp only [dayNumber, daysBeforeYear_succ, hover, hfirst]
      omega

example : (⟨1970, 1, 1⟩ : Date).dayNumber = 0 := by decide

end Date

end BuildRequirements.Calendar
