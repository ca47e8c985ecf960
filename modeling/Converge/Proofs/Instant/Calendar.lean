import Converge.Instant.Basic

/-!
# The calendar

The number of a day and its date say the same, and every day has a date as far as years go.

Main statements: `Date.toDays_ofDays` and `Date.isValid_ofDays`.
-/

namespace Converge.Date

/-- A day of an era by its century, its four years, its year and its day of the year, all from zero.
Only the last of four years has a leap day, and in the last four of a century only that of the last
century. -/
theorem exists_parts {day : Int} (hlow : 0 ≤ day) (hhigh : day ≤ 146096) :
    ∃ century olympiad year rest : Int, day = 36524 * century + 1461 * olympiad + 365 * year + rest ∧
      (0 ≤ century ∧ century ≤ 3) ∧ (0 ≤ olympiad ∧ olympiad ≤ 24) ∧ (0 ≤ year ∧ year ≤ 3) ∧
      (0 ≤ rest ∧ rest ≤ 365) ∧ (rest = 365 → year = 3 ∧ (olympiad = 24 → century = 3)) := by
  let century := min (day / 36524) 3
  let olympiad := min ((day - 36524 * century) / 1461) 24
  let year := min ((day - 36524 * century - 1461 * olympiad) / 365) 3
  refine ⟨century, olympiad, year, day - 36524 * century - 1461 * olympiad - 365 * year, ?_⟩
  omega

/-- The year of an era to which a day of the era belongs. -/
theorem yearOfEra_eq {century olympiad year rest day : Int}
    (hday : day = 36524 * century + 1461 * olympiad + 365 * year + rest)
    (hcentury : 0 ≤ century ∧ century ≤ 3) (holympiad : 0 ≤ olympiad ∧ olympiad ≤ 24)
    (hyear : 0 ≤ year ∧ year ≤ 3) (hrest : 0 ≤ rest ∧ rest ≤ 365)
    (hleap : rest = 365 → year = 3 ∧ (olympiad = 24 → century = 3)) :
    (day - day / 1460 + day / 36524 - day / 146096) / 365 =
      100 * century + 4 * olympiad + year := by
  have hcenturies : day / 36524 - day / 146096 = century := by
    by_cases hlast : day = 146096
    · omega
    · have hera : day / 146096 = 0 := by omega
      omega
  -- Years of 365 days and four-year spans of 1460 drift apart by a day each of the latter.
  by_cases hlate : 1460 ≤ 24 * century + olympiad + 365 * year + rest
  · have hspans : day / 1460 = 25 * century + olympiad + 1 := by omega
    omega
  · have hspans : day / 1460 = 25 * century + olympiad := by omega
    omega

/-- The day of an era, from zero, by the year of the era and the day of that year. -/
theorem exists_yearOfEra (day : Int) (hlow : 0 ≤ day) (hhigh : day ≤ 146096) :
    ∃ year rest, (day - day / 1460 + day / 36524 - day / 146096) / 365 = year ∧
      (0 ≤ year ∧ year ≤ 399) ∧ (0 ≤ rest ∧ rest ≤ 365) ∧
      day = 365 * year + year / 4 - year / 100 + rest := by
  obtain ⟨century, olympiad, year, rest, hday, hcentury, holympiad, hyear, hrest, hleap⟩ :=
    exists_parts hlow hhigh
  refine ⟨100 * century + 4 * olympiad + year, rest,
    yearOfEra_eq hday hcentury holympiad hyear hrest hleap, by omega, hrest, ?_⟩
  have hfours : (100 * century + 4 * olympiad + year) / 4 = 25 * century + olympiad := by omega
  have hhundreds : (100 * century + 4 * olympiad + year) / 100 = century := by omega
  omega

/-- The date of a day has the number of that day. -/
theorem toDays_ofDays (days : Int) : (ofDays days).toDays = days := by
  obtain ⟨year, rest, hyear, hyears, hrest, hday⟩ :=
    exists_yearOfEra ((days + 719468) % 146097) (by omega) (by omega)
  have hdayOfYear : (days + 719468) % 146097 - (365 * year + year / 4 - year / 100) = rest := by
    omega
  simp only [ofDays, toDays, hyear, hdayOfYear]
  have hmonth : 0 ≤ (5 * rest + 2) / 153 ∧ (5 * rest + 2) / 153 ≤ 11 := by omega
  generalize hm : (5 * rest + 2) / 153 = month at hmonth ⊢
  have hera := Int.emod_add_mul_ediv (days + 719468) 146097
  generalize (days + 719468) / 146097 = era at hera ⊢
  by_cases hearly : month < 10
  · have hlate : ¬ (month + 3).toNat ≤ 2 := by omega
    have hback : (((month + 3).toNat : Nat) : Int) - 3 = month := by omega
    have hyearOf : (year + era * 400) / 400 = era ∧ (year + era * 400) % 400 = year := by omega
    simp only [if_pos hearly, if_neg hlate, hback, hyearOf.1, hyearOf.2]
    omega
  · have hlate : (month - 9).toNat ≤ 2 := by omega
    have hback : (((month - 9).toNat : Nat) : Int) + 9 = month := by omega
    have hyearOf : (year + era * 400 + 1 - 1) / 400 = era ∧
        (year + era * 400 + 1 - 1) % 400 = year := by omega
    simp only [if_neg hearly, if_pos hlate, hback, hyearOf.1, hyearOf.2]
    omega

/-! ## Days with a date -/

/-- The month, counted from March, and the day of the month of a day of the year, counted from the
first of March. -/
def monthAndDay (dayOfYear : Int) : Nat × Nat :=
  let month := (5 * dayOfYear + 2) / 153
  ((if month < 10 then month + 3 else month - 9).toNat, (dayOfYear - (153 * month + 2) / 5 + 1).toNat)

/-- Every day of a year has a date, also in a year that is no leap year, but for the last. -/
theorem monthAndDay_spec : ∀ k : Nat, k < 366 →
    let date := monthAndDay k
    1 ≤ date.1 ∧ date.1 ≤ 12 ∧ 1 ≤ date.2 ∧
      (date.2 ≤ daysInMonth 1 date.1 ∨ k = 365 ∧ date = (2, 29)) := by
  decide +kernel

theorem daysInMonth_le (year : Int) (month : Nat) : daysInMonth 1 month ≤ daysInMonth year month := by
  unfold daysInMonth
  split
  all_goals try exact Nat.le_refl _
  have hcommon : isLeapYear 1 = false := by decide
  simp only [hcommon, Bool.false_eq_true, if_false]
  split <;> decide

/-- A year that begins in March and has a leap day ends in a leap year. -/
theorem isLeapYear_of_last {century olympiad era : Int} (holympiad : 0 ≤ olympiad ∧ olympiad ≤ 24)
    (hlast : olympiad = 24 → century = 3) :
    isLeapYear (100 * century + 4 * olympiad + 3 + era * 400 + 1) = true := by
  have hfour : (100 * century + 4 * olympiad + 3 + era * 400 + 1) % 4 = 0 := by omega
  have hcentury : (100 * century + 4 * olympiad + 3 + era * 400 + 1) % 100 ≠ 0 ∨
      (100 * century + 4 * olympiad + 3 + era * 400 + 1) % 400 = 0 := by
    by_cases h : olympiad = 24
    · obtain rfl := hlast h
      subst h
      right
      omega
    · left
      omega
  simpa [isLeapYear, hfour] using hcentury

/-- The day of the year that is left of a day of an era. -/
theorem dayOfYear_eq {century olympiad year : Int} (rest : Int)
    (holympiad : 0 ≤ olympiad ∧ olympiad ≤ 24) (hyear : 0 ≤ year ∧ year ≤ 3) :
    36524 * century + 1461 * olympiad + 365 * year + rest -
      (365 * (100 * century + 4 * olympiad + year) + (100 * century + 4 * olympiad + year) / 4 -
        (100 * century + 4 * olympiad + year) / 100) = rest := by
  have hfours : (100 * century + 4 * olympiad + year) / 4 = 25 * century + olympiad := by omega
  have hhundreds : (100 * century + 4 * olympiad + year) / 100 = century := by omega
  rw [hfours, hhundreds]
  omega

/-- The date of a day exists, if its year does. -/
theorem isValid_ofDays {days : Int}
    (hyear : firstYear ≤ (ofDays days).year ∧ (ofDays days).year ≤ lastYear) :
    (ofDays days).isValid = true := by
  have hnonneg : 0 ≤ (days + 719468) % 146097 := by omega
  have hera : (days + 719468) % 146097 ≤ 146096 := by omega
  obtain ⟨century, olympiad, year, rest, hday, hcentury, holympiad, hyears, hrest, hleap⟩ :=
    exists_parts hnonneg hera
  have hyearOfEra := yearOfEra_eq hday hcentury holympiad hyears hrest hleap
  have hdayOfYear : (days + 719468) % 146097 -
      (365 * (100 * century + 4 * olympiad + year) + (100 * century + 4 * olympiad + year) / 4 -
        (100 * century + 4 * olympiad + year) / 100) = rest := by
    rw [hday]
    exact dayOfYear_eq rest holympiad hyears
  obtain ⟨k, rfl⟩ := Int.eq_ofNat_of_zero_le hrest.1
  have hspec := monthAndDay_spec k (by omega)
  have hmonth : (ofDays days).month = (monthAndDay k).1 := by
    simp only [ofDays, hyearOfEra, hdayOfYear, monthAndDay]
  have hdayOf : (ofDays days).day = (monthAndDay k).2 := by
    simp only [ofDays, hyearOfEra, hdayOfYear, monthAndDay]
  have hyearOf : (ofDays days).year =
      let year := 100 * century + 4 * olympiad + year + (days + 719468) / 146097 * 400
      if (ofDays days).month ≤ 2 then year + 1 else year := by
    simp only [ofDays, hyearOfEra, hdayOfYear]
  obtain ⟨hlow, hhigh, hfirst, hlast⟩ := hspec
  have hfits : (ofDays days).day ≤ daysInMonth (ofDays days).year (ofDays days).month := by
    rcases hlast with hcommon | ⟨rfl, hdate⟩
    · rw [hdayOf, hmonth]
      exact Nat.le_trans hcommon (daysInMonth_le _ _)
    · obtain ⟨rfl, hcenturies⟩ := hleap rfl
      rw [hdate] at hmonth hdayOf
      rw [hmonth, if_pos (by decide)] at hyearOf
      rw [hdayOf, hmonth, hyearOf, daysInMonth, isLeapYear_of_last holympiad hcenturies]
      exact Nat.le_refl _
  simp only [isValid, Bool.and_eq_true, decide_eq_true_eq]
  exact ⟨⟨⟨⟨⟨hyear.1, hyear.2⟩, hmonth ▸ hlow⟩, hmonth ▸ hhigh⟩, hdayOf ▸ hfirst⟩, hfits⟩

end Converge.Date
