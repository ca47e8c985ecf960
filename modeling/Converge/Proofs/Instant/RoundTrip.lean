import Converge.Instant.Text
import Converge.Proofs.Instant.Calendar
import Mathlib.Algebra.GroupWithZero.Nat

/-!
# Instants read back

An instant is read from the form that documents use.

Main statement: `Instant.read?_render`.
-/

namespace Converge

/-! ## Digits -/

namespace Text

theorem isDigit_of_mem_toDigits {c : Char} {n : Nat} (h : c ∈ Nat.toDigits 10 n) :
    isDigit c = true := by
  have hdigit := Nat.isDigit_of_mem_toDigits (by decide) (by decide) h
  simpa [isDigit, Char.isDigit, Char.le_def] using hdigit

theorem isBlank_of_isDigit {c : Char} (h : isDigit c = true) : isBlank c = false := by
  simp only [isDigit, Bool.and_eq_true, decide_eq_true_eq, Char.le_def, UInt32.le_iff_toNat_le] at h
  have hlow : 48 ≤ c.toNat := h.1
  have hhigh : c.toNat ≤ 57 := h.2
  simp only [isBlank, Bool.or_eq_false_iff, Bool.and_eq_false_iff, decide_eq_false_iff_not]
  omega

theorem digitValue?_of_isDigit {c : Char} (h : isDigit c = true) :
    digitValue? 10 c = some (c.toNat - '0'.toNat) := by
  simp only [isDigit, Bool.and_eq_true, decide_eq_true_eq] at h
  have hhigh : c.toNat ≤ 57 := by
    simpa [Char.le_def, UInt32.le_iff_toNat_le] using h.2
  have hzero : '0'.toNat = 48 := rfl
  rw [digitValue?, if_pos h, Option.filter_some, if_pos]
  exact decide_eq_true (by omega)

/-- Decimal digits are read as the number that they write. -/
theorem readDigits?_of_isDigit {digits : List Char} (hne : digits ≠ [])
    (h : ∀ c ∈ digits, isDigit c = true) :
    readDigits? 10 digits = some (Nat.ofDigitChars 10 digits 0) := by
  have hfold : ∀ (cs : List Char) (start : Nat), (∀ c ∈ cs, isDigit c = true) →
      cs.foldlM (fun value c => (digitValue? 10 c).map (10 * value + ·)) start =
        some (Nat.ofDigitChars 10 cs start) := by
    intro cs
    induction cs with
    | nil => exact fun _ _ => rfl
    | cons c cs ih =>
      intro start hcs
      rw [List.foldlM_cons, digitValue?_of_isDigit (hcs c List.mem_cons_self)]
      exact ih _ fun other hother => hcs other (List.mem_cons_of_mem _ hother)
  cases digits with
  | nil => exact absurd rfl hne
  | cons c cs => exact hfold (c :: cs) 0 h

end Text

namespace Instant

open Text

theorem toList_padded (width n : Nat) : (padded width n).toList =
    List.replicate (width - (Nat.toDigits 10 n).length) '0' ++ Nat.toDigits 10 n := by
  have hlength : (toString n).length = (Nat.toDigits 10 n).length := by
    rw [← String.length_toList]
    exact congrArg List.length Nat.toList_repr
  have hlist : (toString n).toList = Nat.toDigits 10 n := Nat.toList_repr
  rw [padded, String.toList_append, String.toList_ofList, hlength, hlist]

theorem isDigit_of_mem_padded (width n : Nat) :
    ∀ c ∈ (padded width n).toList, isDigit c = true := by
  intro c hc
  rw [toList_padded] at hc
  rcases List.mem_append.1 hc with hc | hc
  · obtain rfl := List.eq_of_mem_replicate hc
    rfl
  · exact isDigit_of_mem_toDigits hc

theorem padded_ne_nil (width n : Nat) : (padded width n).toList ≠ [] := by
  rw [toList_padded]
  exact List.append_ne_nil_of_right_ne_nil _ Nat.toDigits_ne_nil

theorem length_padded {width n : Nat} (hwidth : 0 < width) (h : n < 10 ^ width) :
    (padded width n).toList.length = width := by
  have hlength := (Nat.length_toDigits_le_iff (by decide) hwidth).2 h
  rw [toList_padded, List.length_append, List.length_replicate]
  omega

theorem readDigits?_padded (width n : Nat) : readDigits? 10 (padded width n).toList = some n := by
  have hzeros : ∀ k, Nat.ofDigitChars 10 (List.replicate k '0') 0 = 0 := by
    intro k
    induction k with
    | zero => rfl
    | succ k ih => exact ih
  rw [readDigits?_of_isDigit (padded_ne_nil width n) (isDigit_of_mem_padded width n), toList_padded,
    Nat.ofDigitChars_append, hzeros, Nat.ofDigitChars_ten_toDigits]

theorem dropWhile_isBlank_padded (width n : Nat) (rest : List Char) :
    ((padded width n).toList ++ rest).dropWhile isBlank = (padded width n).toList ++ rest := by
  have hdigits := isDigit_of_mem_padded width n
  cases hcs : (padded width n).toList with
  | nil => exact absurd hcs (padded_ne_nil width n)
  | cons c cs =>
    rw [hcs] at hdigits
    have hblank := isBlank_of_isDigit (hdigits c List.mem_cons_self)
    simp [hblank]

theorem readNumber?_padded (width : Nat) {n : Nat} (hwidth : 0 < width) (h : n < 10 ^ width)
    (rest : List Char) : readNumber? width ((padded width n).toList ++ rest) = some (n, rest) := by
  have htake : (((padded width n).toList ++ rest).take width).takeWhile isDigit =
      (padded width n).toList := by
    have hlength := length_padded hwidth h
    rw [List.take_append_of_le_length (Nat.le_of_eq hlength.symm),
      List.take_of_length_le (Nat.le_of_eq hlength)]
    rw [← List.append_nil (padded width n).toList,
      List.takeWhile_append_of_pos (isDigit_of_mem_padded width n), List.takeWhile_nil]
  simp [readNumber?, dropWhile_isBlank_padded, htake, readDigits?_padded]

/-- What is read up to something other than a digit. -/
theorem takeWhile_isDigit_padded (width n : Nat) {c : Char} (hc : isDigit c = false)
    (rest : List Char) :
    ((padded width n).toList ++ c :: rest).takeWhile isDigit = (padded width n).toList := by
  rw [List.takeWhile_append_of_pos (isDigit_of_mem_padded width n)]
  simp [hc]

/-! ## The parts of an instant -/

theorem readYear?_padded {n : Nat} (h : n < 10 ^ 4) (rest : List Char) :
    readYear? ((padded 4 n).toList ++ rest) = some ((n : Int), rest) := by
  have hdigits := isDigit_of_mem_padded 4 n
  have hnumber := readNumber?_padded 4 (by decide) h rest
  rw [readYear?, dropWhile_isBlank_padded]
  cases hcs : (padded 4 n).toList with
  | nil => exact absurd hcs (padded_ne_nil _ _)
  | cons c cs =>
    rw [hcs] at hdigits hnumber
    have hc := hdigits c List.mem_cons_self
    -- A digit is no sign.
    split
    · next heq =>
      cases heq
      cases hc
    · next heq =>
      cases heq
      cases hc
    · rw [hnumber]
      rfl

theorem readYear?_minus (n : Nat) (rest : List Char) :
    readYear? ('-' :: ((padded 4 n).toList ++ '-' :: rest)) = some (-(n : Int), '-' :: rest) := by
  have hblank : isBlank '-' = false := rfl
  rw [readYear?]
  simp [hblank, takeWhile_isDigit_padded 4 n (rfl : isDigit '-' = false), readDigits?_padded]

theorem readYear?_plus (n : Nat) (rest : List Char) :
    readYear? ('+' :: ((padded 4 n).toList ++ '-' :: rest)) = some ((n : Int), '-' :: rest) := by
  have hblank : isBlank '+' = false := rfl
  rw [readYear?]
  simp [hblank, takeWhile_isDigit_padded 4 n (rfl : isDigit '-' = false), readDigits?_padded]

theorem readYear?_renderYear (year : Int) (rest : List Char) :
    readYear? ((renderYear year).toList ++ '-' :: rest) = some (year, '-' :: rest) := by
  rw [renderYear]
  split
  · next hyear =>
    have hback : (year.toNat : Int) = year := by omega
    rw [readYear?_padded (by omega), hback]
  · by_cases hsign : year < 0
    · have hback : -((year.natAbs : Nat) : Int) = year := by omega
      have htext : "-".toList = ['-'] := rfl
      rw [if_pos hsign, String.toList_append, htext, List.append_assoc, List.singleton_append,
        readYear?_minus, hback]
    · have hback : ((year.natAbs : Nat) : Int) = year := by omega
      have htext : "+".toList = ['+'] := rfl
      rw [if_neg hsign, String.toList_append, htext, List.append_assoc, List.singleton_append,
        readYear?_plus, hback]

theorem readFraction?_padded {width n : Nat} (hwidth : 0 < width) (hnine : width ≤ 9)
    (h : n < 10 ^ width) (rest : List Char) :
    readFraction? ('.' :: ((padded width n).toList ++ 'Z' :: rest)) =
      some (n * 10 ^ (9 - width), 'Z' :: rest) := by
  have hlength := length_padded hwidth h
  have hletter : isDigit 'Z' = false := rfl
  have hdigits : (((padded width n).toList ++ 'Z' :: rest).take 9).takeWhile isDigit =
      (padded width n).toList := by
    rw [← List.take_takeWhile, takeWhile_isDigit_padded _ _ hletter]
    exact List.take_of_length_le (by omega)
  have hrest : ((padded width n).toList ++ 'Z' :: rest).dropWhile isDigit = 'Z' :: rest := by
    rw [List.dropWhile_append_of_pos (isDigit_of_mem_padded width n)]
    simp [hletter]
  simp [readFraction?, hdigits, hrest, readDigits?_padded, hlength]

theorem readFraction?_renderFraction {nanos : Nat} (h : nanos < nanosPerSecond) (rest : List Char) :
    readFraction? ((renderFraction nanos).toList ++ 'Z' :: rest) = some (nanos, 'Z' :: rest) := by
  have hbound : nanos < 1000000000 := h
  rw [renderFraction]
  split
  · next hzero =>
    subst hzero
    rfl
  have hpoint : ∀ digits : String, ("." ++ digits).toList ++ 'Z' :: rest =
      '.' :: (digits.toList ++ 'Z' :: rest) := by
    simp
  split
  · rw [hpoint, readFraction?_padded (by decide) (by decide) (by omega)]
    congr 2
    omega
  split
  · rw [hpoint, readFraction?_padded (by decide) (by decide) (by omega)]
    congr 2
    omega
  · rw [hpoint, readFraction?_padded (by decide) (by decide) (by omega)]
    simp

theorem readSeparator?_self (separator : Char) (h : isBlank separator = false) (rest : List Char) :
    readSeparator? separator (separator :: rest) = some rest := by
  simp [readSeparator?, h]

/-! ## Instants -/

/-- Whether an instant has a date, and its nanoseconds lie in its second, or in a leap second at the
end of a minute. -/
structure Legible (a : Instant) : Prop where
  date : (Date.ofDays a.dayNumber).isValid = true
  nanos : a.nanos < nanosPerSecond ∨
    a.nanos < 2 * nanosPerSecond ∧ a.secondOfDay.toNat % 60 = 59

/-- Every instant whose year dates may lie in has a date. -/
theorem Legible.of_year {a : Instant}
    (hyear : Date.firstYear ≤ (Date.ofDays a.dayNumber).year ∧
      (Date.ofDays a.dayNumber).year ≤ Date.lastYear)
    (hnanos : a.nanos < nanosPerSecond ∨
      a.nanos < 2 * nanosPerSecond ∧ a.secondOfDay.toNat % 60 = 59) : a.Legible :=
  ⟨Date.isValid_ofDays hyear, hnanos⟩

/-- The second of a minute as it is written, and the nanoseconds after it. -/
def written (a : Instant) : Nat × Nat :=
  if nanosPerSecond ≤ a.nanos then (a.secondOfDay.toNat % 60 + 1, a.nanos - nanosPerSecond)
  else (a.secondOfDay.toNat % 60, a.nanos)

theorem toList_render (a : Instant) : a.render.toList =
    (renderYear (Date.ofDays a.dayNumber).year).toList ++ '-' ::
      ((padded 2 (Date.ofDays a.dayNumber).month).toList ++ '-' ::
        ((padded 2 (Date.ofDays a.dayNumber).day).toList ++ 'T' ::
          ((padded 2 (a.secondOfDay.toNat / 3600)).toList ++ ':' ::
            ((padded 2 (a.secondOfDay.toNat / 60 % 60)).toList ++ ':' ::
              ((padded 2 a.written.1).toList ++
                ((renderFraction a.written.2).toList ++ ['Z'])))))) := by
  rw [render, renderDate, renderTime, renderMinute, written]
  split <;> simp [toString, String.toList_append]

/-- What is written of a minute gives the second and its nanoseconds back. -/
theorem Legible.written_spec {a : Instant} (h : a.Legible) :
    a.written.1 ≤ 60 ∧ a.written.2 < nanosPerSecond ∧
      min a.written.1 59 = a.secondOfDay.toNat % 60 ∧
      (if a.written.1 = 60 then a.written.2 + nanosPerSecond else a.written.2) = a.nanos := by
  have hminute : a.secondOfDay.toNat % 60 < 60 := Nat.mod_lt _ (by decide)
  rw [written]
  rcases h.nanos with hnanos | ⟨hnanos, hlast⟩
  · rw [if_neg (by omega)]
    refine ⟨by simp only; omega, hnanos, by simp only; omega, ?_⟩
    simp only
    rw [if_neg (by omega)]
  · split
    · refine ⟨by simp only; omega, by simp only; omega, by simp only; omega, ?_⟩
      simp only
      rw [if_pos (by omega)]
      omega
    · refine ⟨by simp only; omega, by simp only; omega, by simp only; omega, ?_⟩
      simp only
      rw [if_neg (by omega)]

/-- An instant is read from its written form. -/
theorem read?_render {a : Instant} (h : a.Legible) : read? a.render = some a := by
  have hdate := h.date
  obtain ⟨hminute, hfraction, hback, hnanos⟩ := h.written_spec
  have hvalid := hdate
  simp only [Date.isValid, Bool.and_eq_true, decide_eq_true_eq] at hvalid
  obtain ⟨⟨⟨⟨⟨-, -⟩, -⟩, hmonth⟩, -⟩, hday⟩ := hvalid
  have hdays : Date.daysInMonth (Date.ofDays a.dayNumber).year
      (Date.ofDays a.dayNumber).month ≤ 31 := by
    unfold Date.daysInMonth
    split <;> (try split) <;> omega
  have hsecond : 0 ≤ a.secondOfDay ∧ a.secondOfDay < 86400 := by
    simp only [secondOfDay, secondsPerDay]
    omega
  rw [read?, toList_render]
  refine Option.bind_eq_some_iff.2 ⟨_, readYear?_renderYear .., ?_⟩
  refine Option.bind_eq_some_iff.2 ⟨_, readSeparator?_self '-' rfl .., ?_⟩
  refine Option.bind_eq_some_iff.2 ⟨_, readNumber?_padded 2 (by decide) (by omega) .., ?_⟩
  refine Option.bind_eq_some_iff.2 ⟨_, readSeparator?_self '-' rfl .., ?_⟩
  refine Option.bind_eq_some_iff.2 ⟨_, readNumber?_padded 2 (by decide) (by omega) .., ?_⟩
  refine Option.bind_eq_some_iff.2 ⟨_, rfl, ?_⟩
  refine Option.bind_eq_some_iff.2 ⟨_, readNumber?_padded 2 (by decide) (by omega) .., ?_⟩
  refine Option.bind_eq_some_iff.2 ⟨_, readSeparator?_self ':' rfl .., ?_⟩
  refine Option.bind_eq_some_iff.2 ⟨_, readNumber?_padded 2 (by decide) (by omega) .., ?_⟩
  refine Option.bind_eq_some_iff.2 ⟨_, readSeparator?_self ':' rfl .., ?_⟩
  refine Option.bind_eq_some_iff.2 ⟨_, readNumber?_padded 2 (by decide) (by omega) .., ?_⟩
  refine Option.bind_eq_some_iff.2 ⟨_, readFraction?_renderFraction hfraction [], ?_⟩
  refine Option.bind_eq_some_iff.2 ⟨(0, []), rfl, ?_⟩
  simp only [hback, hnanos]
  have hseconds : Date.toDays (Date.ofDays a.dayNumber) * 86400 +
      ((a.secondOfDay.toNat / 3600 : Nat) : Int) * 3600 +
      ((a.secondOfDay.toNat / 60 % 60 : Nat) : Int) * 60 +
      ((a.secondOfDay.toNat % 60 : Nat) : Int) - 0 = a.seconds := by
    rw [Date.toDays_ofDays]
    simp only [dayNumber, secondOfDay, secondsPerDay] at hsecond ⊢
    omega
  have hrange : (Date.isValid (Date.ofDays a.dayNumber) &&
      decide (a.secondOfDay.toNat / 3600 ≤ 23) && decide (a.secondOfDay.toNat / 60 % 60 ≤ 59) &&
      decide (a.written.1 ≤ 60) && List.all [] isBlank) = true := by
    simp only [hdate, List.all_nil, Bool.true_and, Bool.and_true, Bool.and_eq_true,
      decide_eq_true_eq]
    omega
  rw [hrange, hseconds]
  simp [hdate]

end Instant

end Converge
