import Converge.Proofs.Instant.RoundTrip
import Converge.Proofs.Json.RoundTrip
import Mathlib.Data.List.TakeWhile
import Mathlib.Tactic.SplitIfs

/-!
# Numbers read back

Which numbers are read as they are written: every integer of sixty-four bits and no other, and any
number whose text, taken by itself, has its value.

Main statements: `Json.legible_of_takeNumber?` and `Json.legible_integer_iff`.
-/

namespace Converge.Json

open Text

/-! ## The text of a number and what follows it -/

/-- What ends a number goes on with none of its parts. -/
theorem EndsNumber.first {rest : List Char} (h : EndsNumber rest) {c : Char} {cs : List Char}
    (heq : rest = c :: cs) : isDigit c = false ∧ c ≠ '.' ∧ c ≠ 'e' ∧ c ≠ 'E' := by
  rcases h c cs heq with rfl | rfl | rfl | rfl <;> decide

/-- The exponent that is written by the digits at the front. -/
def exponentDigits? (negative : Bool) (cs : List Char) : Option (Option Int × List Char) :=
  (readDigits? 10 (takeDigits cs).1).map fun value =>
    (some (if negative then -(value : Int) else value), (takeDigits cs).2)

theorem takeExponent?_cons {c d : Char} (hc : c = 'e' ∨ c = 'E') (cs : List Char) :
    takeExponent? (c :: d :: cs) =
      if d = '+' then exponentDigits? false cs
      else if d = '-' then exponentDigits? true cs
      else exponentDigits? false (d :: cs) := by
  by_cases hplus : d = '+'
  · subst hplus
    rcases hc with rfl | rfl <;> rfl
  by_cases hminus : d = '-'
  · subst hminus
    rcases hc with rfl | rfl <;> rfl
  rw [if_neg hplus, if_neg hminus]
  rcases hc with rfl | rfl
  all_goals
    rw [takeExponent?]
    · rfl
    · exact fun tail heq => hplus (List.cons.inj heq).1
    · exact fun tail heq => hminus (List.cons.inj heq).1

/-- The parts of a number after its sign. -/
def numberParts? (negative : Bool) (cs : List Char) : Option (NumberText × List Char) := do
  let (whole, cs) ← takeWhole? cs
  let (fraction, cs) ← takeFraction? cs
  let (exponent, cs) ← takeExponent? cs
  return (⟨negative, whole, fraction, exponent⟩, cs)

theorem takeNumber?_cons {c : Char} (hc : c ≠ '-') (cs : List Char) :
    takeNumber? (c :: cs) = numberParts? false (c :: cs) := by
  rw [takeNumber?]
  · rfl
  · exact fun tail heq => hc (List.cons.inj heq).1

section Append

variable {rest : List Char} (hrest : EndsNumber rest)

include hrest

theorem takeDigits_append (cs : List Char) :
    takeDigits (cs ++ rest) = ((takeDigits cs).1, (takeDigits cs).2 ++ rest) := by
  induction cs with
  | nil =>
    cases rest with
    | nil => rfl
    | cons c rest => simp [takeDigits, (hrest.first rfl).1]
  | cons c cs ih =>
    simp only [takeDigits, Prod.mk.injEq] at ih
    cases hc : isDigit c <;> simp [takeDigits, hc, ih]

theorem takeWhole?_append {cs left digits : List Char} (h : takeWhole? cs = some (digits, left)) :
    takeWhole? (cs ++ rest) = some (digits, left ++ rest) := by
  unfold takeWhole? at h
  split at h
  · next tail =>
    split at h
    · cases h
    · next hnot =>
      obtain ⟨rfl, rfl⟩ := Prod.mk.inj (Option.some.inj h)
      have hhead : ¬ ((tail ++ rest).head?.map isDigit).getD false = true := by
        cases tail with
        | nil =>
          cases rest with
          | nil => exact Bool.false_ne_true
          | cons c rest => simp [(hrest.first rfl).1]
        | cons c tail => simpa using hnot
      rw [List.cons_append, takeWhole?, if_neg hhead]
  · next hzero =>
    obtain ⟨hnonempty, heq⟩ := Option.ite_none_left_eq_some.1 h
    obtain ⟨rfl, rfl⟩ := Prod.mk.inj (Option.some.inj heq)
    unfold takeWhole?
    split
    · next tail heq =>
      cases cs with
      | nil => simp at hnonempty
      | cons c cs => exact absurd (congrArg (· :: cs) (List.cons.inj heq).1) (hzero cs)
    · rw [takeDigits_append hrest]
      exact if_neg hnonempty

theorem takeFraction?_append {cs left : List Char} {digits : Option (List Char)}
    (h : takeFraction? cs = some (digits, left)) :
    takeFraction? (cs ++ rest) = some (digits, left ++ rest) := by
  cases cs with
  | nil =>
    obtain ⟨rfl, rfl⟩ := Prod.mk.inj (Option.some.inj h)
    unfold takeFraction?
    split
    · next heq => exact absurd rfl (hrest.first heq).2.1
    · rfl
  | cons c cs =>
    by_cases hpoint : c = '.'
    · subst hpoint
      obtain ⟨hnonempty, heq⟩ := Option.ite_none_left_eq_some.1 h
      obtain ⟨rfl, rfl⟩ := Prod.mk.inj (Option.some.inj heq)
      simp only [List.cons_append, takeFraction?, takeDigits_append hrest]
      exact if_neg hnonempty
    · have hnone : ∀ tail, takeFraction? (c :: tail) = some (none, c :: tail) := by
        intro tail
        unfold takeFraction?
        split
        · next heq => exact absurd (List.cons.inj heq).1 hpoint
        · rfl
      rw [hnone] at h
      obtain ⟨rfl, rfl⟩ := Prod.mk.inj (Option.some.inj h)
      exact hnone _

theorem exponentDigits?_append {negative : Bool} {cs left : List Char} {exponent : Option Int}
    (h : exponentDigits? negative cs = some (exponent, left)) :
    exponentDigits? negative (cs ++ rest) = some (exponent, left ++ rest) := by
  obtain ⟨value, hvalue, heq⟩ := Option.map_eq_some_iff.1 h
  obtain ⟨rfl, rfl⟩ := Prod.mk.inj heq
  rw [exponentDigits?, takeDigits_append hrest, hvalue]
  rfl

theorem takeExponent?_append {cs left : List Char} {exponent : Option Int}
    (h : takeExponent? cs = some (exponent, left)) :
    takeExponent? (cs ++ rest) = some (exponent, left ++ rest) := by
  cases cs with
  | nil =>
    obtain ⟨rfl, rfl⟩ := Prod.mk.inj (Option.some.inj h)
    unfold takeExponent?
    split
    · next heq => exact absurd rfl (hrest.first heq).2.2.1
    · next heq => exact absurd rfl (hrest.first heq).2.2.2
    · rfl
  | cons c cs =>
    by_cases hletter : c = 'e' ∨ c = 'E'
    · cases cs with
      | nil => rcases hletter with rfl | rfl <;> cases h
      | cons d cs =>
        -- After the letter stands a sign or a digit, so the sign is read as before.
        rw [takeExponent?_cons hletter] at h
        rw [List.cons_append, List.cons_append, takeExponent?_cons hletter]
        split_ifs at h ⊢ <;> exact exponentDigits?_append hrest h
    · obtain ⟨hsmall, hbig⟩ := not_or.1 hletter
      have hnone : ∀ tail, takeExponent? (c :: tail) = some (none, c :: tail) := by
        intro tail
        unfold takeExponent?
        split
        · next heq => exact absurd (List.cons.inj heq).1 hsmall
        · next heq => exact absurd (List.cons.inj heq).1 hbig
        · rfl
      rw [hnone] at h
      obtain ⟨rfl, rfl⟩ := Prod.mk.inj (Option.some.inj h)
      exact hnone _

theorem takeNumber?_append {cs left : List Char} {text : NumberText}
    (h : takeNumber? cs = some (text, left)) :
    takeNumber? (cs ++ rest) = some (text, left ++ rest) := by
  have hparts : ∀ negative (cs : List Char), numberParts? negative cs = some (text, left) →
      numberParts? negative (cs ++ rest) = some (text, left ++ rest) := by
    intro negative cs h
    obtain ⟨⟨whole, afterWhole⟩, hwhole, h⟩ := Option.bind_eq_some_iff.1 h
    obtain ⟨⟨fraction, afterFraction⟩, hfraction, h⟩ := Option.bind_eq_some_iff.1 h
    obtain ⟨⟨exponent, afterExponent⟩, hexponent, h⟩ := Option.bind_eq_some_iff.1 h
    obtain ⟨rfl, rfl⟩ := Prod.mk.inj (Option.some.inj h)
    refine Option.bind_eq_some_iff.2 ⟨_, takeWhole?_append hrest hwhole, ?_⟩
    refine Option.bind_eq_some_iff.2 ⟨_, takeFraction?_append hrest hfraction, ?_⟩
    exact Option.bind_eq_some_iff.2 ⟨_, takeExponent?_append hrest hexponent, rfl⟩
  cases cs with
  | nil => cases h
  | cons c cs =>
    by_cases hsign : c = '-'
    · subst hsign
      exact hparts true cs h
    · rw [takeNumber?_cons hsign] at h
      rw [List.cons_append, takeNumber?_cons hsign]
      exact hparts false (c :: cs) h

end Append

/-- A number begins with its sign or with a digit. -/
theorem first_of_takeNumber? {cs left : List Char} {text : NumberText}
    (h : takeNumber? cs = some (text, left)) :
    ∃ c tail, cs = c :: tail ∧ (c = '-' ∨ isDigit c = true) := by
  cases cs with
  | nil => cases h
  | cons c cs =>
    refine ⟨c, cs, rfl, ?_⟩
    by_cases hsign : c = '-'
    · exact .inl hsign
    rw [takeNumber?_cons hsign] at h
    obtain ⟨⟨whole, afterWhole⟩, hwhole, -⟩ := Option.bind_eq_some_iff.1 h
    cases hdigit : isDigit c with
    | true => exact .inr rfl
    | false =>
      unfold takeWhole? at hwhole
      split at hwhole
      · next heq =>
        obtain ⟨rfl, -⟩ := List.cons.inj heq
        cases hdigit
      · simp [takeDigits, hdigit] at hwhole

/-- A number is read as it is written if its text, taken by itself, has its value. -/
theorem legible_of_takeNumber? {n : Number} {text : NumberText}
    (h : takeNumber? n.render.toList = some (text, [])) (hvalue : text.value = n) : Legible n := by
  intro fuel depth rest hrest
  obtain ⟨c, tail, hcs, hfirst⟩ := first_of_takeNumber? h
  have hnumber := takeNumber?_append hrest h
  rw [hcs, List.nil_append] at hnumber
  have hother : ∀ d, isDigit d = false → d ≠ '-' → c ≠ d := by
    rintro d hdigit hsign rfl
    exact hfirst.elim hsign fun h => absurd (hdigit.symm.trans h) (by decide)
  have hspace : skipSpace (c :: tail ++ rest) = c :: tail ++ rest := by
    have hc : isSpace c = false := by
      simp only [isSpace, Bool.or_eq_false_iff, decide_eq_false_iff_not]
      exact ⟨⟨⟨hother _ rfl (by decide), hother _ rfl (by decide)⟩, hother _ rfl (by decide)⟩,
        hother _ rfl (by decide)⟩
    simp [skipSpace, hc]
  rw [hcs, takeValue?, hspace]
  rw [List.cons_append] at hnumber ⊢
  split
  case h_7 =>
    rw [hnumber, ← hvalue]
    rfl
  all_goals
    next heq => exact absurd (List.cons.inj heq).1 (hother _ rfl (by decide))

theorem legible_of_render {n : Number} {rendered : String} {text : NumberText}
    (hrender : n.render = rendered) (h : takeNumber? rendered.toList = some (text, []))
    (hvalue : text.value = n) : Legible n :=
  legible_of_takeNumber? (hrender ▸ h) hvalue

/-! ## Integers -/

theorem le_ofDigitChars (cs : List Char) (start : Nat) : start ≤ Nat.ofDigitChars 10 cs start := by
  induction cs generalizing start with
  | nil => exact Nat.le_refl _
  | cons c cs ih =>
    have := ih (10 * start + (c.toNat - '0'.toNat))
    rw [Nat.ofDigitChars_cons]
    omega

/-- Digits of a number that fits are all taken. -/
theorem takeSignificand_eq {cs : List Char} {start : Nat}
    (h : Nat.ofDigitChars 10 cs start ≤ Number.maxUnsigned 64) :
    takeSignificand start cs = (Nat.ofDigitChars 10 cs start, []) := by
  induction cs generalizing start with
  | nil => rfl
  | cons c cs ih =>
    rw [Nat.ofDigitChars_cons] at h ⊢
    rw [takeSignificand, if_pos (Nat.le_trans (le_ofDigitChars cs _) h)]
    exact ih h

/-- Of digits without a number that fits, so many are taken that their number does. -/
theorem takeSignificand_le {cs : List Char} {start : Nat} (h : start ≤ Number.maxUnsigned 64) :
    (takeSignificand start cs).1 ≤ Number.maxUnsigned 64 := by
  induction cs generalizing start with
  | nil => exact h
  | cons c cs ih =>
    rw [takeSignificand]
    split
    · next hnext => exact ih hnext
    · exact h

/-- The digits of a positive natural do not begin with a zero. -/
theorem exists_toDigits_cons {n : Nat} (h : 0 < n) :
    ∃ c cs, Nat.toDigits 10 n = c :: cs ∧ c ≠ '0' := by
  induction n using Nat.strongRecOn with
  | ind n ih =>
    by_cases hsmall : n < 10
    · rw [Nat.toDigits_of_lt_base hsmall]
      refine ⟨_, [], rfl, ?_⟩
      have hdigit : ∀ k < 10, 0 < k → Nat.digitChar k ≠ '0' := by decide
      exact hdigit n hsmall h
    · obtain ⟨c, cs, heq, hc⟩ := ih (n / 10) (by omega) (by omega)
      rw [Nat.toDigits_of_base_le (by decide) (by omega), heq]
      exact ⟨c, _, rfl, hc⟩

theorem takeWhole?_toDigits (n : Nat) :
    takeWhole? (Nat.toDigits 10 n) = some (Nat.toDigits 10 n, []) := by
  rcases Nat.eq_zero_or_pos n with rfl | hpos
  · rfl
  · obtain ⟨c, cs, heq, hc⟩ := exists_toDigits_cons hpos
    have hdigits : ∀ d ∈ Nat.toDigits 10 n, isDigit d = true := fun d => isDigit_of_mem_toDigits
    have htake : takeDigits (c :: cs) = (c :: cs, []) := by
      rw [heq] at hdigits
      rw [takeDigits, List.takeWhile_eq_self_iff.2 hdigits, List.dropWhile_eq_nil_iff.2 hdigits]
    rw [heq, takeWhole?]
    · rw [htake]
      rfl
    · exact fun tail hcons => hc (List.cons.inj hcons).1

theorem toList_toString (value : Int) : (toString value).toList =
    if 0 ≤ value then Nat.toDigits 10 value.toNat else '-' :: Nat.toDigits 10 (-value).toNat := by
  rw [Int.toString_eq_repr, Int.repr_eq_if]
  split
  · exact Nat.toList_repr
  · rw [String.toList_append, Nat.toList_repr]
    rfl

theorem numberParts?_toDigits (negative : Bool) (n : Nat) :
    numberParts? negative (Nat.toDigits 10 n) =
      some (⟨negative, Nat.toDigits 10 n, none, none⟩, []) := by
  rw [numberParts?, takeWhole?_toDigits]
  rfl

theorem takeNumber?_toString (value : Int) : takeNumber? (toString value).toList =
    some (⟨value < 0, Nat.toDigits 10 value.natAbs, none, none⟩, []) := by
  rw [toList_toString]
  split
  · next hsign =>
    have habs : value.toNat = value.natAbs := by omega
    have hpositive : decide (value < 0) = false := decide_eq_false (by omega)
    rw [habs, hpositive, ← numberParts?_toDigits]
    cases hdigits : Nat.toDigits 10 value.natAbs with
    | nil => exact absurd hdigits Nat.toDigits_ne_nil
    | cons c cs =>
      refine takeNumber?_cons ?_ cs
      rintro rfl
      exact absurd (isDigit_of_mem_toDigits (hdigits ▸ List.mem_cons_self ..)) (by decide)
  · next hsign =>
    have habs : (-value).toNat = value.natAbs := by omega
    have hnegative : decide (value < 0) = true := decide_eq_true (by omega)
    rw [habs, hnegative, ← numberParts?_toDigits]
    rfl

/-- An integer of sixty-four bits is read as it is written. -/
theorem legible_integer {value : Int} (h : Number.fits value = true) :
    Legible (.integer value) := by
  have hfits : -(Nat.pow 2 63 : Int) ≤ value ∧ value < (Nat.pow 2 64 : Int) := by
    simpa [Number.fits] using h
  have hbits : (Nat.pow 2 63 : Int) = 9223372036854775808 ∧
      (Nat.pow 2 64 : Int) = 18446744073709551616 ∧
      Number.maxUnsigned 64 = 18446744073709551615 := ⟨rfl, rfl, rfl⟩
  have hsignificand : takeSignificand 0 (Nat.toDigits 10 value.natAbs) = (value.natAbs, []) := by
    rw [takeSignificand_eq] <;> rw [Nat.ofDigitChars_ten_toDigits]
    omega
  refine legible_of_takeNumber? (takeNumber?_toString value) ?_
  rw [NumberText.value, hsignificand]
  by_cases hsign : value < 0
  · have hpositive : 0 < value.natAbs := by omega
    have hbound : value.natAbs ≤ Nat.pow 2 63 := by
      have : Nat.pow 2 63 = 9223372036854775808 := rfl
      omega
    have hback : -(value.natAbs : Int) = value := by omega
    generalize value.natAbs = magnitude at hpositive hbound hback ⊢
    simp [hsign, hpositive, hbound, hback]
  · have hback : (value.natAbs : Int) = value := by omega
    generalize value.natAbs = magnitude at hback ⊢
    simp [hsign, hback]

/-- An integer that a text stands for has sixty-four bits. -/
theorem fits_of_value {text : NumberText} {value : Int} (h : text.value = .integer value) :
    Number.fits value = true := by
  have hbits : (Nat.pow 2 63 : Int) = 9223372036854775808 ∧
      (Nat.pow 2 64 : Int) = 18446744073709551616 ∧
      Number.maxUnsigned 64 = 18446744073709551615 ∧
      Nat.pow 2 63 = 9223372036854775808 := ⟨rfl, rfl, rfl, rfl⟩
  have htaken : (takeSignificand 0 text.whole).1 ≤ Number.maxUnsigned 64 :=
    takeSignificand_le (Nat.zero_le _)
  simp only [NumberText.value] at h
  split at h
  · obtain rfl := Number.integer.inj h
    simp only [Number.fits, Bool.and_eq_true, decide_eq_true_eq]
    omega
  split at h
  · next hrange =>
    simp only [Bool.and_eq_true, decide_eq_true_eq] at hrange
    obtain rfl := Number.integer.inj h
    simp only [Number.fits, Bool.and_eq_true, decide_eq_true_eq]
    omega
  · cases h

/-- Where no array or object may be opened, a number that is read has a text. -/
theorem exists_text_of_takeValue? {fuel : Nat} {cs rest : List Char} {n : Number}
    (h : takeValue? (fuel + 1) 0 cs = some (.number n, rest)) :
    ∃ text : NumberText, text.value = n := by
  rw [takeValue?] at h
  split at h
  case h_7 =>
    obtain ⟨⟨text, left⟩, -, heq⟩ := Option.map_eq_some_iff.1 h
    exact ⟨text, by simpa using (Prod.mk.inj heq).1⟩
  all_goals
    first
    | cases h
    | obtain ⟨_, -, heq⟩ := Option.map_eq_some_iff.1 h
      cases heq

/-- Integers are read as they are written just if they have sixty-four bits. -/
theorem legible_integer_iff {value : Int} :
    Legible (.integer value) ↔ Number.fits value = true := by
  refine ⟨fun h => ?_, legible_integer⟩
  obtain ⟨text, htext⟩ := exists_text_of_takeValue? (h 0 0 [] nofun)
  exact fits_of_value htext

end Converge.Json
