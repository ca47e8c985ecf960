import Converge.Proofs.Json.Compact
import Mathlib.Data.List.Induction

/-!
# Compact documents one after the other

The compact forms of several objects, one right after the other, give their beginnings away even when
it is not known where the first one begins: no compact form of an object is the end of another one. A
scanner shows it, which counts open brackets outside of quotes. What it meets outside of quotes when
it starts at the beginning of a text, it meets inside of quotes when it starts there with the quotes
open, so that at most one of the two ends outside of quotes.

Main statement: `Json.exists_split`.
-/

namespace Converge.Json

/-! ## The scanner -/

/-- Where in a document a scanner is. -/
inductive Phase where
  | plain
  | quoted
  /-- Behind a backslash, inside of quotes. -/
  | escaped
deriving DecidableEq

/-- What a scanner knows of the characters it has met. -/
structure Scanner where
  phase : Phase
  /-- Number of brackets that are open. -/
  depth : Nat

namespace Scanner

/-- The scanner after one more character. Outside of quotes there is no backslash. -/
def step (s : Scanner) (c : Char) : Option Scanner :=
  match s.phase with
  | .plain =>
    if c = '"' then some ⟨.quoted, s.depth⟩
    else if c = '\\' then none
    else if c = '[' ∨ c = '\x7b' then some ⟨.plain, s.depth + 1⟩
    else if c = ']' ∨ c = '\x7d' then some ⟨.plain, s.depth - 1⟩
    else some s
  | .quoted =>
    if c = '"' then some ⟨.plain, s.depth⟩
    else if c = '\\' then some ⟨.escaped, s.depth⟩
    else some s
  | .escaped => some ⟨.quoted, s.depth⟩

/-- The scanner after a list of characters. -/
def run (s : Scanner) (cs : List Char) : Option Scanner := cs.foldlM step s

variable {s t s' t' : Scanner} {cs : List Char} {n m : Nat}

@[simp] theorem run_nil (s : Scanner) : s.run [] = some s := rfl

@[simp] theorem run_cons (s : Scanner) (c : Char) (cs : List Char) :
    s.run (c :: cs) = (s.step c).bind fun next => next.run cs := rfl

@[simp] theorem run_append (s : Scanner) (cs more : List Char) :
    s.run (cs ++ more) = (s.run cs).bind fun next => next.run more := List.foldlM_append ..

/-! ## Opposite phases -/

/-- Whether one of two scanners is outside of quotes and the other one inside. -/
def Opposed (s t : Scanner) : Prop :=
  (s.phase = .plain ∧ t.phase = .quoted) ∨ (s.phase = .quoted ∧ t.phase = .plain)

/-- A character that begins a quotation for the one ends it for the other. -/
theorem opposed_of_step (hplain : s.phase = .plain) (hquoted : t.phase = .quoted) {c : Char}
    (hs : s.step c = some s') (ht : t.step c = some t') :
    (s'.phase = .plain ∧ t'.phase = .quoted) ∨ (s'.phase = .quoted ∧ t'.phase = .plain) := by
  simp only [step, hplain] at hs
  simp only [step, hquoted] at ht
  by_cases hquote : c = '"'
  · rw [if_pos hquote] at hs ht
    cases hs
    cases ht
    exact .inr ⟨rfl, rfl⟩
  rw [if_neg hquote] at hs ht
  by_cases hescape : c = '\\'
  · rw [if_pos hescape] at hs
    cases hs
  rw [if_neg hescape] at hs ht
  cases ht
  split at hs
  · cases hs
    exact .inl ⟨rfl, hquoted⟩
  split at hs
  · cases hs
    exact .inl ⟨rfl, hquoted⟩
  · cases hs
    exact .inl ⟨hplain, hquoted⟩

theorem Opposed.step (h : s.Opposed t) {c : Char} (hs : s.step c = some s')
    (ht : t.step c = some t') : s'.Opposed t' := by
  rcases h with ⟨hplain, hquoted⟩ | ⟨hquoted, hplain⟩
  · exact opposed_of_step hplain hquoted hs ht
  · exact (opposed_of_step hplain hquoted ht hs).symm.imp And.symm And.symm

theorem Opposed.run (h : s.Opposed t) (hs : s.run cs = some s') (ht : t.run cs = some t') :
    s'.Opposed t' := by
  induction cs generalizing s t with
  | nil =>
    obtain rfl := Option.some.inj hs
    obtain rfl := Option.some.inj ht
    exact h
  | cons c cs ih =>
    obtain ⟨next, hnext, hs⟩ := Option.bind_eq_some_iff.1 hs
    obtain ⟨next', hnext', ht⟩ := Option.bind_eq_some_iff.1 ht
    exact ih (h.step hnext hnext') hs ht

theorem Opposed.not_plain (h : s.Opposed t) (hs : s.phase = .plain) : t.phase ≠ .plain := by
  rcases h with ⟨-, ht⟩ | ⟨hs', -⟩
  · simp [ht]
  · simp [hs] at hs'

/-! ## Compact forms -/

/-- Whether a scanner that is outside of quotes is as it was after some characters. -/
def Skips (cs : List Char) : Prop := ∀ n, run ⟨.plain, n⟩ cs = some ⟨.plain, n⟩

theorem Skips.append {cs more : List Char} (h : Skips cs) (hmore : Skips more) :
    Skips (cs ++ more) := fun n => by
  rw [run_append, h n, Option.bind_some, hmore n]

theorem skips_nil : Skips [] := fun _ => rfl

/-- Whether a character means nothing to a scanner outside of quotes. -/
def isInert (c : Char) : Bool :=
  c != '"' && c != '\\' && c != '[' && c != '\x7b' && c != ']' && c != '\x7d'

theorem skips_of_isInert (h : ∀ c ∈ cs, isInert c = true) : Skips cs := by
  induction cs with
  | nil => exact skips_nil
  | cons c cs ih =>
    obtain ⟨hc, hcs⟩ := List.forall_mem_cons.1 h
    intro n
    have hstep : step ⟨.plain, n⟩ c = some ⟨.plain, n⟩ := by
      simp only [isInert, Bool.and_eq_true, bne_iff_ne] at hc
      simp [step, hc]
    rw [run_cons, hstep, Option.bind_some, ih hcs n]

theorem run_escapeChar (c : Char) (n : Nat) :
    run ⟨.quoted, n⟩ (escapeChar c).toList = some ⟨.quoted, n⟩ := by
  unfold escapeChar
  split
  all_goals try rfl
  next hquote hescape _ _ _ _ _ =>
  have hletter : ∀ c, c ≠ '"' → c ≠ '\\' → step ⟨.quoted, n⟩ c = some ⟨.quoted, n⟩ := by
    intro c hquote hescape
    simp only [step, if_neg hquote, if_neg hescape]
  split
  · have hdigit : ∀ d < 16, hexDigit d ≠ '"' ∧ hexDigit d ≠ '\\' := by decide
    obtain ⟨hhigh, hhigh'⟩ := hdigit (c.toNat / 16) (by omega)
    obtain ⟨hlow, hlow'⟩ := hdigit (c.toNat % 16) (by omega)
    have hunicode : run ⟨.quoted, n⟩ "\\u00".toList = some ⟨.quoted, n⟩ := rfl
    rw [String.toList_append, run_append, hunicode, Option.bind_some, String.toList_ofList, run_cons,
      hletter _ hhigh hhigh', Option.bind_some, run_cons, hletter _ hlow hlow', Option.bind_some,
      run_nil]
  · rw [String.toList_singleton, run_cons, hletter c hquote hescape, Option.bind_some, run_nil]

theorem run_escaped (cs : List Char) (n : Nat) :
    run ⟨.quoted, n⟩ (escaped cs) = some ⟨.quoted, n⟩ := by
  induction cs with
  | nil => rfl
  | cons c cs ih =>
    rw [escaped, List.flatMap_cons, run_append, run_escapeChar, Option.bind_some]
    exact ih

theorem skips_quoted (cs : List Char) : Skips ('"' :: (escaped cs ++ ['"'])) := by
  intro n
  have hopen : step ⟨.plain, n⟩ '"' = some ⟨.quoted, n⟩ := rfl
  rw [run_cons, hopen, Option.bind_some, run_append, run_escaped, Option.bind_some]
  rfl

theorem skips_flatMap {α : Type} {write : α → List Char} {items : List α}
    (h : ∀ item ∈ items, Skips (write item)) :
    Skips (items.flatMap fun item => ',' :: write item) := by
  induction items with
  | nil => exact skips_nil
  | cons item items ih =>
    obtain ⟨hitem, hitems⟩ := List.forall_mem_cons.1 h
    rw [List.flatMap_cons]
    have hcomma : Skips [','] := fun _ => rfl
    exact (hcomma.append hitem).append (ih hitems)

theorem skips_commaSeparated {α : Type} {write : α → List Char} {items : List α}
    (h : ∀ item ∈ items, Skips (write item)) : Skips (commaSeparated write items) := by
  cases items with
  | nil => exact skips_nil
  | cons item items =>
    obtain ⟨hitem, hitems⟩ := List.forall_mem_cons.1 h
    exact hitem.append (skips_flatMap hitems)

/-- What is opened is closed again. -/
theorem Skips.bracketed {opening closing : Char} {cs : List Char} (h : Skips cs)
    (hopening : ∀ n, step ⟨.plain, n⟩ opening = some ⟨.plain, n + 1⟩)
    (hclosing : ∀ n, step ⟨.plain, n + 1⟩ closing = some ⟨.plain, n⟩) :
    Skips (opening :: (cs ++ [closing])) := fun n => by
  rw [run_cons, hopening, Option.bind_some, run_append, h, Option.bind_some, run_cons, hclosing,
    Option.bind_some, run_nil]

theorem isInert_of_isNumeric {c : Char} (h : isNumeric c = true) : isInert c = true := by
  have hother : ∀ d, isNumeric d = false → c ≠ d := fun _ => ne_of_isNumeric h
  simp only [isInert, Bool.and_eq_true, bne_iff_ne]
  exact ⟨⟨⟨⟨⟨hother _ rfl, hother _ rfl⟩, hother _ rfl⟩, hother _ rfl⟩, hother _ rfl⟩, hother _ rfl⟩

theorem skips_compactField {field : String × Json} (h : Skips field.2.compactChars) :
    Skips (compactField field) := by
  have hname := skips_quoted field.1.toList
  have hcolon : Skips [':'] := fun _ => rfl
  simpa [compactField] using (hname.append hcolon).append h

/-- The compact form of a finite value closes what it opens. -/
theorem skips_compactChars {value : Json} (h : value.isFinite = true) : Skips value.compactChars := by
  induction value using induct with
  | null => exact skips_of_isInert (List.all_eq_true.1 rfl)
  | bool value => cases value <;> exact skips_of_isInert (List.all_eq_true.1 rfl)
  | number n =>
    rw [compactChars_number]
    exact skips_of_isInert fun c hc => isInert_of_isNumeric ((isNumeric_render h).2 c hc)
  | string text =>
    rw [compactChars_string]
    exact skips_quoted _
  | array items ih =>
    rw [isFinite, areFinite_iff] at h
    rw [compactChars_array]
    have hitems := skips_commaSeparated fun item hitem => ih item hitem (h item hitem)
    exact hitems.bracketed (fun _ => rfl) fun _ => rfl
  | object fields ih =>
    rw [isFinite, fieldsAreFinite_iff] at h
    rw [compactChars_object]
    have hfields := skips_commaSeparated fun field hfield =>
      skips_compactField (ih field hfield (h field hfield))
    exact hfields.bracketed (fun _ => rfl) fun _ => rfl

end Scanner

/-! ## Objects one after the other -/

open Scanner in
/-- The compact form of an object is the end of no longer one. -/
theorem eq_nil_of_compactChars_eq {fields fields' : List (String × Json)}
    (h : (Json.object fields).isFinite = true) (h' : (Json.object fields').isFinite = true)
    {before : List Char}
    (heq : compactChars (.object fields) = before ++ compactChars (.object fields')) :
    before = [] := by
  rw [isFinite, fieldsAreFinite_iff] at h h'
  rw [compactChars_object, compactChars_object] at heq
  have hinner : Skips (commaSeparated compactField fields) := skips_commaSeparated
    fun field hfield => skips_compactField (skips_compactChars (h field hfield))
  have hinner' : Skips (commaSeparated compactField fields') := skips_commaSeparated
    fun field hfield => skips_compactField (skips_compactChars (h' field hfield))
  cases before with
  | nil => rfl
  | cons c before =>
    exfalso
    have htail : commaSeparated compactField fields ++ ['\x7d'] =
        (before ++ '\x7b' :: commaSeparated compactField fields') ++ ['\x7d'] := by
      rw [List.append_assoc]
      exact (List.cons.inj heq).2
    -- The whole is scanned from the outermost bracket on, the later object from within it.
    have hrun := hinner 0
    rw [List.append_cancel_right htail, run_append] at hrun
    obtain ⟨s, -, hrun⟩ := Option.bind_eq_some_iff.1 hrun
    obtain ⟨next, hnext, hrun⟩ := Option.bind_eq_some_iff.1 hrun
    have hplain : ∀ n, step ⟨.plain, n⟩ '\x7b' = some ⟨.plain, n + 1⟩ := fun _ => rfl
    have hquoted : ¬ Opposed next ⟨.plain, 0⟩ := fun hopposed =>
      (hopposed.run hrun (hinner' 0)).not_plain rfl rfl
    obtain ⟨phase, n⟩ := s
    cases phase with
    | plain =>
      obtain rfl := Option.some.inj hnext
      have hdepth := (hinner' _).symm.trans hrun
      cases hdepth
    | quoted =>
      obtain rfl := Option.some.inj hnext
      exact hquoted (.inr ⟨rfl, rfl⟩)
    | escaped =>
      obtain rfl := Option.some.inj hnext
      exact hquoted (.inr ⟨rfl, rfl⟩)

/-- Whether a document is an object of finite numbers. -/
def IsRecord (value : Json) : Prop := ∃ fields, value = .object fields ∧ value.isFinite = true

/-- Objects one after the other give themselves away from the end on: what stands before the same
text is the beginning of the longer list. -/
theorem exists_split {docs docs' : List Json} {before : List Char}
    (h : ∀ doc ∈ docs, doc.IsRecord) (h' : ∀ doc ∈ docs', doc.IsRecord)
    (heq : docs.flatMap compactChars = before ++ docs'.flatMap compactChars) :
    ∃ front back, docs = front ++ back ∧ front.flatMap compactChars = before ∧
      back.map compact = docs'.map compact := by
  induction docs' using List.reverseRecOn generalizing docs with
  | nil => exact ⟨docs, [], by simp, by simpa using heq, rfl⟩
  | append_singleton docs' last' ih =>
    obtain ⟨hfirst', hlast'⟩ := List.forall_mem_append.1 h'
    obtain ⟨fields', rfl, hfinite'⟩ := hlast' _ (List.mem_singleton_self _)
    rw [List.flatMap_append, List.flatMap_singleton, ← List.append_assoc] at heq
    rcases List.eq_nil_or_concat' docs with rfl | ⟨docs, last, rfl⟩
    · simp at heq
    obtain ⟨hfirst, hlast⟩ := List.forall_mem_append.1 h
    obtain ⟨fields, rfl, hfinite⟩ := hlast _ (List.mem_singleton_self _)
    rw [List.flatMap_append, List.flatMap_singleton] at heq
    have hcancel : docs.flatMap compactChars = before ++ docs'.flatMap compactChars ∧
        compactChars (.object fields) = compactChars (.object fields') := by
      rcases List.append_eq_append_iff.1 heq with ⟨more, hdocs, hlast⟩ | ⟨more, hdocs, hlast⟩
      · obtain rfl := eq_nil_of_compactChars_eq hfinite hfinite' hlast
        exact ⟨by simpa using hdocs.symm, hlast⟩
      · obtain rfl := eq_nil_of_compactChars_eq hfinite' hfinite hlast
        exact ⟨by simpa using hdocs, hlast.symm⟩
    obtain ⟨front, back, rfl, hfront, hback⟩ := ih hfirst hfirst' hcancel.1
    refine ⟨front, back ++ [.object fields], by simp, hfront, ?_⟩
    rw [List.map_append, List.map_append, hback, List.map_singleton, List.map_singleton,
      String.toList_inj.1 hcancel.2]

end Converge.Json
