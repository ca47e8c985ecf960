import Converge.Proofs.Json.Number
import Converge.Proofs.Json.Storable

/-!
# Compact documents

The compact form of a finite value gives the value away, but for numbers that are written alike: no
two other values have the same compact form, and none has one that goes on where another one ends.

Main statements: `Json.peel` and `Json.compact_eq_iff`.
-/

namespace Converge

/-- Whether two entries have one name, and values that `R` relates. -/
inductive SameName {α β : Type} (R : α → β → Prop) : String × α → String × β → Prop
  | intro (name : String) {a : α} {b : β} (related : R a b) : SameName R (name, a) (name, b)

theorem sameName_iff {α β : Type} {R : α → β → Prop} {x : String × α} {y : String × β} :
    SameName R x y ↔ x.1 = y.1 ∧ R x.2 y.2 := by
  constructor
  · rintro ⟨name, hrelated⟩
    exact ⟨rfl, hrelated⟩
  · obtain ⟨name, a⟩ := x
    obtain ⟨name', b⟩ := y
    rintro ⟨rfl, hrelated⟩
    exact .intro name hrelated

theorem forall₂_congr_of_mem {α β : Type} {R S : α → β → Prop} {xs : List α} {ys : List β}
    (h : ∀ x ∈ xs, ∀ y ∈ ys, (R x y ↔ S x y)) : List.Forall₂ R xs ys ↔ List.Forall₂ S xs ys := by
  induction xs generalizing ys with
  | nil => simp
  | cons x xs ih =>
    cases ys with
    | nil => simp
    | cons y ys =>
      rw [List.forall₂_cons, List.forall₂_cons,
        h x (List.mem_cons_self ..) y (List.mem_cons_self ..),
        ih fun x hx y hy => h x (List.mem_cons_of_mem _ hx) y (List.mem_cons_of_mem _ hy)]

namespace Json

open Text

/-- Whether two values are the same but for their numbers, of which the texts are the same. -/
inductive Alike : Json → Json → Prop
  | null : Alike .null .null
  | bool (value : Bool) : Alike (.bool value) (.bool value)
  | number {n m : Number} (text : n.render = m.render) : Alike (.number n) (.number m)
  | string (value : String) : Alike (.string value) (.string value)
  | array {items items' : List Json} (all : List.Forall₂ Alike items items') :
      Alike (.array items) (.array items')
  | object {fields fields' : List (String × Json)}
      (all : List.Forall₂ (SameName Alike) fields fields') : Alike (.object fields) (.object fields')

/-! ### By shape -/

@[simp] theorem alike_string_iff {s t : String} : (Json.string s).Alike (.string t) ↔ s = t := by
  constructor
  · rintro ⟨⟩
    rfl
  · rintro rfl
    exact .string s

@[simp] theorem alike_array_iff {items items' : List Json} :
    (Json.array items).Alike (.array items') ↔ List.Forall₂ Alike items items' := by
  constructor
  · intro h
    cases h with | array all => exact all
  · exact .array

@[simp] theorem alike_object_iff {fields fields' : List (String × Json)} :
    (Json.object fields).Alike (.object fields') ↔ List.Forall₂ (SameName Alike) fields fields' := by
  constructor
  · intro h
    cases h with | object all => exact all
  · exact .object

theorem alike_ofStrings_iff {xs ys : List String} :
    (ofStrings xs).Alike (ofStrings ys) ↔ xs = ys := by
  rw [ofStrings, ofStrings, alike_array_iff, List.forall₂_map_left_iff, List.forall₂_map_right_iff]
  simp only [alike_string_iff, List.forall₂_eq_eq_eq]

theorem alike_ofTable_iff {α : Type} {encode : α → Json} {t u : Table α} :
    (ofTable encode t).Alike (ofTable encode u) ↔
      List.Forall₂ (SameName fun a b => (encode a).Alike (encode b)) t.entries u.entries := by
  rw [ofTable, ofTable, alike_object_iff, List.forall₂_map_left_iff, List.forall₂_map_right_iff]
  constructor
  all_goals
    refine fun h => h.imp fun x y hentry => ?_
    exact sameName_iff.2 ⟨(sameName_iff.1 hentry).1, (sameName_iff.1 hentry).2⟩

/-! ## The compact form as a list of characters -/

mutual

theorem writeCompact_eq (out : String) (value : Json) :
    value.writeCompact out = out ++ value.writeCompact "" := by
  match value with
  | .null => simp [writeCompact]
  | .bool true => simp [writeCompact]
  | .bool false => simp [writeCompact]
  | .number _ => simp [writeCompact]
  | .string _ => simp [writeCompact]
  | .array items =>
    rw [writeCompact, writeCompact, writeCompactItems_eq, writeCompactItems_eq ("" ++ "[")]
    simp [String.append_assoc]
  | .object fields =>
    rw [writeCompact, writeCompact, writeCompactFields_eq, writeCompactFields_eq ("" ++ "\x7b")]
    simp [String.append_assoc]

theorem writeCompactItems_eq (out : String) (first : Bool) (items : List Json) :
    writeCompactItems out first items = out ++ writeCompactItems "" first items := by
  match items with
  | [] => simp [writeCompactItems]
  | item :: rest =>
    rw [writeCompactItems, writeCompactItems, writeCompactItems_eq, writeCompact_eq,
      writeCompactItems_eq (item.writeCompact _), writeCompact_eq (if first then "" else _)]
    cases first <;> simp [String.append_assoc]

theorem writeCompactFields_eq (out : String) (first : Bool) (fields : List (String × Json)) :
    writeCompactFields out first fields = out ++ writeCompactFields "" first fields := by
  match fields with
  | [] => simp [writeCompactFields]
  | (name, value) :: rest =>
    rw [writeCompactFields, writeCompactFields, writeCompactFields_eq, writeCompact_eq,
      writeCompactFields_eq (value.writeCompact _), writeCompact_eq (_ ++ quote name ++ ":")]
    cases first <;> simp [String.append_assoc]

end

/-- The characters of the compact form. -/
def compactChars (value : Json) : List Char := value.compact.toList

/-- Texts one after the other, with commas between them. -/
def commaSeparated {α : Type} (write : α → List Char) : List α → List Char
  | [] => []
  | first :: rest => write first ++ rest.flatMap fun next => ',' :: write next

/-- The characters of a field. -/
def compactField (field : String × Json) : List Char :=
  '"' :: (escaped field.1.toList ++ '"' :: ':' :: field.2.compactChars)

theorem toList_writeCompactItems_false (items : List Json) :
    (writeCompactItems "" false items).toList =
      items.flatMap fun item => ',' :: item.compactChars := by
  induction items with
  | nil => rfl
  | cons item rest ih =>
    rw [writeCompactItems, writeCompactItems_eq, writeCompact_eq]
    simp [ih, compactChars, compact]

theorem toList_writeCompactItems (items : List Json) :
    (writeCompactItems "" true items).toList = commaSeparated compactChars items := by
  cases items with
  | nil => rfl
  | cons item rest =>
    rw [writeCompactItems, writeCompactItems_eq, String.toList_append,
      toList_writeCompactItems_false]
    rfl

theorem toList_writeCompactFields_false (fields : List (String × Json)) :
    (writeCompactFields "" false fields).toList =
      fields.flatMap fun field => ',' :: compactField field := by
  induction fields with
  | nil => rfl
  | cons field rest ih =>
    rw [writeCompactFields, writeCompactFields_eq, writeCompact_eq]
    simp [ih, compactField, compactChars, compact, toList_quote]

theorem toList_writeCompactFields (fields : List (String × Json)) :
    (writeCompactFields "" true fields).toList = commaSeparated compactField fields := by
  cases fields with
  | nil => rfl
  | cons field rest =>
    rw [writeCompactFields, writeCompactFields_eq, writeCompact_eq, String.toList_append,
      toList_writeCompactFields_false]
    simp [commaSeparated, compactField, compactChars, compact, toList_quote]

@[simp] theorem compactChars_null : compactChars .null = ['n', 'u', 'l', 'l'] := rfl

@[simp] theorem compactChars_true : compactChars (.bool true) = ['t', 'r', 'u', 'e'] := rfl

@[simp] theorem compactChars_false : compactChars (.bool false) = ['f', 'a', 'l', 's', 'e'] := rfl

@[simp] theorem compactChars_number (n : Number) : compactChars (.number n) = n.render.toList := by
  simp [compactChars, compact, writeCompact]

@[simp] theorem compactChars_string (text : String) :
    compactChars (.string text) = '"' :: (escaped text.toList ++ ['"']) := by
  simp [compactChars, compact, writeCompact, toList_quote]

@[simp] theorem compactChars_array (items : List Json) :
    compactChars (.array items) = '[' :: (commaSeparated compactChars items ++ [']']) := by
  rw [compactChars, compact, writeCompact, writeCompactItems_eq]
  simp [toList_writeCompactItems]

@[simp] theorem compactChars_object (fields : List (String × Json)) :
    compactChars (.object fields) = '\x7b' :: (commaSeparated compactField fields ++ ['\x7d']) := by
  rw [compactChars, compact, writeCompact, writeCompactFields_eq]
  simp [toList_writeCompactFields]

/-! ## The texts of numbers -/

/-- Whether a character can stand in the text of a number. -/
def isNumeric (c : Char) : Bool := isDigit c || c == '-' || c == '.' || c == 'e' || c == '+'

theorem ne_of_isNumeric {c d : Char} (h : isNumeric c = true) (hd : isNumeric d = false) : c ≠ d := by
  rintro rfl
  exact absurd (hd.symm.trans h) (by decide)

theorem isNumeric_of_isDigit {c : Char} (h : isDigit c = true) : isNumeric c = true := by
  simp [isNumeric, h]

theorem isNumeric_toString (n : Nat) : ∀ c ∈ (toString n).toList, isNumeric c = true := by
  intro c hc
  have hdigits : c ∈ Nat.toDigits 10 n := by simpa [Nat.toList_repr, toString] using hc
  exact isNumeric_of_isDigit (isDigit_of_mem_toDigits hdigits)

theorem isNumeric_positionalOrScientific (digits : Nat) (e : Int) :
    ∀ c ∈ (Double.positionalOrScientific digits e).toList, isNumeric c = true := by
  have hdigits := isNumeric_toString digits
  have hexponent (n : Nat) := isNumeric_toString n
  have hzeros (n : Nat) : ∀ c ∈ List.replicate n '0', isNumeric c = true := by
    intro c hc
    obtain rfl := List.eq_of_mem_replicate hc
    rfl
  have htake (n : Nat) : ∀ c ∈ (toString digits).toList.take n, isNumeric c = true := fun c hc =>
    hdigits c (List.mem_of_mem_take hc)
  have hdrop (n : Nat) : ∀ c ∈ (toString digits).toList.drop n, isNumeric c = true := fun c hc =>
    hdigits c (List.mem_of_mem_drop hc)
  unfold Double.positionalOrScientific
  simp only
  split
  · split
    · simp only [String.toList_append, String.toList_ofList, List.forall_mem_append]
      exact ⟨⟨hdigits, hzeros _⟩, List.all_eq_true.1 rfl⟩
    split
    · simp only [String.toList_append, String.toList_ofList, List.forall_mem_append]
      exact ⟨⟨htake _, List.all_eq_true.1 rfl⟩, hdrop _⟩
    · simp only [String.toList_append, String.toList_ofList, List.forall_mem_append]
      exact ⟨⟨List.all_eq_true.1 rfl, hzeros _⟩, hdigits⟩
  · simp only [String.toList_append, List.forall_mem_append]
    refine ⟨⟨⟨?_, List.all_eq_true.1 rfl⟩, ?_⟩, hexponent _⟩
    · split
      · simp
      · next digit heq =>
        rw [heq] at hdigits
        rwa [String.toList_singleton]
      · next digit rest _ heq =>
        rw [heq, List.forall_mem_cons] at hdigits
        simp only [String.toList_append, String.toList_ofList, String.toList_singleton,
          List.forall_mem_append, List.forall_mem_singleton]
        exact ⟨⟨hdigits.1, List.all_eq_true.1 rfl⟩, hdigits.2⟩
    · split <;> exact List.all_eq_true.1 rfl

theorem positionalOrScientific_ne_nil (digits : Nat) (e : Int) :
    (Double.positionalOrScientific digits e).toList ≠ [] := by
  unfold Double.positionalOrScientific
  simp only
  split
  · split
    · simp
    split <;> simp
  · simp

/-- The text of a finite number is made of the characters of numbers, and there is one. -/
theorem isNumeric_render {n : Number} (h : n.isFinite = true) :
    n.render.toList ≠ [] ∧ ∀ c ∈ n.render.toList, isNumeric c = true := by
  cases n with
  | integer value =>
    rw [Number.render, toList_toString]
    have hdigits (n : Nat) : ∀ c ∈ Nat.toDigits 10 n, isNumeric c = true := fun c hc =>
      isNumeric_of_isDigit (isDigit_of_mem_toDigits hc)
    split
    · exact ⟨Nat.toDigits_ne_nil, hdigits _⟩
    · exact ⟨by simp, List.forall_mem_cons.2 ⟨rfl, hdigits _⟩⟩
  | double x =>
    rw [Number.isFinite] at h
    rw [Number.render, if_pos h, Double.render]
    have hsign : ∀ c ∈ (if x.isNegative then "-" else "").toList, isNumeric c = true := by
      split <;> exact List.all_eq_true.1 rfl
    simp only
    split
    · simp only [String.toList_append, List.forall_mem_append]
      exact ⟨by simp, hsign, List.all_eq_true.1 rfl⟩
    · simp only [String.toList_append, List.forall_mem_append]
      exact ⟨List.append_ne_nil_of_right_ne_nil _ (positionalOrScientific_ne_nil _ _), hsign,
        isNumeric_positionalOrScientific _ _⟩

/-! ## Where texts end -/

/-- Two lists of items with a property, each before something that begins without it, are the same if
the whole is. -/
theorem append_inj_of_all {α : Type} {p : α → Bool} {xs ys rest rest' : List α}
    (hxs : ∀ x ∈ xs, p x = true) (hys : ∀ y ∈ ys, p y = true)
    (hrest : ∀ x tail, rest = x :: tail → p x = false)
    (hrest' : ∀ x tail, rest' = x :: tail → p x = false) (h : xs ++ rest = ys ++ rest') :
    xs = ys ∧ rest = rest' := by
  have hnone : ∀ l : List α, (∀ x tail, l = x :: tail → p x = false) → l.takeWhile p = [] := by
    rintro (_ | ⟨x, tail⟩) hl
    · rfl
    · simp [hl x tail rfl]
  have htake := congrArg (List.takeWhile p) h
  rw [List.takeWhile_append_of_pos hxs, List.takeWhile_append_of_pos hys, hnone _ hrest,
    hnone _ hrest', List.append_nil, List.append_nil] at htake
  subst htake
  exact ⟨rfl, List.append_cancel_left h⟩

/-- What kind of value it is that a text begins with. -/
inductive Shape where
  | null
  | bool
  | number
  | text
  | list
  | record
deriving DecidableEq

/-- The shape of the values whose text begins with a character. -/
def Shape.ofFirst (c : Char) : Shape :=
  if c = 'n' then .null else if c = 't' ∨ c = 'f' then .bool else if c = '"' then .text
  else if c = '[' then .list else if c = '\x7b' then .record else .number

def shape : Json → Shape
  | .null => .null
  | .bool _ => .bool
  | .number _ => .number
  | .string _ => .text
  | .array _ => .list
  | .object _ => .record

/-- Whether a text begins with a character that ends no array and no object. -/
def Opens (cs : List Char) : Prop := ∃ c tail, cs = c :: tail ∧ c ≠ ']' ∧ c ≠ '\x7d'

theorem first_of_isNumeric {c : Char} (h : isNumeric c = true) :
    Shape.ofFirst c = .number ∧ c ≠ ']' ∧ c ≠ '\x7d' := by
  have hother : ∀ d, isNumeric d = false → c ≠ d := fun _ => ne_of_isNumeric h
  refine ⟨?_, hother _ rfl, hother _ rfl⟩
  simp only [Shape.ofFirst, hother 'n' rfl, hother 't' rfl, hother 'f' rfl, hother '"' rfl,
    hother '[' rfl, hother '\x7b' rfl, or_self, if_false]

theorem exists_first {value : Json} (h : value.isFinite = true) :
    ∃ c tail, value.compactChars = c :: tail ∧ Shape.ofFirst c = value.shape ∧
      c ≠ ']' ∧ c ≠ '\x7d' := by
  cases value with
  | null => exact ⟨_, _, rfl, by decide⟩
  | bool value => cases value <;> exact ⟨_, _, rfl, by decide⟩
  | number n =>
    obtain ⟨hne, hall⟩ := isNumeric_render h
    obtain ⟨c, tail, heq⟩ := List.exists_cons_of_ne_nil hne
    exact ⟨c, tail, (compactChars_number n).trans heq, first_of_isNumeric (hall c (by simp [heq]))⟩
  | string text => exact ⟨_, _, compactChars_string text, rfl, by decide, by decide⟩
  | array items => exact ⟨_, _, compactChars_array items, rfl, by decide, by decide⟩
  | object fields => exact ⟨_, _, compactChars_object fields, rfl, by decide, by decide⟩

theorem opens_compactChars {value : Json} (h : value.isFinite = true) : Opens value.compactChars := by
  obtain ⟨c, tail, heq, -, hends⟩ := exists_first h
  exact ⟨c, tail, heq, hends⟩

/-! ## Reading a value off -/

theorem endsNumber_cons {c : Char} {rest : List Char} (h : c = ',' ∨ c = ']' ∨ c = '\x7d') :
    EndsNumber (c :: rest) := by
  rintro _ _ ⟨⟩
  tauto

/-- A quoted text gives itself away, and what stands behind it. -/
theorem peel_quoted {text text' : String} {rest rest' : List Char}
    (h : escaped text.toList ++ '"' :: rest = escaped text'.toList ++ '"' :: rest') :
    text = text' ∧ rest = rest' := by
  have htaken := takeQuoted?_quote text rest
  rw [h, takeQuoted?_quote] at htaken
  obtain ⟨rfl, rfl⟩ := Prod.mk.inj (Option.some.inj htaken)
  exact ⟨rfl, rfl⟩

section Separated

variable {α : Type} {write : α → List Char} {R : α → α → Prop} {closing : Char}
  {items items' : List α} {rest rest' : List Char}
  (hclosing : closing = ']' ∨ closing = '\x7d')
  (hpeel : ∀ item ∈ items, ∀ item' ∈ items', ∀ rest rest', EndsNumber rest → EndsNumber rest' →
    write item ++ rest = write item' ++ rest' → R item item' ∧ rest = rest')

include hclosing

theorem endsNumber_flatMap (items : List α) (rest : List Char) :
    EndsNumber ((items.flatMap fun next => ',' :: write next) ++ closing :: rest) := by
  cases items with
  | nil => exact endsNumber_cons (.inr hclosing)
  | cons item items => exact endsNumber_cons (.inl rfl)

include hpeel

theorem peel_more (h : (items.flatMap fun next => ',' :: write next) ++ closing :: rest =
      (items'.flatMap fun next => ',' :: write next) ++ closing :: rest') :
    List.Forall₂ R items items' ∧ rest = rest' := by
  have hcomma : closing ≠ ',' := by rcases hclosing with rfl | rfl <;> decide
  induction items generalizing items' with
  | nil =>
    cases items' with
    | nil => exact ⟨.nil, (List.cons.inj h).2⟩
    | cons item' items' => exact absurd (List.cons.inj h).1 hcomma
  | cons item items ih =>
    cases items' with
    | nil => exact absurd (List.cons.inj h).1.symm hcomma
    | cons item' items' =>
      simp only [List.flatMap_cons, List.cons_append, List.append_assoc] at h
      obtain ⟨hitem, hmore⟩ := hpeel item (List.mem_cons_self ..) item' (List.mem_cons_self ..) _ _
        (endsNumber_flatMap hclosing _ _) (endsNumber_flatMap hclosing _ _) (List.cons.inj h).2
      obtain ⟨hitems, hrest⟩ := ih (fun item hitem item' hitem' =>
        hpeel item (List.mem_cons_of_mem _ hitem) item' (List.mem_cons_of_mem _ hitem')) hmore
      exact ⟨.cons hitem hitems, hrest⟩

/-- Items between commas give themselves away up to what closes them, if each of them does. -/
theorem peel_commaSeparated (hopens : ∀ item ∈ items, Opens (write item))
    (hopens' : ∀ item ∈ items', Opens (write item))
    (h : commaSeparated write items ++ closing :: rest =
      commaSeparated write items' ++ closing :: rest') :
    List.Forall₂ R items items' ∧ rest = rest' := by
  have hnever : ∀ {item : α} {cs cs' : List Char}, Opens (write item) →
      closing :: cs ≠ write item ++ cs' := by
    rintro item cs cs' ⟨c, tail, heq, hlist, hrecord⟩ h
    rw [heq] at h
    obtain rfl := (List.cons.inj h).1
    exact hclosing.elim hlist hrecord
  cases items with
  | nil =>
    cases items' with
    | nil => exact ⟨.nil, (List.cons.inj h).2⟩
    | cons item' items' =>
      rw [commaSeparated, commaSeparated, List.append_assoc] at h
      exact absurd h (hnever (hopens' item' (List.mem_cons_self ..)))
  | cons item items =>
    cases items' with
    | nil =>
      rw [commaSeparated, commaSeparated, List.append_assoc] at h
      exact absurd h.symm (hnever (hopens item (List.mem_cons_self ..)))
    | cons item' items' =>
      rw [commaSeparated, commaSeparated, List.append_assoc, List.append_assoc] at h
      obtain ⟨hitem, hmore⟩ := hpeel item (List.mem_cons_self ..) item' (List.mem_cons_self ..) _ _
        (endsNumber_flatMap hclosing _ _) (endsNumber_flatMap hclosing _ _) h
      obtain ⟨hitems, hrest⟩ := peel_more hclosing (fun item hitem item' hitem' =>
        hpeel item (List.mem_cons_of_mem _ hitem) item' (List.mem_cons_of_mem _ hitem')) hmore
      exact ⟨.cons hitem hitems, hrest⟩

end Separated

theorem shape_eq_of_append {value value' : Json} (h : value.isFinite = true) (h' : value'.isFinite = true)
    {rest rest' : List Char} (heq : value.compactChars ++ rest = value'.compactChars ++ rest') :
    value.shape = value'.shape := by
  obtain ⟨c, tail, hc, hfirst, -⟩ := exists_first h
  obtain ⟨c', tail', hc', hfirst', -⟩ := exists_first h'
  rw [hc, hc'] at heq
  rw [← hfirst, ← hfirst', (List.cons.inj heq).1]

/-- The compact form of a finite value, before something that ends a number, gives away the value
and what stands behind it. -/
theorem peel {value value' : Json} (h : value.isFinite = true) (h' : value'.isFinite = true)
    {rest rest' : List Char} (hrest : EndsNumber rest) (hrest' : EndsNumber rest')
    (heq : value.compactChars ++ rest = value'.compactChars ++ rest') :
    value.Alike value' ∧ rest = rest' := by
  have hshape := shape_eq_of_append h h' heq
  induction value using induct generalizing value' rest rest' with
  | null =>
    cases value' <;> cases hshape
    exact ⟨.null, List.append_cancel_left heq⟩
  | bool value =>
    cases value' <;> cases hshape
    next value' =>
    obtain rfl : value = value' := by
      cases value <;> cases value' <;> first | rfl | simp at heq
    exact ⟨.bool value, List.append_cancel_left heq⟩
  | number n =>
    cases value' <;> cases hshape
    next n' =>
    have hends : ∀ {rest}, EndsNumber rest → ∀ c tail, rest = c :: tail → isNumeric c = false := by
      intro rest hrest c tail hcons
      rcases hrest c tail hcons with rfl | rfl | rfl | rfl <;> rfl
    rw [compactChars_number, compactChars_number] at heq
    obtain ⟨htext, hrests⟩ := append_inj_of_all (isNumeric_render h).2 (isNumeric_render h').2
      (hends hrest) (hends hrest') heq
    exact ⟨.number (String.toList_inj.1 htext), hrests⟩
  | string text =>
    cases value' <;> cases hshape
    next text' =>
    simp only [compactChars_string, List.cons_append, List.append_assoc, List.nil_append] at heq
    obtain ⟨rfl, hrests⟩ := peel_quoted (List.cons.inj heq).2
    exact ⟨.string text, hrests⟩
  | array items ih =>
    cases value' <;> cases hshape
    next items' =>
    rw [isFinite, areFinite_iff] at h h'
    simp only [compactChars_array, List.cons_append, List.append_assoc, List.nil_append] at heq
    obtain ⟨hall, hrests⟩ := peel_commaSeparated (.inl rfl)
      (fun item hitem item' hitem' _ _ hrest hrest' heq =>
        have hshape := shape_eq_of_append (h item hitem) (h' item' hitem') heq
        ih item hitem (h item hitem) (h' item' hitem') hrest hrest' heq hshape)
      (fun item hitem => opens_compactChars (h item hitem))
      (fun item hitem => opens_compactChars (h' item hitem)) (List.cons.inj heq).2
    exact ⟨.array hall, hrests⟩
  | object fields ih =>
    cases value' <;> cases hshape
    next fields' =>
    rw [isFinite, fieldsAreFinite_iff] at h h'
    simp only [compactChars_object, List.cons_append, List.append_assoc, List.nil_append] at heq
    have hpeel : ∀ field ∈ fields, ∀ field' ∈ fields', ∀ rest rest', EndsNumber rest →
        EndsNumber rest' → compactField field ++ rest = compactField field' ++ rest' →
        SameName Alike field field' ∧ rest = rest' := by
      rintro ⟨name, value⟩ hfield ⟨name', value'⟩ hfield' rest rest' hrest hrest' heq
      simp only [compactField, List.cons_append, List.append_assoc] at heq
      obtain ⟨rfl, hcolon⟩ := peel_quoted (List.cons.inj heq).2
      have hvalue := (List.cons.inj hcolon).2
      obtain ⟨halike, hrests⟩ := ih _ hfield (h _ hfield) (h' _ hfield') hrest hrest' hvalue
        (shape_eq_of_append (h _ hfield) (h' _ hfield') hvalue)
      exact ⟨.intro name halike, hrests⟩
    obtain ⟨hall, hrests⟩ := peel_commaSeparated (.inr rfl) hpeel
      (fun field hfield => ⟨_, _, rfl, by decide, by decide⟩)
      (fun field hfield => ⟨_, _, rfl, by decide, by decide⟩) (List.cons.inj heq).2
    exact ⟨.object hall, hrests⟩

theorem commaSeparated_eq {α : Type} (write : α → List Char) (items : List α) :
    commaSeparated write items = commaSeparated id (items.map write) := by
  cases items <;> simp [commaSeparated, List.flatMap_map]

theorem map_eq_of_forall₂ {α β : Type} {R : α → α → Prop} {f : α → β} {xs ys : List α}
    (h : List.Forall₂ R xs ys) (hf : ∀ x ∈ xs, ∀ y, R x y → f x = f y) : xs.map f = ys.map f := by
  induction h with
  | nil => rfl
  | cons hR _ ih =>
    obtain ⟨hfirst, hrest⟩ := List.forall_mem_cons.1 hf
    rw [List.map_cons, List.map_cons, hfirst _ hR, ih hrest]

theorem Alike.shape_eq {value value' : Json} (h : value.Alike value') :
    value.shape = value'.shape := by
  cases h <;> rfl

/-- Values that are alike are written alike. -/
theorem Alike.compactChars_eq {value value' : Json} (h : value.Alike value') :
    value.compactChars = value'.compactChars := by
  induction value using induct generalizing value' with
  | null => cases h; rfl
  | bool value => cases h; rfl
  | number n =>
    cases h with | number htext =>
    rw [compactChars_number, compactChars_number, htext]
  | string text => cases h; rfl
  | array items ih =>
    cases h with | array hall =>
    rw [compactChars_array, compactChars_array, commaSeparated_eq,
      map_eq_of_forall₂ hall fun item hitem _ => ih item hitem, ← commaSeparated_eq]
  | object fields ih =>
    cases h with | object hall =>
    have hfield : ∀ field ∈ fields, ∀ field', SameName Alike field field' →
        compactField field = compactField field' := by
      rintro _ hmem _ ⟨name, halike⟩
      rw [compactField, compactField, ih _ hmem halike]
    rw [compactChars_object, compactChars_object, commaSeparated_eq,
      map_eq_of_forall₂ hall hfield, ← commaSeparated_eq]

/-- Finite values have the same compact form just if they are alike. -/
theorem compact_eq_iff {value value' : Json} (h : value.isFinite = true)
    (h' : value'.isFinite = true) : value.compact = value'.compact ↔ value.Alike value' := by
  constructor
  · intro heq
    have hchars : value.compactChars ++ [] = value'.compactChars ++ [] := by
      rw [compactChars, compactChars, heq]
    have hends : EndsNumber [] := nofun
    exact (peel h h' hends hends hchars).1
  · exact fun halike => String.toList_inj.1 halike.compactChars_eq

/-- Finite values are written the same, each by itself, just if they are alike, one by one. -/
theorem map_compact_eq_iff {values values' : List Json} (h : ∀ value ∈ values, value.isFinite = true)
    (h' : ∀ value ∈ values', value.isFinite = true) :
    values.map compact = values'.map compact ↔ List.Forall₂ Alike values values' := by
  rw [← List.forall₂_eq_eq_eq, List.forall₂_map_left_iff, List.forall₂_map_right_iff]
  exact forall₂_congr_of_mem fun value hvalue value' hvalue' =>
    compact_eq_iff (h value hvalue) (h' value' hvalue')

end Json

end Converge
