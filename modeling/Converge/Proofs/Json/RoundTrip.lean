import Converge.Json.Reader
import Converge.Json.Writer

/-!
# Written documents read back

The pretty form of a value is read as that value, if it does not nest too deep and its numbers are
read as they are written.

Main statement: `Json.read?_pretty`.
-/

namespace Converge.Json

/-! ## Quoted texts -/

/-- The characters of a text inside quotes. -/
def escaped (cs : List Char) : List Char := cs.flatMap fun c => (escapeChar c).toList

theorem toList_quote (s : String) : (quote s).toList = '"' :: (escaped s.toList ++ ['"']) := by
  have hfold : ∀ (cs : List Char) (out : String),
      (cs.foldl (fun out c => out ++ escapeChar c) out).toList = out.toList ++ escaped cs := by
    intro cs
    induction cs with
    | nil => simp [escaped]
    | cons c cs ih => simp [ih, escaped]
  simp [quote, hfold]

theorem hexDigit_spec : ∀ n < 16, Text.digitValue? 16 (hexDigit n) = some n := by decide

/-- An escaped character is read as the character. -/
theorem takeQuoted?_escapeChar (fuel : Nat) (collected rest : List Char) (c : Char) :
    takeQuoted? (fuel + 1) collected ((escapeChar c).toList ++ rest) =
      takeQuoted? fuel (c :: collected) rest := by
  unfold escapeChar
  split
  all_goals try rfl
  next h₁ h₂ _ _ _ _ _ =>
  split
  · next hcontrol =>
    have hunit : codeUnit? '0' '0' (hexDigit (c.toNat / 16)) (hexDigit (c.toNat % 16)) =
        some c.toNat := by
      have hzero : Text.digitValue? 16 '0' = some 0 := by decide
      have hhigh := hexDigit_spec (c.toNat / 16) (by omega)
      have hlow := hexDigit_spec (c.toNat % 16) (by omega)
      simp only [codeUnit?, Text.readDigits?, List.foldlM_cons, List.foldlM_nil, hzero, hhigh, hlow,
        Option.map_some, Option.bind_eq_bind, Option.bind_some, Option.pure_def]
      congr 1
      omega
    have hescape : takeEscape? ('u' :: '0' :: '0' :: hexDigit (c.toNat / 16) ::
        hexDigit (c.toNat % 16) :: rest) = some (c, rest) := by
      have hlow : ¬ (0xDC00 ≤ c.toNat ∧ c.toNat < 0xE000) := by omega
      have hhigh : ¬ (0xD800 ≤ c.toNat ∧ c.toNat < 0xDC00) := by omega
      simp only [takeEscape?, hunit, Option.bind_eq_bind, Option.bind_some, if_neg hlow,
        if_neg hhigh, Char.ofNat_toNat]
    have htext : ("\\u00" ++ String.ofList [hexDigit (c.toNat / 16), hexDigit (c.toNat % 16)]).toList
        ++ rest = '\\' :: 'u' :: '0' :: '0' :: hexDigit (c.toNat / 16) ::
          hexDigit (c.toNat % 16) :: rest := by
      simp
    rw [htext, takeQuoted?, hescape]
  · next hplain =>
    rw [String.toList_singleton, List.singleton_append, takeQuoted?, if_neg hplain]
    · exact h₁
    · exact h₂

theorem length_le_escaped (cs : List Char) : cs.length ≤ (escaped cs).length := by
  have hpos : ∀ c : Char, 1 ≤ (escapeChar c).toList.length := by
    intro c
    unfold escapeChar
    split
    all_goals try decide
    split
    · simp
    · simp
  induction cs with
  | nil => exact Nat.le_refl _
  | cons c cs ih =>
    have := hpos c
    simp only [escaped, List.flatMap_cons, List.length_append, List.length_cons] at ih ⊢
    omega

/-- A quoted text is read as the text. -/
theorem takeQuoted?_escaped (fuel : Nat) (collected cs rest : List Char) (h : cs.length < fuel) :
    takeQuoted? fuel collected (escaped cs ++ '"' :: rest) =
      some (String.ofList (collected.reverse ++ cs), rest) := by
  induction cs generalizing fuel collected with
  | nil =>
    obtain ⟨fuel, rfl⟩ := Nat.exists_eq_add_of_lt h
    simp [escaped, takeQuoted?]
  | cons c cs ih =>
    obtain ⟨fuel, rfl⟩ : ∃ k, fuel = k + 1 := ⟨fuel - 1, by simp at h; omega⟩
    have hsplit : escaped (c :: cs) ++ '"' :: rest =
        (escapeChar c).toList ++ (escaped cs ++ '"' :: rest) := by
      simp [escaped]
    rw [hsplit, takeQuoted?_escapeChar, ih fuel (c :: collected) (by simpa using h)]
    simp

theorem takeQuoted?_quote (s : String) (rest : List Char) :
    takeQuoted? ((escaped s.toList ++ '"' :: rest).length + 1) []
      (escaped s.toList ++ '"' :: rest) = some (s, rest) := by
  have hlength := length_le_escaped s.toList
  rw [takeQuoted?_escaped]
  · simp
  · simp only [List.length_append, List.length_cons]
    omega

/-! ## Values -/

/-- Whether a text cannot go on with a number that stands before it. -/
def EndsNumber (rest : List Char) : Prop :=
  ∀ c cs, rest = c :: cs → c = ',' ∨ c = '\n' ∨ c = ']' ∨ c = '\x7d'

/-- Whether a number is read as it is written. -/
def Legible (n : Number) : Prop :=
  ∀ fuel depth rest, EndsNumber rest →
    takeValue? (fuel + 1) depth (n.render.toList ++ rest) = some (.number n, rest)

mutual

/-- How many arrays and objects stand around each other in a value. -/
def nesting : Json → Nat
  | .array items => nestingOfItems items + 1
  | .object fields => nestingOfFields fields + 1
  | .null => 0
  | .bool _ => 0
  | .number _ => 0
  | .string _ => 0

def nestingOfItems : List Json → Nat
  | [] => 0
  | item :: rest => max item.nesting (nestingOfItems rest)

def nestingOfFields : List (String × Json) → Nat
  | [] => 0
  | (_, value) :: rest => max value.nesting (nestingOfFields rest)

end

mutual

/-- Whether every number in a value is read as it is written. -/
def IsLegible : Json → Prop
  | .number value => Legible value
  | .array items => AreLegible items
  | .object fields => FieldsAreLegible fields
  | .null => True
  | .bool _ => True
  | .string _ => True

def AreLegible : List Json → Prop
  | [] => True
  | item :: rest => item.IsLegible ∧ AreLegible rest

def FieldsAreLegible : List (String × Json) → Prop
  | [] => True
  | (_, value) :: rest => value.IsLegible ∧ FieldsAreLegible rest

end

/-! ### The written form as a list of characters -/

mutual

theorem writePretty_eq (out : String) (level : Nat) (value : Json) :
    value.writePretty out level = out ++ value.writePretty "" level := by
  match value with
  | .null => simp [writePretty]
  | .bool true => simp [writePretty]
  | .bool false => simp [writePretty]
  | .number _ => simp [writePretty]
  | .string _ => simp [writePretty]
  | .array [] => simp [writePretty]
  | .array (item :: rest) =>
    rw [writePretty, writePretty, writePrettyItems_eq (out ++ "["), writePrettyItems_eq ("" ++ "[")]
    simp [String.append_assoc]
  | .object [] => simp [writePretty]
  | .object (field :: rest) =>
    rw [writePretty, writePretty, writePrettyFields_eq (out ++ "\x7b"),
      writePrettyFields_eq ("" ++ "\x7b")]
    simp [String.append_assoc]

theorem writePrettyItems_eq (out : String) (level : Nat) (first : Bool) (items : List Json) :
    writePrettyItems out level first items = out ++ writePrettyItems "" level first items := by
  match items with
  | [] => simp [writePrettyItems]
  | item :: rest =>
    rw [writePrettyItems, writePrettyItems, writePretty_eq, writePrettyItems_eq,
      writePretty_eq ((if first then "" else "" ++ ",") ++ lineBreak level),
      writePrettyItems_eq (_ ++ _ ++ item.writePretty "" level)]
    cases first <;> simp [String.append_assoc]

theorem writePrettyFields_eq (out : String) (level : Nat) (first : Bool)
    (fields : List (String × Json)) :
    writePrettyFields out level first fields = out ++ writePrettyFields "" level first fields := by
  match fields with
  | [] => simp [writePrettyFields]
  | (name, value) :: rest =>
    rw [writePrettyFields, writePrettyFields, writePretty_eq, writePrettyFields_eq,
      writePretty_eq ((if first then "" else "" ++ ",") ++ lineBreak level ++ quote name ++ ": "),
      writePrettyFields_eq (_ ++ _ ++ _ ++ _ ++ value.writePretty "" level)]
    cases first <;> simp [String.append_assoc]

end

/-- The characters of the pretty form. -/
def prettyChars (level : Nat) (value : Json) : List Char := (value.writePretty "" level).toList

/-- The characters of the items of an array, each on a line of its own. -/
def itemChars (level : Nat) (items : List Json) : List Char :=
  (writePrettyItems "" level true items).toList

/-- The characters of the fields of an object, each on a line of its own. -/
def fieldChars (level : Nat) (fields : List (String × Json)) : List Char :=
  (writePrettyFields "" level true fields).toList

/-- What stands after an item or a field: a comma and the next one, or nothing. -/
def moreChars {α : Type} (write : List α → List Char) : List α → List Char
  | [] => []
  | next :: rest => ',' :: write (next :: rest)

theorem toList_writePrettyItems_false (level : Nat) (items : List Json) :
    (writePrettyItems "" level false items).toList = moreChars (itemChars level) items := by
  cases items with
  | nil => rfl
  | cons next rest =>
    simp only [moreChars, itemChars, writePrettyItems, Bool.false_eq_true, if_false, if_true,
      String.empty_append]
    rw [writePrettyItems_eq, writePretty_eq ("," ++ _), writePrettyItems_eq (writePretty _ _ _),
      writePretty_eq (lineBreak level)]
    simp

theorem itemChars_cons (level : Nat) (item : Json) (rest : List Json) :
    itemChars level (item :: rest) = (lineBreak level).toList ++
      (prettyChars level item ++ moreChars (itemChars level) rest) := by
  rw [itemChars, writePrettyItems, writePrettyItems_eq, writePretty_eq]
  simp [prettyChars, toList_writePrettyItems_false]

theorem toList_writePrettyFields_false (level : Nat) (fields : List (String × Json)) :
    (writePrettyFields "" level false fields).toList = moreChars (fieldChars level) fields := by
  cases fields with
  | nil => rfl
  | cons next rest =>
    obtain ⟨name, value⟩ := next
    simp only [moreChars, fieldChars, writePrettyFields, Bool.false_eq_true, if_false, if_true,
      String.empty_append]
    rw [writePrettyFields_eq, writePretty_eq ("," ++ _ ++ _ ++ _),
      writePrettyFields_eq (writePretty _ _ _), writePretty_eq (lineBreak level ++ _ ++ _)]
    simp

theorem fieldChars_cons (level : Nat) (name : String) (value : Json)
    (rest : List (String × Json)) :
    fieldChars level ((name, value) :: rest) = (lineBreak level).toList ++
      ('"' :: (escaped name.toList ++ '"' :: ':' :: ' ' :: (prettyChars level value ++
        moreChars (fieldChars level) rest))) := by
  rw [fieldChars, writePrettyFields, writePrettyFields_eq, writePretty_eq]
  simp [prettyChars, toList_quote, toList_writePrettyFields_false]

theorem prettyChars_array (level : Nat) (item : Json) (rest : List Json) :
    prettyChars level (.array (item :: rest)) =
      '[' :: (itemChars (level + 1) (item :: rest) ++ ((lineBreak level).toList ++ [']'])) := by
  rw [prettyChars, writePretty, writePrettyItems_eq]
  simp [itemChars]

theorem prettyChars_object (level : Nat) (field : String × Json) (rest : List (String × Json)) :
    prettyChars level (.object (field :: rest)) =
      '\x7b' :: (fieldChars (level + 1) (field :: rest) ++ ((lineBreak level).toList ++ ['\x7d'])) := by
  rw [prettyChars, writePretty, writePrettyFields_eq]
  simp [fieldChars]

/-! ### Reading -/

theorem skipSpace_lineBreak (level : Nat) (cs : List Char) :
    skipSpace ((lineBreak level).toList ++ cs) = skipSpace cs := by
  have hspaces : ∀ n, skipSpace (List.replicate n ' ' ++ cs) = skipSpace cs := by
    intro n
    induction n with
    | zero => rfl
    | succ n ih => rw [List.replicate_succ, List.cons_append, ← ih]; rfl
  have hbreak : (lineBreak level).toList = '\n' :: List.replicate (2 * level) ' ' := by
    simp [lineBreak]
  rw [hbreak, ← hspaces (2 * level)]
  rfl

theorem skipSpace_skipSpace (cs : List Char) : skipSpace (skipSpace cs) = skipSpace cs := by
  induction cs with
  | nil => rfl
  | cons c cs ih =>
    simp only [skipSpace, List.dropWhile_cons] at ih ⊢
    split
    · exact ih
    · simp [*]

/-- Where a value is read, space before it does not count. -/
theorem takeValue?_congr {fuel depth : Nat} {cs cs' : List Char}
    (h : skipSpace cs = skipSpace cs') :
    takeValue? fuel depth cs = takeValue? fuel depth cs' := by
  cases fuel with
  | zero => rw [takeValue?, takeValue?]
  | succ fuel => rw [takeValue?, takeValue?, h]

theorem takeItems?_congr {fuel depth : Nat} {items : List Json} {cs cs' : List Char}
    (h : skipSpace cs = skipSpace cs') :
    takeItems? fuel depth items cs = takeItems? fuel depth items cs' := by
  cases fuel with
  | zero => rw [takeItems?, takeItems?]
  | succ fuel => rw [takeItems?, takeItems?, takeValue?_congr h]

theorem takeFields?_congr {fuel depth : Nat} {fields : List (String × Json)} {cs cs' : List Char}
    (h : skipSpace cs = skipSpace cs') :
    takeFields? fuel depth fields cs = takeFields? fuel depth fields cs' := by
  cases fuel with
  | zero => rw [takeFields?, takeFields?]
  | succ fuel => rw [takeFields?, takeFields?, h]

/-- No value begins with the end of an array. -/
theorem takeValue?_closed {fuel depth : Nat} {cs rest : List Char}
    (h : skipSpace cs = ']' :: rest) :
    takeValue? fuel depth cs = none := by
  cases fuel with
  | zero => rw [takeValue?]
  | succ fuel =>
    rw [takeValue?, h]
    rfl

theorem takeItems?_closed {fuel depth : Nat} {items : List Json} {cs rest : List Char}
    (h : skipSpace cs = ']' :: rest) : takeItems? fuel depth items cs = none := by
  cases fuel with
  | zero => rw [takeItems?]
  | succ fuel => rw [takeItems?, takeValue?_closed h]

theorem takeFields?_closed {fuel depth : Nat} {fields : List (String × Json)} {cs rest : List Char}
    (h : skipSpace cs = '\x7d' :: rest) : takeFields? fuel depth fields cs = none := by
  cases fuel with
  | zero => rw [takeFields?]
  | succ fuel => rw [takeFields?, h]; rfl

theorem toList_lineBreak (level : Nat) :
    (lineBreak level).toList = '\n' :: List.replicate (2 * level) ' ' := by
  simp [lineBreak]

theorem one_le_length_lineBreak (level : Nat) : 1 ≤ (lineBreak level).toList.length := by
  simp [toList_lineBreak]

theorem endsNumber_lineBreak {level : Nat} {cs : List Char} :
    EndsNumber ((lineBreak level).toList ++ cs) := by
  rintro c rest h
  rw [toList_lineBreak] at h
  obtain ⟨rfl, -⟩ := List.cons.inj h
  exact .inr (.inl rfl)

theorem endsNumber_more {α : Type} (write : List α → List Char) (rest : List α) {cs : List Char}
    (h : EndsNumber cs) : EndsNumber (moreChars write rest ++ cs) := by
  cases rest with
  | nil => exact h
  | cons next rest =>
    rintro c cs' h
    obtain ⟨rfl, -⟩ := List.cons.inj h
    exact .inl rfl

mutual

/-- The pretty form of a value is read as the value. -/
theorem takeValue?_pretty (value : Json) (level fuel depth : Nat) (rest : List Char)
    (hlegible : value.IsLegible) (hdepth : value.nesting ≤ depth)
    (hfuel : 2 * (prettyChars level value).length < fuel) (hrest : EndsNumber rest) :
    takeValue? fuel depth (prettyChars level value ++ rest) = some (value, rest) := by
  obtain ⟨fuel, rfl⟩ : ∃ k, fuel = k + 1 := ⟨fuel - 1, by omega⟩
  match value with
  | .null =>
    have htext : prettyChars level .null ++ rest = 'n' :: 'u' :: 'l' :: 'l' :: rest := by
      simp [prettyChars, writePretty]
    rw [htext, takeValue?]
    change (takeWord? _ _).map _ = _
    simp [takeWord?]
  | .bool true =>
    have htext : prettyChars level (.bool true) ++ rest = 't' :: 'r' :: 'u' :: 'e' :: rest := by
      simp [prettyChars, writePretty]
    rw [htext, takeValue?]
    change (takeWord? _ _).map _ = _
    simp [takeWord?]
  | .bool false =>
    have htext : prettyChars level (.bool false) ++ rest =
        'f' :: 'a' :: 'l' :: 's' :: 'e' :: rest := by
      simp [prettyChars, writePretty]
    rw [htext, takeValue?]
    change (takeWord? _ _).map _ = _
    simp [takeWord?]
  | .number n => exact hlegible fuel depth rest hrest
  | .string s =>
    have htext : prettyChars level (.string s) ++ rest = '"' :: (escaped s.toList ++ '"' :: rest) := by
      simp [prettyChars, writePretty, toList_quote]
    rw [htext, takeValue?]
    change (takeQuoted? _ _ _).map _ = _
    rw [takeQuoted?_quote]
    rfl
  | .array [] =>
    obtain ⟨depth, rfl⟩ : ∃ k, depth = k + 1 := ⟨depth - 1, by simp [nesting] at hdepth; omega⟩
    have htext : prettyChars level (.array []) ++ rest = '[' :: ']' :: rest := by
      simp [prettyChars, writePretty]
    rw [htext, takeValue?]
    rfl
  | .array (item :: items) =>
    obtain ⟨depth, rfl⟩ : ∃ k, depth = k + 1 := ⟨depth - 1, by simp [nesting] at hdepth; omega⟩
    rw [prettyChars_array] at hfuel ⊢
    simp only [List.length_cons, List.length_append] at hfuel
    have hitems := takeItems?_pretty (item :: items) (level + 1) level fuel depth [] rest hlegible
      (by simpa [nesting] using hdepth) (by omega) (by simp)
    rw [List.cons_append, List.append_assoc, takeValue?]
    change (match skipSpace _ with | ']' :: rest => _ | rest => takeItems? fuel depth [] rest) = _
    split
    · next hclosed =>
      rw [List.append_assoc, List.singleton_append] at hclosed
      rw [takeItems?_closed hclosed] at hitems
      cases hitems
    · rw [takeItems?_congr (skipSpace_skipSpace _), List.append_assoc]
      exact hitems
  | .object [] =>
    obtain ⟨depth, rfl⟩ : ∃ k, depth = k + 1 := ⟨depth - 1, by simp [nesting] at hdepth; omega⟩
    have htext : prettyChars level (.object []) ++ rest = '\x7b' :: '\x7d' :: rest := by
      simp [prettyChars, writePretty]
    rw [htext, takeValue?]
    rfl
  | .object (field :: fields) =>
    obtain ⟨depth, rfl⟩ : ∃ k, depth = k + 1 := ⟨depth - 1, by simp [nesting] at hdepth; omega⟩
    rw [prettyChars_object] at hfuel ⊢
    simp only [List.length_cons, List.length_append] at hfuel
    have hfields := takeFields?_pretty (field :: fields) (level + 1) level fuel depth [] rest hlegible
      (by simpa [nesting] using hdepth) (by omega) (by simp)
    rw [List.cons_append, List.append_assoc, takeValue?]
    change (match skipSpace _ with | '\x7d' :: rest => _ | rest => takeFields? fuel depth [] rest) = _
    split
    · next hclosed =>
      rw [List.append_assoc, List.singleton_append] at hclosed
      rw [takeFields?_closed hclosed] at hfields
      cases hfields
    · rw [takeFields?_congr (skipSpace_skipSpace _), List.append_assoc]
      exact hfields

theorem takeItems?_pretty (items : List Json) (level outer fuel depth : Nat)
    (collected : List Json) (rest : List Char) (hlegible : AreLegible items)
    (hdepth : nestingOfItems items ≤ depth) (hfuel : 2 * (itemChars level items).length < fuel)
    (hitems : items ≠ []) :
    takeItems? fuel depth collected
        (itemChars level items ++ ((lineBreak outer).toList ++ ']' :: rest)) =
      some (.array (collected.reverse ++ items), rest) := by
  obtain ⟨fuel, rfl⟩ : ∃ k, fuel = k + 1 := ⟨fuel - 1, by omega⟩
  match items with
  | item :: items =>
    rw [itemChars_cons] at hfuel ⊢
    simp only [List.length_append] at hfuel
    have hbreak := one_le_length_lineBreak level
    have hvalue := takeValue?_pretty item level fuel depth
      (moreChars (itemChars level) items ++ ((lineBreak outer).toList ++ ']' :: rest))
      hlegible.1 (Nat.le_trans (Nat.le_max_left ..) hdepth) (by omega)
      (endsNumber_more _ _ endsNumber_lineBreak)
    rw [List.append_assoc, List.append_assoc, takeItems?,
      takeValue?_congr (skipSpace_lineBreak level _), hvalue]
    match items with
    | [] =>
      have hend : skipSpace ((lineBreak outer).toList ++ ']' :: rest) = ']' :: rest :=
        skipSpace_lineBreak outer _
      simp [moreChars, hend]
    | next :: items =>
      have hmore := takeItems?_pretty (next :: items) level outer fuel depth (item :: collected) rest
        hlegible.2 (Nat.le_trans (Nat.le_max_right ..) hdepth)
        (by simp only [moreChars, List.length_cons] at hfuel; omega) (by simp)
      rw [moreChars, List.cons_append]
      simpa [skipSpace, isSpace] using hmore

theorem takeFields?_pretty (fields : List (String × Json)) (level outer fuel depth : Nat)
    (collected : List (String × Json)) (rest : List Char) (hlegible : FieldsAreLegible fields)
    (hdepth : nestingOfFields fields ≤ depth) (hfuel : 2 * (fieldChars level fields).length < fuel)
    (hfields : fields ≠ []) :
    takeFields? fuel depth collected
        (fieldChars level fields ++ ((lineBreak outer).toList ++ '\x7d' :: rest)) =
      some (.object (collected.reverse ++ fields), rest) := by
  obtain ⟨fuel, rfl⟩ : ∃ k, fuel = k + 1 := ⟨fuel - 1, by omega⟩
  match fields with
  | (name, value) :: fields =>
    rw [fieldChars_cons] at hfuel ⊢
    simp only [List.length_append, List.length_cons] at hfuel
    have hvalue := takeValue?_pretty value level fuel depth
      (moreChars (fieldChars level) fields ++ ((lineBreak outer).toList ++ '\x7d' :: rest))
      hlegible.1 (Nat.le_trans (Nat.le_max_left ..) hdepth) (by omega)
      (endsNumber_more _ _ endsNumber_lineBreak)
    have hname : skipSpace ((lineBreak level).toList ++ ('"' :: (escaped name.toList ++ '"' :: ':' ::
        ' ' :: (prettyChars level value ++ moreChars (fieldChars level) fields))) ++
          ((lineBreak outer).toList ++ '\x7d' :: rest)) =
        '"' :: (escaped name.toList ++ '"' :: ':' :: ' ' :: (prettyChars level value ++
          (moreChars (fieldChars level) fields ++ ((lineBreak outer).toList ++ '\x7d' :: rest)))) := by
      rw [List.append_assoc, skipSpace_lineBreak]
      simp [skipSpace, isSpace]
    rw [takeFields?, hname]
    simp only [takeQuoted?_quote]
    have hcolon : ∀ cs, skipSpace (':' :: ' ' :: cs) = ':' :: ' ' :: cs := fun cs => rfl
    have hspace : ∀ cs, skipSpace (' ' :: cs) = skipSpace cs := fun cs => rfl
    simp only [hcolon, takeValue?_congr (hspace _), hvalue]
    match fields with
    | [] =>
      have hend : skipSpace ((lineBreak outer).toList ++ '\x7d' :: rest) = '\x7d' :: rest :=
        skipSpace_lineBreak outer _
      simp [moreChars, hend]
    | next :: fields =>
      have hmore := takeFields?_pretty (next :: fields) level outer fuel depth
        ((name, value) :: collected) rest hlegible.2 (Nat.le_trans (Nat.le_max_right ..) hdepth)
        (by simp only [moreChars, List.length_cons] at hfuel; omega) (by simp)
      rw [moreChars, List.cons_append]
      simpa [skipSpace, isSpace] using hmore

end

/-- A value is read from its pretty form. -/
theorem read?_pretty {value : Json} (hlegible : value.IsLegible)
    (hdepth : value.nesting ≤ maxDepth) : read? value.pretty = some value := by
  have hvalue := takeValue?_pretty value 0 (2 * (prettyChars 0 value).length + 2) maxDepth []
    hlegible hdepth (by omega) nofun
  rw [List.append_nil] at hvalue
  rw [prettyChars] at hvalue
  rw [read?, pretty, hvalue]
  rfl

end Converge.Json
