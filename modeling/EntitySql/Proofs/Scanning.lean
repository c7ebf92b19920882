import EntitySql.Proofs.Grammar.Token

/-! The placeholders of a text, as they are found by a scan that knows no expressions: an at sign with the
letters, digits and underscores right behind it, outside single-quoted literals. -/

set_option autoImplicit false

namespace EntitySql.Scanning

open EntitySql.Text (apostrophe doubleQuotes)
open EntitySql.Grammar (isParameterChar)

/-- Where the scan is: in a literal, behind an at sign with the characters of the name that it has passed,
or in neither. -/
inductive Place where
  | outside
  | literal
  | name (passed : List Char)

namespace Place

/-- The place after a character that belongs to no literal and to no name. A quote that is doubled closes
its literal and opens it again. -/
def start (c : Char) : Place :=
  if c = '@' then .name [] else if c = apostrophe then .literal else .outside

def ending : Place → List String
  | .name (c :: cs) => [String.ofList (c :: cs)]
  | _ => []

end Place

def scanFrom : Place → List Char → List String
  | place, [] => place.ending
  | .outside, c :: cs => scanFrom (.start c) cs
  | .literal, c :: cs => scanFrom (if c = apostrophe then .outside else .literal) cs
  | .name passed, c :: cs =>
    if isParameterChar c then scanFrom (.name (passed ++ [c])) cs
    else Place.ending (.name passed) ++ scanFrom (.start c) cs

def placeholders (s : String) : List String :=
  scanFrom .outside s.toList

def isQuiet (c : Char) : Bool :=
  c ≠ '@' && c ≠ apostrophe

def EndsName (cs : List Char) : Prop :=
  ∀ c ∈ cs.head?, isParameterChar c = false

def isDivider (s : String) : Bool :=
  s.toList.head?.any (!isParameterChar ·) && s.toList.all isQuiet

/-- The text has no placeholders and takes part in none, whatever comes after it. -/
def Silent (s : String) : Prop :=
  ∀ rest, scanFrom .outside (s.toList ++ rest) = scanFrom .outside rest

/-- The text has these placeholders, whatever comes after it that ends the last of their names. -/
def Shows (s : String) (names : List String) : Prop :=
  ∀ rest, EndsName rest → scanFrom .outside (s.toList ++ rest) = names ++ scanFrom .outside rest

theorem isQuiet_of_isParameterChar {c : Char} (own : isParameterChar c = true) : isQuiet c = true := by
  cases quiet : isQuiet c with
  | true => rfl
  | false =>
    have special : c = '@' ∨ c = apostrophe := by
      simpa [isQuiet, Classical.or_iff_not_imp_left] using quiet
    rcases special with rfl | rfl <;> exact absurd own (by decide)

theorem endsName_nil : EndsName [] := by
  intro c head
  cases head

theorem endsName_of_isDivider {s : String} (divider : isDivider s = true) (rest : List Char) :
    EndsName (s.toList ++ rest) := by
  cases chars : s.toList with
  | nil => simp [isDivider, chars] at divider
  | cons c cs =>
    intro d head
    obtain rfl : c = d := by simpa using head
    simp only [isDivider, chars, List.head?_cons, Option.any_some, Bool.and_eq_true] at divider
    simpa using divider.1

theorem scanFrom_quiet {cs : List Char} (quiet : ∀ c ∈ cs, isQuiet c = true) (rest : List Char) :
    scanFrom .outside (cs ++ rest) = scanFrom .outside rest := by
  induction cs with
  | nil => rfl
  | cons c cs ih =>
    have own : isQuiet c = true := quiet c List.mem_cons_self
    simp only [isQuiet, Bool.and_eq_true, decide_eq_true_eq] at own
    have later : ∀ d ∈ cs, isQuiet d = true := fun d member => quiet d (List.mem_cons_of_mem c member)
    rw [List.cons_append, scanFrom, Place.start, if_neg own.1, if_neg own.2, ih later]

/-- No quote of the content ends the literal for good. -/
theorem scanFrom_literal (content rest : List Char) :
    scanFrom .literal (doubleQuotes content ++ apostrophe :: rest) = scanFrom .outside rest := by
  have sign : ¬apostrophe = '@' := by decide
  induction content with
  | nil => rw [doubleQuotes, List.nil_append, scanFrom, if_pos rfl]
  | cons c content ih =>
    by_cases quote : c = apostrophe
    -- The first of the two closes the literal, and the second is where the next one starts.
    · rw [doubleQuotes, if_pos quote, quote, List.cons_append, List.cons_append, scanFrom, if_pos rfl,
        scanFrom, Place.start, if_neg sign, if_pos rfl, ih]
    · rw [doubleQuotes, if_neg quote, List.cons_append, scanFrom, if_neg quote, ih]

theorem scanFrom_name {cs : List Char} (own : ∀ c ∈ cs, isParameterChar c = true) (passed : List Char)
    {rest : List Char} (ends : EndsName rest) :
    scanFrom (.name passed) (cs ++ rest) =
      Place.ending (.name (passed ++ cs)) ++ scanFrom .outside rest := by
  induction cs generalizing passed with
  | nil =>
    cases rest with
    | nil => simp [scanFrom, Place.ending]
    | cons c rest =>
      have other : isParameterChar c = false := ends c rfl
      simp [scanFrom, other]
  | cons c cs ih =>
    have later : ∀ d ∈ cs, isParameterChar d = true := fun d member => own d (List.mem_cons_of_mem c member)
    rw [List.cons_append, scanFrom, if_pos (own c List.mem_cons_self), ih later, List.append_assoc,
      List.singleton_append]

section

variable {s t : String} {xs ys : List String}

theorem silent_of_quiet (quiet : s.toList.all isQuiet = true) : Silent s :=
  fun rest => scanFrom_quiet (List.all_eq_true.1 quiet) rest

theorem silent_of_parameterChars (own : ∀ c ∈ s.toList, isParameterChar c = true) : Silent s :=
  fun rest => scanFrom_quiet (fun c member => isQuiet_of_isParameterChar (own c member)) rest

theorem silent_quoted (content : String) : Silent (Text.quoted content) := by
  intro rest
  have shape : (Text.quoted content).toList ++ rest =
      apostrophe :: (doubleQuotes content.toList ++ apostrophe :: rest) := by simp [Text.quoted]
  have opened : Place.start apostrophe = .literal := rfl
  rw [shape, scanFrom, opened, scanFrom_literal]

theorem silent_containment : Silent "@>" :=
  fun _ => rfl

theorem Silent.append (first : Silent s) (second : Silent t) : Silent (s ++ t) := by
  intro rest
  rw [String.toList_append, List.append_assoc, first, second]

theorem Silent.before (first : Silent s) (second : Shows t ys) : Shows (s ++ t) ys := by
  intro rest ends
  rw [String.toList_append, List.append_assoc, first, second rest ends]

theorem Silent.shows (silent : Silent s) : Shows s [] :=
  fun rest _ => silent rest

theorem shows_parameter {name : String} (nonempty : name ≠ "")
    (own : ∀ c ∈ name.toList, isParameterChar c = true) : Shows ("@" ++ name) [name] := by
  intro rest ends
  have shape : ("@" ++ name).toList ++ rest = '@' :: (name.toList ++ rest) := by simp
  have sign : Place.start '@' = .name [] := rfl
  have ending : Place.ending (.name name.toList) = [name] := by
    cases chars : name.toList with
    | nil => exact absurd (String.toList_eq_nil_iff.1 chars) nonempty
    | cons c cs => simp [Place.ending, ← chars]
  rw [shape, scanFrom, sign, scanFrom_name own [] ends, List.nil_append, ending]

theorem silent_of_isDivider (divider : isDivider s = true) : Silent s := by
  simp only [isDivider, Bool.and_eq_true] at divider
  exact silent_of_quiet divider.2

theorem Shows.closed (first : Shows s xs) (divider : isDivider t = true) : Shows (s ++ t) xs := by
  intro rest _
  rw [String.toList_append, List.append_assoc, first _ (endsName_of_isDivider divider rest),
    silent_of_isDivider divider]

theorem Shows.divided {sep : String} (first : Shows s xs) (divider : isDivider sep = true)
    (second : Shows t ys) : Shows (s ++ sep ++ t) (xs ++ ys) := by
  intro rest ends
  rw [String.toList_append, List.append_assoc, String.toList_append, List.append_assoc,
    first _ (endsName_of_isDivider divider _), silent_of_isDivider divider, second rest ends,
    List.append_assoc]

theorem Shows.intercalated {α : Type} {sep : String} (divider : isDivider sep = true)
    {text : α → String} {names : α → List String} {parts : List α}
    (each : ∀ a ∈ parts, Shows (text a) (names a)) :
    Shows (String.intercalate sep (parts.map text)) (parts.flatMap names) := by
  induction parts with
  | nil =>
    intro rest _
    rfl
  | cons first others ih =>
    have head := each first List.mem_cons_self
    have tail := ih fun a member => each a (List.mem_cons_of_mem first member)
    cases others with
    | nil => simpa using head
    -- The separator ends the names of the first part; what ends the others is after the whole text.
    | cons second rest =>
      rw [List.map_cons, List.map_cons, String.intercalate_cons_cons, List.flatMap_cons]
      exact head.divided divider tail

theorem Shows.placeholders (whole : Shows s xs) : placeholders s = xs := by
  have scanned := whole [] endsName_nil
  simpa [Scanning.placeholders, scanFrom, Place.ending] using scanned

end

end EntitySql.Scanning
