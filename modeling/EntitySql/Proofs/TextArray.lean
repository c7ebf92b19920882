import EntitySql.Dialect.Postgres

/-! Text arrays of one dimension, read in the input syntax of PostgreSQL: elements in braces, separated by
commas, and in double quotes where they would not be texts otherwise. What is written for a list of texts
is read as that list. -/

set_option autoImplicit false

namespace EntitySql.TextArray

open EntitySql.Dialect.Postgres
open EntitySql.Text (quoteMark isBlank)

def isSpace (c : Char) : Bool :=
  c.toNat = 0x20 || 0x09 ≤ c.toNat && c.toNat ≤ 0x0D

inductive Scan where
  | opening
  /-- Before an element. The array may end here only if it is empty. -/
  | element (first : Bool)
  | bare (read : List Char)
  | quoted (read : List Char)
  /-- After a backslash, which takes the next character as it is. -/
  | escaped (read : List Char)
  | closed (read : List Char)
  | done

def Scan.next? (c : Char) : Option Scan :=
  if c = ',' then some (.element false) else if c = '\x7d' then some .done else none

/-- Without quotes the word null stands for no text, and white space at the end does not belong to the
element. -/
def ofBare (read : List Char) : Option (List Char) :=
  let text := (read.reverse.dropWhile isSpace).reverse
  if text.map Char.toLower = "null".toList then none else some text

/-- The elements that are still to come. Outside quotes a backslash would be an escape too; an array
with such an element is refused, as are inner arrays. -/
def readFrom : Scan → List Char → Option (List (Option (List Char)))
  | .done, [] => some []
  | _, [] => none
  | .opening, c :: cs =>
    if isSpace c then readFrom .opening cs
    else if c = '\x7b' then readFrom (.element true) cs
    else none
  | .element first, c :: cs =>
    if isSpace c then readFrom (.element first) cs
    else if c = quoteMark then readFrom (.quoted []) cs
    else if c = '\x7d' then if first then readFrom .done cs else none
    else if c = ',' || c = '\x7b' || c = '\\' then none
    else readFrom (.bare [c]) cs
  | .bare read, c :: cs =>
    match Scan.next? c with
    | some next => (readFrom next cs).map (ofBare read :: ·)
    | none =>
      if c = quoteMark || c = '\x7b' || c = '\\' then none else readFrom (.bare (read ++ [c])) cs
  | .quoted read, c :: cs =>
    if c = '\\' then readFrom (.escaped read) cs
    else if c = quoteMark then readFrom (.closed read) cs
    else readFrom (.quoted (read ++ [c])) cs
  | .escaped read, c :: cs => readFrom (.quoted (read ++ [c])) cs
  | .closed read, c :: cs =>
    if isSpace c then readFrom (.closed read) cs
    else
      match Scan.next? c with
      | some next => (readFrom next cs).map (some read :: ·)
      | none => none
  | .done, c :: cs => if isSpace c then readFrom .done cs else none

def read (text : List Char) : Option (List (Option (List Char))) :=
  readFrom .opening text

theorem isBlank_of_isSpace {c : Char} (space : isSpace c = true) : isBlank c = true := by
  simp only [isSpace, Bool.or_eq_true, Bool.and_eq_true, decide_eq_true_eq] at space
  simp only [isBlank, Text.blankRanges, List.any_cons, List.any_nil, Bool.or_eq_true, Bool.and_eq_true,
    decide_eq_true_eq]
  omega

section

variable {c : Char} (plain : needsQuotes c = false)

include plain

theorem isSpace_of_plain : isSpace c = false := by
  cases space : isSpace c with
  | false => rfl
  | true => simp [needsQuotes, isBlank_of_isSpace space] at plain

theorem next?_of_plain : Scan.next? c = none := by
  simp only [needsQuotes, Bool.or_eq_false_iff, decide_eq_false_iff_not] at plain
  simp [Scan.next?, plain.1.1.1.2, plain.1.1.1.1.2]

theorem readFrom_element_plain (first : Bool) (cs : List Char) :
    readFrom (.element first) (c :: cs) = readFrom (.bare [c]) cs := by
  have space := isSpace_of_plain plain
  simp only [needsQuotes, Bool.or_eq_false_iff, decide_eq_false_iff_not] at plain
  simp [readFrom, space, plain.1.1.1.1.1, plain.1.1.1.1.2, plain.1.1.1.2, plain.1.1.2, plain.1.2]

theorem readFrom_bare_plain (read cs : List Char) :
    readFrom (.bare read) (c :: cs) = readFrom (.bare (read ++ [c])) cs := by
  have next := next?_of_plain plain
  simp only [needsQuotes, Bool.or_eq_false_iff, decide_eq_false_iff_not] at plain
  simp [readFrom, next, plain.1.1.1.1.1, plain.1.1.2, plain.1.2]

end

theorem readFrom_bare {separator : Char} {next : Scan} (ends : Scan.next? separator = some next)
    (chars : List Char) (plain : ∀ c ∈ chars, needsQuotes c = false) (read rest : List Char) :
    readFrom (.bare read) (chars ++ separator :: rest) =
      (readFrom next rest).map (ofBare (read ++ chars) :: ·) := by
  induction chars generalizing read with
  | nil => simp [readFrom, ends]
  | cons c chars ih =>
    have later : ∀ d ∈ chars, needsQuotes d = false := fun d member => plain d (List.mem_cons_of_mem c member)
    rw [List.cons_append, readFrom_bare_plain (plain c List.mem_cons_self), ih later, List.append_assoc,
      List.singleton_append]

theorem readFrom_quoted (chars read rest : List Char) :
    readFrom (.quoted read) (escapeElement chars ++ quoteMark :: rest) =
      readFrom (.closed (read ++ chars)) rest := by
  induction chars generalizing read with
  | nil =>
    have apart : ¬quoteMark = '\\' := by decide
    simp [escapeElement, readFrom, apart]
  | cons c chars ih =>
    by_cases special : c = '\\' ∨ c = quoteMark
    · simp [escapeElement, special, readFrom, ih]
    · simp only [not_or] at special
      simp [escapeElement, special, readFrom, ih]

theorem ofBare_of_isPlainElement {element : List Char} (plain : isPlainElement element = true) :
    ofBare element = some element := by
  simp only [isPlainElement, Bool.and_eq_true, Bool.not_eq_true', bne_iff_ne, ne_eq,
    List.any_eq_false, Bool.not_eq_true] at plain
  have kept : element.reverse.dropWhile isSpace = element.reverse := by
    cases backwards : element.reverse with
    | nil => rfl
    | cons c cs =>
      have member : c ∈ element := List.mem_reverse.1 (backwards ▸ List.mem_cons_self)
      exact List.dropWhile_cons_of_neg (by simp [isSpace_of_plain (plain.2 c member)])
  rw [ofBare, kept, List.reverse_reverse]
  exact if_neg plain.1.2

theorem readFrom_arrayElement {separator : Char} {next : Scan} (ends : Scan.next? separator = some next)
    (first : Bool) (element rest : List Char) :
    readFrom (.element first) (arrayElement element ++ separator :: rest) =
      (readFrom next rest).map (some element :: ·) := by
  cases plain : isPlainElement element with
  | true =>
    have written : arrayElement element = element := if_pos plain
    have text := ofBare_of_isPlainElement plain
    simp only [isPlainElement, Bool.and_eq_true, Bool.not_eq_true', List.any_eq_false,
      Bool.not_eq_true] at plain
    cases element with
    | nil => cases plain.1.1
    | cons c chars =>
      have later : ∀ d ∈ chars, needsQuotes d = false :=
        fun d member => plain.2 d (List.mem_cons_of_mem c member)
      rw [written, List.cons_append, readFrom_element_plain (plain.2 c List.mem_cons_self),
        readFrom_bare ends chars later, List.singleton_append, text]
  | false =>
    have written : arrayElement element = quoteMark :: escapeElement element ++ [quoteMark] :=
      if_neg (by simp [plain])
    have separates : isSpace separator = false := by
      simp only [Scan.next?] at ends
      split at ends
      · rename_i comma
        subst comma
        decide
      · split at ends
        · rename_i brace
          subst brace
          decide
        · cases ends
    -- In quotes everything belongs to the element, up to the quote that is not escaped.
    have opened (cs : List Char) : readFrom (.element first) (quoteMark :: cs) = readFrom (.quoted []) cs := by
      have apart : isSpace quoteMark = false := by decide
      simp [readFrom, apart]
    rw [written, List.cons_append, List.cons_append, List.append_assoc, opened, List.singleton_append,
      readFrom_quoted]
    simp [readFrom, separates, ends]

theorem readFrom_elements (first : Bool) (element : List Char) (others : List (List Char)) :
    readFrom (.element first)
        (List.intercalate [','] ((element :: others).map arrayElement) ++ ['\x7d']) =
      some ((element :: others).map some) := by
  induction others generalizing first element with
  | nil =>
    have ends : Scan.next? '\x7d' = some .done := rfl
    simpa [readFrom] using readFrom_arrayElement ends first element []
  | cons second others ih =>
    have ends : Scan.next? ',' = some (.element false) := rfl
    have tail := ih false second
    rw [List.map_cons, List.map_cons, List.intercalate_cons_cons, List.append_assoc, List.append_assoc,
      List.singleton_append, readFrom_arrayElement ends, ← List.map_cons, tail]
    rfl

/-- Whatever the elements hold, they are read back as they are, and none of them as a null. -/
theorem read_arrayText (elements : List (List Char)) :
    read (arrayText elements) = some (elements.map some) := by
  have opened (cs : List Char) : readFrom .opening ('\x7b' :: cs) = readFrom (.element true) cs := rfl
  rw [read, arrayText, List.cons_append, opened]
  cases elements with
  | nil => rfl
  | cons element others => exact readFrom_elements true element others

/-- Only without quotes is the word a null, and only in quotes does an element begin or end with white
space. -/
example : read "\x7b a b , nUll,\"NULL\" ,\" \\\"\" \x7d".toList =
    some [some ['a', ' ', 'b'], none, some "NULL".toList, some [' ', quoteMark]] := by
  decide

end EntitySql.TextArray
