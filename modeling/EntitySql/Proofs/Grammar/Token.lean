import EntitySql.Text.Quoted

/-! The tokens of SQL expressions, and the reading of texts into tokens, one character after the other.
Qualified names are read as one token, and so is a placeholder with its sign. -/

set_option autoImplicit false

namespace EntitySql.Grammar

open EntitySql.Text (apostrophe doubleQuotes)

inductive Keyword where
  | or
  | and
  | not
  | is
  | null
  | true
  | false
  | member
  | like
  deriving DecidableEq

def Keyword.ofText? (s : String) : Option Keyword :=
  match String.ofList (s.toList.map Char.toLower) with
  | "or" => some .or
  | "and" => some .and
  | "not" => some .not
  | "is" => some .is
  | "null" => some .null
  | "true" => some .true
  | "false" => some .false
  | "in" => some .member
  | "like" => some .like
  | _ => none

def Keyword.text : Keyword → String
  | .or => "OR"
  | .and => "AND"
  | .not => "NOT"
  | .is => "IS"
  | .null => "NULL"
  | .true => "TRUE"
  | .false => "FALSE"
  | .member => "IN"
  | .like => "LIKE"

inductive Token where
  | keyword (k : Keyword)
  | name (text : String)
  | parameter (name : String)
  | literal (text : String)
  | symbol (text : String)
  | typeCast
  | comma
  | opening
  | closing
  deriving DecidableEq

def Token.ofWord (text : String) : Token :=
  match Keyword.ofText? text with
  | some k => .keyword k
  | none => .name text

/-- Letters beyond ASCII are all allowed in names. -/
def isWordChar (c : Char) : Bool :=
  c.isAlphanum || c = '_' || c = '.' || c = '$' || 0x80 ≤ c.toNat

def isParameterChar (c : Char) : Bool :=
  c.isAlphanum || c = '_'

def symbolChars : List Char :=
  ['+', '-', '*', '/', '<', '>', '=', '~', '!', '@', '#', '%', '^', '&', '|', '?']

def isSymbolChar (c : Char) : Bool :=
  c ∈ symbolChars

theorem isWordChar_of_isSymbolChar {c : Char} (symbol : isSymbolChar c = true) : isWordChar c = false := by
  have listed : c ∈ symbolChars := of_decide_eq_true symbol
  have apart : symbolChars.all (fun d => !isWordChar d) = true := by decide
  simpa using List.all_eq_true.1 apart c listed

inductive Scan where
  | between
  | word (read : List Char)
  | symbol (read : List Char)
  | parameter (read : List Char)
  | literal (read : List Char)
  /-- After a quote: the end of the literal, or the first of two quotes that stand for one. -/
  | closed (read : List Char)
  | colon
  | complete (t : Token)

namespace Scan

def extend? (c : Char) : Scan → Option Scan
  | .word read => if isWordChar c then some (.word (read ++ [c])) else none
  | .symbol read =>
    if isSymbolChar c then some (.symbol (read ++ [c]))
    else if read = ['@'] && isParameterChar c then some (.parameter [c])
    else none
  | .parameter read => if isParameterChar c then some (.parameter (read ++ [c])) else none
  | .literal read => some (if c = apostrophe then .closed read else .literal (read ++ [c]))
  | .closed read => if c = apostrophe then some (.literal (read ++ [c])) else none
  | .colon => if c = ':' then some (.complete .typeCast) else none
  | .between | .complete _ => none

/-- A literal must be closed, and a single colon is nothing. -/
def finish? : Scan → Option (List Token)
  | .between => some []
  | .word read => some [.ofWord (String.ofList read)]
  | .symbol read => some [.symbol (String.ofList read)]
  | .parameter read => some [.parameter (String.ofList read)]
  | .closed read => some [.literal (String.ofList read)]
  | .complete t => some [t]
  | .literal _ | .colon => none

@[simp] theorem extend?_between (c : Char) : Scan.between.extend? c = none := rfl

@[simp] theorem finish?_between : Scan.between.finish? = some [] := rfl

def start? (c : Char) : Option Scan :=
  if isWordChar c then some (.word [c])
  else if isSymbolChar c then some (.symbol [c])
  else if c.isWhitespace then some .between
  else if c = apostrophe then some (.literal [])
  else if c = ':' then some .colon
  else if c = '(' then some (.complete .opening)
  else if c = ')' then some (.complete .closing)
  else if c = ',' then some (.complete .comma)
  else none

end Scan

def lexFrom : Scan → List Char → Option (List Token)
  | scan, [] => scan.finish?
  | scan, c :: cs =>
    match scan.extend? c with
    | some scan => lexFrom scan cs
    | none => do
      let done ← scan.finish?
      let next ← Scan.start? c
      let rest ← lexFrom next cs
      return done ++ rest

def lex (s : String) : Option (List Token) :=
  lexFrom .between s.toList

/-- The characters that may stand right behind a word, a placeholder or a literal in a larger text. -/
def Ends (rest : List Char) : Prop :=
  ∀ c ∈ rest.head?, c = ' ' ∨ c = ')' ∨ c = ',' ∨ c = ':'

/-- The text is read as these tokens, wherever it ends properly. -/
def Lexes (s : String) (ts : List Token) : Prop :=
  ∀ rest, Ends rest → lexFrom .between (s.toList ++ rest) = (lexFrom .between rest).map (ts ++ ·)

theorem lexFrom_finished {scan : Scan} {done : List Token} (finished : scan.finish? = some done)
    {rest : List Char} (ended : ∀ c ∈ rest.head?, scan.extend? c = none) :
    lexFrom scan rest = (lexFrom .between rest).map (done ++ ·) := by
  cases rest with
  | nil => simp [lexFrom, finished]
  | cons c cs =>
    have apart : scan.extend? c = none := ended c rfl
    simp only [lexFrom, apart, Scan.extend?_between, finished, Scan.finish?_between]
    cases Scan.start? c with
    | none => rfl
    | some next => cases rest : lexFrom next cs <;> simp [rest]

theorem lexFrom_run (scan : List Char → Scan) (belongs : Char → Bool)
    (extends_ : ∀ read c, belongs c = true → (scan read).extend? c = some (scan (read ++ [c])))
    (cs : List Char) (member : ∀ c ∈ cs, belongs c = true) (read rest : List Char) :
    lexFrom (scan read) (cs ++ rest) = lexFrom (scan (read ++ cs)) rest := by
  induction cs generalizing read with
  | nil => simp
  | cons c cs ih =>
    have first := extends_ read c (member c (by simp))
    have onward := ih (fun d belonging => member d (List.mem_cons_of_mem c belonging)) (read ++ [c])
    simp only [List.cons_append, lexFrom, first, onward, List.append_assoc, List.nil_append]

theorem lexFrom_started {c : Char} {next : Scan} (started : Scan.start? c = some next)
    (cs : List Char) : lexFrom .between (c :: cs) = lexFrom next cs := by
  simp only [lexFrom, Scan.extend?_between, Scan.finish?_between, started]
  cases rest : lexFrom next cs <;> simp [rest]

section

variable {rest : List Char}

theorem lexFrom_chars {scan : List Char → Scan} {belongs : Char → Bool}
    (extends_ : ∀ read c, belongs c = true → (scan read).extend? c = some (scan (read ++ [c])))
    {c : Char} {cs : List Char} (started : Scan.start? c = some (scan [c]))
    (member : ∀ d ∈ cs, belongs d = true) {t : Token} (finished : (scan (c :: cs)).finish? = some [t])
    (ended : ∀ d ∈ rest.head?, (scan (c :: cs)).extend? d = none) :
    lexFrom .between (c :: cs ++ rest) = (lexFrom .between rest).map (t :: ·) := by
  have run := lexFrom_run scan belongs extends_ cs member [c] rest
  rw [List.cons_append, lexFrom_started started, run]
  exact lexFrom_finished finished ended

theorem lexFrom_word {text : String} (nonempty : text ≠ "")
    (word : text.toList.all isWordChar = true)
    (ended : ∀ c ∈ rest.head?, isWordChar c = false) :
    lexFrom .between (text.toList ++ rest) = (lexFrom .between rest).map (Token.ofWord text :: ·) := by
  cases chars : text.toList with
  | nil => exact absurd (String.toList_eq_nil_iff.1 chars) nonempty
  | cons c cs =>
    rw [chars, List.all_eq_true] at word
    have started : Scan.start? c = some (.word [c]) := by simp [Scan.start?, word c (by simp)]
    have finished : (Scan.word (c :: cs)).finish? = some [Token.ofWord text] := by
      simp [Scan.finish?, ← chars]
    refine lexFrom_chars (fun read d belongs => by simp [Scan.extend?, belongs]) started
      (fun d member => word d (List.mem_cons_of_mem c member)) finished fun d head => ?_
    simp [Scan.extend?, ended d head]

theorem lexFrom_symbol {text : String} (nonempty : text ≠ "")
    (symbol : text.toList.all isSymbolChar = true)
    (ended : ∀ c ∈ rest.head?, isSymbolChar c = false ∧ isParameterChar c = false) :
    lexFrom .between (text.toList ++ rest) = (lexFrom .between rest).map (Token.symbol text :: ·) := by
  cases chars : text.toList with
  | nil => exact absurd (String.toList_eq_nil_iff.1 chars) nonempty
  | cons c cs =>
    rw [chars, List.all_eq_true] at symbol
    have own : isSymbolChar c = true := symbol c (by simp)
    have started : Scan.start? c = some (.symbol [c]) := by
      simp [Scan.start?, own, isWordChar_of_isSymbolChar own]
    have finished : (Scan.symbol (c :: cs)).finish? = some [Token.symbol text] := by
      simp [Scan.finish?, ← chars]
    refine lexFrom_chars (fun read d belongs => by simp [Scan.extend?, belongs]) started
      (fun d member => symbol d (List.mem_cons_of_mem c member)) finished fun d head => ?_
    simp [Scan.extend?, ended d head]

theorem lexFrom_literal (s : String) (ended : ∀ c ∈ rest.head?, c ≠ apostrophe) :
    lexFrom .between ((Text.quoted s).toList ++ rest) =
      (lexFrom .between rest).map (Token.literal s :: ·) := by
  have inside (cs read : List Char) : lexFrom (.literal read) (doubleQuotes cs ++ apostrophe :: rest) =
      lexFrom (.closed (read ++ cs)) rest := by
    -- The first of two quotes only looks like the end; the second takes that back.
    induction cs generalizing read with
    | nil => simp [doubleQuotes, lexFrom, Scan.extend?]
    | cons c cs ih =>
      by_cases quote : c = apostrophe
      · simp [doubleQuotes, lexFrom, Scan.extend?, quote, ih]
      · simp [doubleQuotes, lexFrom, Scan.extend?, quote, ih]
  have started : Scan.start? apostrophe = some (.literal []) := rfl
  have finished : (Scan.closed s.toList).finish? = some [Token.literal s] := by simp [Scan.finish?]
  have shape : (Text.quoted s).toList ++ rest =
      apostrophe :: (doubleQuotes s.toList ++ apostrophe :: rest) := by simp [Text.quoted]
  rw [shape, lexFrom_started started, inside, List.nil_append]
  exact lexFrom_finished finished fun d head => by simp [Scan.extend?, ended d head]

theorem lexFrom_space (cs : List Char) : lexFrom .between (' ' :: cs) = lexFrom .between cs := by
  have started : Scan.start? ' ' = some .between := rfl
  exact lexFrom_started started cs

theorem lexFrom_punctuation {c : Char} {t : Token} (started : Scan.start? c = some (.complete t))
    (cs : List Char) : lexFrom .between (c :: cs) = (lexFrom .between cs).map (t :: ·) := by
  have finished : (Scan.complete t).finish? = some [t] := rfl
  rw [lexFrom_started started]
  exact lexFrom_finished finished fun _ _ => rfl

end

/-- A text that is read as a whole is read the same before characters that do not belong to the last token
of it. -/
theorem lexFrom_append {scan : Scan} {cs rest : List Char} {ts : List Token} (whole : lexFrom scan cs = some ts)
    (apart : ∀ (last : Scan) (before done : List Token), last.finish? = some done → ts = before ++ done →
      ∀ c ∈ rest.head?, last.extend? c = none) :
    lexFrom scan (cs ++ rest) = (lexFrom .between rest).map (ts ++ ·) := by
  induction cs generalizing scan ts with
  | nil =>
    have finished : scan.finish? = some ts := whole
    exact lexFrom_finished finished (apart scan [] ts finished rfl)
  | cons c cs ih =>
    simp only [List.cons_append, lexFrom] at whole ⊢
    split at whole
    · rename_i next extended
      simpa only [extended] using ih whole apart
    · rename_i extended
      simp only [Option.bind_eq_bind, Option.bind_eq_some_iff] at whole
      obtain ⟨done, finished, next, started, others, read, joined⟩ := whole
      obtain rfl : done ++ others = ts := by simpa using joined
      -- What ends the other tokens ends all of them.
      have onward := ih read fun last before later finished' same =>
        apart last (done ++ before) later finished' (by rw [same, List.append_assoc])
      simp only [finished, started, onward, Option.bind_eq_bind, Option.bind_some]
      cases lexFrom .between rest <;> simp

/-- A space belongs to literals alone, and an open literal is no whole text. -/
theorem lexFrom_append_space {scan : Scan} {cs : List Char} {ts : List Token}
    (whole : lexFrom scan cs = some ts) (rest : List Char) :
    lexFrom scan (cs ++ ' ' :: rest) = (lexFrom .between rest).map (ts ++ ·) := by
  rw [lexFrom_append whole, lexFrom_space]
  intro last before done finished _ c head
  obtain rfl : c = ' ' := by simpa [eq_comm] using head
  cases last with
  | literal read => cases finished
  | symbol read => simp [Scan.extend?, isSymbolChar, symbolChars, isParameterChar]
  | word read => rfl
  | parameter read => rfl
  | closed read => rfl
  | colon => rfl
  | between => rfl
  | complete t => rfl

theorem lexFrom_append_sign {scan : Scan} {cs : List Char} {before : List Token} {t : Token}
    (whole : lexFrom scan cs = some (before ++ [t])) (apart : ∀ text, t ≠ .symbol text) (rest : List Char) :
    lexFrom scan (cs ++ '#' :: rest) = (lexFrom .between ('#' :: rest)).map (before ++ [t] ++ ·) := by
  refine lexFrom_append whole fun last others done finished same c head => ?_
  obtain rfl : c = '#' := by simpa [eq_comm] using head
  -- Only a literal and a symbol could go on with the sign, and the text ends in neither.
  cases last with
  | literal read => cases finished
  | symbol read =>
    obtain rfl : [Token.symbol (String.ofList read)] = done := Option.some.inj finished
    have ends := (List.append_inj' same rfl).2
    exact absurd (List.singleton_inj.1 ends) (apart _)
  | word read => rfl
  | parameter read => rfl
  | closed read => rfl
  | colon => rfl
  | between => rfl
  | complete t => rfl

end EntitySql.Grammar
