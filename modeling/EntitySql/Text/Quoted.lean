/-! Single-quoted SQL literals: a quote inside the text is written twice. -/

set_option autoImplicit false

namespace EntitySql.Text

def apostrophe : Char := '\x27'

def quoteMark : Char := '\x22'

def doubleQuotes : List Char → List Char
  | [] => []
  | c :: cs => if c = apostrophe then c :: c :: doubleQuotes cs else c :: doubleQuotes cs

/-- Undo the doubling; a quote that stands alone is refused. -/
def undoubleQuotes : List Char → Option (List Char)
  | [] => some []
  | [c] => if c = apostrophe then none else some [c]
  | c :: d :: cs =>
    if c = apostrophe then
      if d = apostrophe then (undoubleQuotes cs).map (c :: ·) else none
    else (undoubleQuotes (d :: cs)).map (c :: ·)

theorem undoubleQuotes_doubleQuotes (cs : List Char) :
    undoubleQuotes (doubleQuotes cs) = some cs := by
  induction cs with
  | nil => rfl
  | cons c cs ih =>
    by_cases quote : c = apostrophe
    · simp [doubleQuotes, undoubleQuotes, quote, ih]
    · cases tail : doubleQuotes cs with
      | nil =>
        rw [tail] at ih
        simp only [undoubleQuotes, Option.some.injEq] at ih
        simp [doubleQuotes, undoubleQuotes, quote, ← ih]
      | cons d ds =>
        rw [tail] at ih
        simp [doubleQuotes, undoubleQuotes, quote, tail, ih]

def quoted (s : String) : String :=
  String.ofList (apostrophe :: doubleQuotes s.toList ++ [apostrophe])

end EntitySql.Text
