import EntitySql.Text.Blank
import EntitySql.Text.Uppercase
import EntitySql.Text.Lowercase
import EntitySql.Text.Segments

/-! Names: how columns, tables, aliases, properties and placeholders are called. -/

set_option autoImplicit false

namespace EntitySql.Naming

open EntitySql.Text

def lowered (c : Char) : List Char :=
  if isUppercase c then lowercase c else [c]

def snakeChars : List Char → List Char
  | [] => []
  | c :: cs => lowered c ++ cs.flatMap fun d => if isUppercase d then '_' :: lowered d else [d]

def snakeCase (s : String) : String :=
  String.ofList (snakeChars s.toList)

/-- Underscores go, and a letter after one, or at the start, becomes an ASCII capital. -/
def pascalChars (wordStart : Bool) : List Char → List Char
  | [] => []
  | c :: cs =>
    if c = '_' then pascalChars true cs
    else (if wordStart then c.toUpper else c) :: pascalChars false cs

def pascalCase (s : String) : String :=
  String.ofList (pascalChars true s.toList)

def foldAscii (cs : List Char) : List Char :=
  cs.map Char.toLower

/-- Cut after the first `n` bytes of UTF-8. There is no cut inside a character or past the end. -/
def cutAtByte : Nat → List Char → Option (List Char × List Char)
  | 0, cs => some ([], cs)
  | _ + 1, [] => none
  | n + 1, c :: cs =>
    if c.utf8Size ≤ n + 1 then
      (cutAtByte (n + 1 - c.utf8Size) cs).map fun (head, tail) => (c :: head, tail)
    else none

theorem append_of_cutAtByte {n : Nat} {cs head tail : List Char}
    (cut : cutAtByte n cs = some (head, tail)) : cs = head ++ tail := by
  induction cs generalizing n head with
  | nil => cases n <;> simp_all [cutAtByte]
  | cons c cs ih =>
    cases n with
    | zero =>
      simp only [cutAtByte, Option.some.injEq, Prod.mk.injEq] at cut
      simp [← cut.1, ← cut.2]
    | succ n =>
      simp only [cutAtByte] at cut
      split at cut
      · simp only [Option.map_eq_some_iff, Prod.mk.injEq, Prod.exists] at cut
        obtain ⟨inner, _, found, rfl, rfl⟩ := cut
        simp [ih found]
      · cases cut

/-- `input` without `suffix` at its end, up to ASCII case. Blank texts have no suffix to lose. -/
def stripSuffix (input suffix : String) : String :=
  -- Letters that differ in ASCII case only are equally long in bytes.
  if allBlank input || allBlank suffix || input.utf8ByteSize < suffix.utf8ByteSize then input
  else
    match cutAtByte (input.utf8ByteSize - suffix.utf8ByteSize) input.toList with
    | some (head, tail) =>
      if foldAscii tail = foldAscii suffix.toList then String.ofList head else input
    | none => input

def initials (table : String) : String :=
  let (first, rest) := segments '_' table.toList
  String.ofList ((first :: rest).filterMap List.head?)

def placeholderChar (c : Char) : Char :=
  if c.isAlphanum || c = '_' then c else '_'

def placeholder (column : String) (path : List String) : String :=
  String.ofList ((path.foldl (fun name segment => name ++ "_" ++ segment) column).toList.map placeholderChar)

end EntitySql.Naming
