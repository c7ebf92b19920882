import EntitySql.Dialect
import EntitySql.Text.Blank
import EntitySql.Text.Quoted

/-! The dialect of PostgreSQL. -/

set_option autoImplicit false

namespace EntitySql.Dialect

namespace Postgres

def comparison : Operator → Bool → String
  | .eq, false => "="
  | .eq, true => "!="
  | .like, false => "LIKE"
  | .like, true => "NOT LIKE"
  | .gt, false => ">"
  | .gt, true => "<="
  | .ge, false => ">="
  | .ge, true => "<"
  | .lt, false => "<"
  | .lt, true => ">="
  | .le, false => "<="
  | .le, true => ">"
  | .member, false => "IN"
  | .member, true => "NOT IN"

def connective : Connective → String
  | .and => "AND"
  | .or => "OR"

def needsQuotes (c : Char) : Bool :=
  c = '\x7b' || c = '\x7d' || c = ',' || c = Text.quoteMark || c = '\\' || Text.isBlank c

/-- An element that can be written as it is. Unquoted, the word null would not be a text. -/
def isPlainElement (element : List Char) : Bool :=
  !element.isEmpty && element.map Char.toLower != "null".toList && !element.any needsQuotes

def escapeElement : List Char → List Char
  | [] => []
  | c :: cs =>
    if c = '\\' || c = Text.quoteMark then '\\' :: c :: escapeElement cs else c :: escapeElement cs

def arrayElement (element : List Char) : List Char :=
  if isPlainElement element then element
  else Text.quoteMark :: escapeElement element ++ [Text.quoteMark]

def arrayText (elements : List (List Char)) : List Char :=
  '\x7b' :: List.intercalate [','] (elements.map arrayElement) ++ ['\x7d']

def jsonPath (expression : String) (keys : List String) : String :=
  expression ++ "#>>" ++ Text.quoted (String.ofList (arrayText (keys.map String.toList)))

/-- Names, qualified names and placeholders need no parentheses before a cast. -/
def isAtomic (expression : String) : Bool :=
  !expression.isEmpty
    && expression.toList.all fun c => c.isAlphanum || c = '_' || c = '.' || c = '@' || c = '$'

def cast (expression type : String) : String :=
  if isAtomic expression then expression ++ "::" ++ type else "(" ++ expression ++ ")::" ++ type

def castType : Kind → Option String
  | .int => some "bigint"
  | .float => some "decimal"
  | .bool => some "boolean"
  | .json => some "jsonb"
  | _ => none

def columnTypeName : ColumnType → String
  | .jsonb => "jsonb"

end Postgres

def postgres : Dialect where
  name := "postgres"
  parameter name := "@" ++ name
  quoteIdentifier name := name
  comparison := Postgres.comparison
  connective := Postgres.connective
  containment := "@>"
  jsonPath := Postgres.jsonPath
  cast := Postgres.cast
  castType := Postgres.castType
  columnTypeName := Postgres.columnTypeName

end EntitySql.Dialect
