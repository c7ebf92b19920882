import EntitySql.Json.Printer
import EntitySql.Text.Quoted
import EntitySql.Value

/-! Values as SQL literals, to be read by people; statements themselves only hold placeholders. -/

set_option autoImplicit false

namespace EntitySql.Value

def floatLayout : Decimal.Layout where
  plain := none
  pointZero := false
  tie := .up

def floatText (x : Float) : String :=
  if x.isNaN then "NaN"
  else if x.isInf then if x < 0 then "-inf" else "inf"
  else floatLayout.render x

mutual

def literal : Value → String
  | .null => "NULL"
  | .bool b => if b then "TRUE" else "FALSE"
  | .int n => toString n.toInt
  | .float x => floatText x
  | .text s => Text.quoted s
  | .uuid u => Text.quoted u.text
  | .timestamp t => Text.quoted (t.text Timestamp.literalZone)
  | .json document => Text.quoted document.render
  | .array items => "[" ++ String.intercalate ", " (itemLiterals items) ++ "]"

def itemLiterals : List Value → List String
  | [] => []
  | item :: rest => literal item :: itemLiterals rest

end

end EntitySql.Value
