import EntitySql.Decimal.Layout
import EntitySql.Json.Basic

/-! Compact JSON text: no spaces, and only the escapes that JSON demands. -/

set_option autoImplicit false

namespace EntitySql.Json

/-- Doubles are written with the fewest digits, always with a fraction or an exponent, and without an
exponent from `0.00001` up to sixteen places before the point. -/
def doubleLayout : Decimal.Layout where
  plain := some (-4, 16)
  pointZero := true
  tie := .even

def Number.render : Number → String
  | .integer n => toString n
  | .double x => doubleLayout.render x

def escapeChar (c : Char) : List Char :=
  match c with
  | '\x22' => ['\\', '\x22']
  | '\\' => ['\\', '\\']
  | '\x08' => ['\\', 'b']
  | '\x09' => ['\\', 't']
  | '\x0a' => ['\\', 'n']
  | '\x0c' => ['\\', 'f']
  | '\x0d' => ['\\', 'r']
  | c =>
    if c.toNat < 0x20 then
      ['\\', 'u', '0', '0', Nat.digitChar (c.toNat / 16), Nat.digitChar (c.toNat % 16)]
    else [c]

def renderText (s : String) : String :=
  String.ofList ('\x22' :: s.toList.flatMap escapeChar ++ ['\x22'])

mutual

def render : Json → String
  | .null => "null"
  | .bool b => if b then "true" else "false"
  | .number n => n.render
  | .text s => renderText s
  | .array items => "[" ++ String.intercalate "," (renderItems items) ++ "]"
  | .object members => "\x7b" ++ String.intercalate "," (renderMembers members) ++ "\x7d"

def renderItems : List Json → List String
  | [] => []
  | item :: rest => render item :: renderItems rest

def renderMembers : List (String × Json) → List String
  | [] => []
  | (key, value) :: rest => (renderText key ++ ":" ++ render value) :: renderMembers rest

end

end EntitySql.Json
