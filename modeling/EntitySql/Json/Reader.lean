import EntitySql.Decimal.Numeral
import EntitySql.Json.Token
import EntitySql.Json.Basic

/-! Reading JSON text. The containers that are still open are kept on a stack, so a document may be
nested to any depth. -/

set_option autoImplicit false

namespace EntitySql.Json

def isJsonNumeral (n : Decimal.Numeral) : Bool :=
  n.sign != some '+' && (n.whole.length = 1 || n.whole.head? != some '0')
    && !n.whole.isEmpty && n.fraction != some []

/-- Digits alone are an integer as long as sixty-four bits hold it, signed below zero and unsigned above;
a zero with a sign and every other number is a double, which has to be finite. -/
def Number.ofNumeral? (n : Decimal.Numeral) : Option Number :=
  let value := n.toInt
  if n.isWhole && -0x8000000000000000 ≤ value && value < 0x10000000000000000
      && !(n.isNegative && value = 0) then
    some (.integer value)
  else
    let x : Float := n.toFloat
    if x.isFinite then some (.double x) else none

def ofWord? (cs : List Char) : Option Json :=
  if cs = "null".toList then some .null
  else if cs = "true".toList then some (.bool true)
  else if cs = "false".toList then some (.bool false)
  else do
    let numeral ← Decimal.Numeral.read? cs
    guard (isJsonNumeral numeral)
    (Number.ofNumeral? numeral).map .number

inductive Frame where
  /-- The items, last first. -/
  | array (items : List Json)
  /-- The members, and the key of the value to come. -/
  | object (members : List (String × Json)) (key : String)

inductive Expect where
  | value
  /-- The first item of an array, or its end. -/
  | item
  | key (members : List (String × Json))
  /-- The first key of an object, or its end. -/
  | member
  | colon (members : List (String × Json)) (key : String)
  /-- A value is complete: the next item or member, or the end of the container. -/
  | next (value : Json)

structure Reading where
  stack : List Frame
  expect : Expect

namespace Reading

def start : Reading := ⟨[], .value⟩

def value? (stack : List Frame) : Token → Option Reading
  | .openArray => some ⟨.array [] :: stack, .item⟩
  | .openObject => some ⟨stack, .member⟩
  | .text s => some ⟨stack, .next (.text s)⟩
  | .word cs => (ofWord? cs).map fun value => ⟨stack, .next value⟩
  | _ => none

def step? (r : Reading) (token : Token) : Option Reading :=
  match r.expect, token with
  | .value, token => value? r.stack token
  | .item, .closeArray =>
    match r.stack with
    | .array items :: stack => some ⟨stack, .next (.array items.reverse)⟩
    | _ => none
  | .item, token => value? r.stack token
  | .key members, .text key => some ⟨r.stack, .colon members key⟩
  | .member, .closeObject => some ⟨r.stack, .next (.object [])⟩
  | .member, .text key => some ⟨r.stack, .colon [] key⟩
  | .colon members key, .colon => some ⟨.object members key :: r.stack, .value⟩
  | .next value, token =>
    match r.stack, token with
    | .array items :: stack, .comma => some ⟨.array (value :: items) :: stack, .value⟩
    | .array items :: stack, .closeArray => some ⟨stack, .next (.array (value :: items).reverse)⟩
    | .object members key :: stack, .comma => some ⟨stack, .key (put key value members)⟩
    | .object members key :: stack, .closeObject =>
      some ⟨stack, .next (.object (put key value members))⟩
    | _, _ => none
  | _, _ => none

def result? (r : Reading) : Option Json :=
  match r.stack, r.expect with
  | [], .next value => some value
  | _, _ => none

end Reading

def read? (s : String) : Option Json := do
  let tokens ← tokens? s
  let reading ← tokens.foldlM Reading.step? Reading.start
  reading.result?

end EntitySql.Json
