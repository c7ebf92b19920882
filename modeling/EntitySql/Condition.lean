import EntitySql.Predicate
import EntitySql.Schema

/-! Conditions: what a predicate comes down to once its properties are resolved and its values are bound.
A condition knows no dialect; the text is made from it at the end. -/

set_option autoImplicit false

namespace EntitySql

/-- A column, or the part of a document column that lies under `keys`, compared as `kind`. -/
structure Operand where
  mapping : Mapping
  keys : List String
  kind : Kind

def Operand.isDocument (o : Operand) : Bool :=
  if o.keys.isEmpty then o.mapping.isDocument else o.kind = .json

/-- The other side of a comparison: null, or a parameter, which may hold a document. -/
inductive Reference where
  | null
  | parameter (name : String) (document : Bool)
  deriving DecidableEq

inductive Term where
  | operand (o : Operand)
  | reference (r : Reference)

inductive Condition where
  | compare (left : Operand) (operator : Operator) (negate : Bool) (right : Reference)
  | contains (left : Operand) (right : Reference)
  | member (left : Operand) (negate : Bool) (items : List Reference)
  | isNull (term : Term) (negate : Bool)
  | truth (b : Bool)
  | not (c : Condition)
  | group (connective : Connective) (children : List Condition)

namespace Condition

/-- Equality that holds when both sides are null. Negated, it holds when exactly one of them is. -/
def nullSafe (left : Operand) (right : Reference) (negate : Bool) : Condition :=
  let nulls (leftNull rightNull : Bool) : Condition :=
    .group .and [.isNull (.operand left) !leftNull, .isNull (.reference right) !rightNull]
  -- A comparison with null is unknown, so the tests for null come beside it.
  if negate then
    .group .or [.compare left .eq true right, nulls true false, nulls false true]
  else
    .group .or [.compare left .eq false right, nulls true true]

end Condition

end EntitySql
