import EntitySql.Condition
import EntitySql.Event

/-! Conditions as text. Every disjunction stands in parentheses, so the text means the same wherever it is
put; conjunctions need none. -/

set_option autoImplicit false

namespace EntitySql

def Mapping.expression (m : Mapping) (d : Dialect) (scope : Option String) : String :=
  match m.computed with
  | some expression => expression
  | none =>
    match scope with
    | none => d.quoteIdentifier m.column
    | some _ => m.reference scope

/-- What is extracted from a document is text, and is cast to what it is compared with. -/
def Operand.text (o : Operand) (d : Dialect) (scope : Option String) : String :=
  let base := o.mapping.expression d scope
  if o.keys.isEmpty then base
  else
    let extracted := d.jsonPath base o.keys
    match d.castType o.kind with
    | some type => d.cast extracted type
    | none => extracted

def Reference.text (r : Reference) (d : Dialect) : String :=
  match r with
  | .null => "NULL"
  | .parameter name document =>
    match document, d.castType .json with
    | true, some type => d.cast (d.parameter name) type
    | _, _ => d.parameter name

def Term.text (t : Term) (d : Dialect) (scope : Option String) : String :=
  match t with
  | .operand o => o.text d scope
  | .reference r => r.text d

namespace Condition

def truthText (b : Bool) : String :=
  if b then "TRUE" else "FALSE"

/-- A conjunction of nothing holds, and a disjunction of nothing does not. -/
def groupText (d : Dialect) (connective : Connective) (children : List String) : String :=
  if children.isEmpty then truthText (connective = .and)
  else
    let joined := String.intercalate (" " ++ d.connective connective ++ " ") children
    match connective with
    | .and => joined
    | .or => "(" ++ joined ++ ")"

mutual

def text (d : Dialect) (scope : Option String) : Condition → String
  | .compare left operator negate right =>
    left.text d scope ++ " " ++ d.comparison operator negate ++ " " ++ right.text d
  | .contains left right => left.text d scope ++ " " ++ d.containment ++ " " ++ right.text d
  | .member left negate items =>
    left.text d scope ++ " " ++ d.comparison .member negate
      ++ " (" ++ String.intercalate "," (items.map (·.text d)) ++ ")"
  | .isNull term negate => term.text d scope ++ (if negate then " IS NOT NULL" else " IS NULL")
  | .truth b => truthText b
  | .not c => "NOT (" ++ text d scope c ++ ")"
  | .group connective children => groupText d connective (texts d scope children)

def texts (d : Dialect) (scope : Option String) : List Condition → List String
  | [] => []
  | c :: rest => text d scope c :: texts d scope rest

end

theorem texts_eq_map (d : Dialect) (scope : Option String) (children : List Condition) :
    texts d scope children = children.map (text d scope) := by
  induction children with
  | nil => rfl
  | cons c rest ih => rw [texts, ih, List.map_cons]

def filterText (d : Dialect) (scope : Option String) (filter : Option Condition) : String :=
  (filter.map (text d scope)).getD ""

def filterEvents (d : Dialect) (scope : Option String) (filter : Option Condition) : List Event :=
  (filter.map fun c => Event.compiledPredicate (c.text d scope)).toList

end Condition

end EntitySql
