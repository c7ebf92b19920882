import EntitySql.Binding
import EntitySql.Condition
import EntitySql.Value.Document

/-! From predicates to conditions: properties are resolved against a schema and values are bound, from left
to right, up to the first comparison that fails. -/

set_option autoImplicit false

namespace EntitySql

/-- The kind that a part of a document is compared as. A list of values goes by its first item that is
not null. -/
def Comparison.kind (c : Comparison) : Kind :=
  match c.value, c.operator with
  | .array items, .member => ((items.map Value.kind).find? (· ≠ .null)).getD .null
  | .array _, _ => .json
  | v, _ => v.kind

/-- Only document columns can be entered. -/
def Comparison.operand (c : Comparison) (schema : Schema) : Except Error Operand := do
  let path := c.path
  let mapping ← schema.resolve path.property
  if path.keys.isEmpty || mapping.isDocument then return ⟨mapping, path.keys, c.kind⟩
  else throw (.notNavigable c.property mapping.column)

namespace Operand

def parameterName (o : Operand) : String :=
  Naming.placeholder o.mapping.column o.keys

def stored (o : Operand) (v : Value) : Value :=
  if o.isDocument then v.toDocument else v

def bind (o : Operand) (name : String) (v : Value) (ps : Parameters) : Reference × Parameters :=
  let stored := o.stored v
  let (chosen, ps) := ps.assign name stored
  (.parameter chosen (stored.kind = .json), ps)

/-- Bind the items of a list, counted from `i`. A null is written as it is. -/
def bindItems (o : Operand) : Nat → List Value → Parameters → List Reference × Parameters
  | _, [], ps => ([], ps)
  | i, v :: rest, ps =>
    let (first, ps) :=
      if v.isNull then (.null, ps) else o.bind (o.parameterName ++ "_" ++ toString i) v ps
    let (others, ps) := o.bindItems (i + 1) rest ps
    (first :: others, ps)

end Operand

namespace Comparison

def withNull (c : Comparison) (left : Operand) : Condition :=
  match c.operator with
  | .eq => .isNull (.operand left) c.negate
  | .member => .member left c.negate [.null]
  | operator => .compare left operator c.negate .null

def membership (c : Comparison) (left : Operand) (ps : Parameters) : Condition × Parameters :=
  match c.value with
  | .array [] => (.truth c.negate, ps)
  | .array items =>
    let (references, ps) := left.bindItems 0 items ps
    (.member left c.negate references, ps)
  | v =>
    let (reference, ps) := left.bind left.parameterName v ps
    (.member left c.negate [reference], ps)

def containment (left : Operand) (right : Reference) (negate : Bool) : Condition :=
  if negate then .not (.contains left right) else .contains left right

def relation (c : Comparison) (left : Operand) (right : Reference) : Condition :=
  if c.operator = .like && c.value.kind.isStructured then containment left right c.negate
  else if c.operator = .eq && !c.strict then .nullSafe left right c.negate
  else .compare left c.operator c.negate right

def condition (c : Comparison) (left : Operand) (ps : Parameters) : Condition × Parameters :=
  if c.value.isNull then (c.withNull left, ps)
  else if c.operator = .member then c.membership left ps
  else
    let (right, ps) := left.bind left.parameterName c.value ps
    (c.relation left right, ps)

def compile (schema : Schema) (c : Comparison) : Binding Condition := do
  let left ← Binding.ofExcept (c.operand schema)
  Binding.ofState (c.condition left)

end Comparison

namespace Predicate

mutual

def compile (schema : Schema) : Predicate → Binding Condition
  | .comparison c => c.compile schema
  | .group connective children => do
    let conditions ← compileAll schema children
    return .group connective conditions

def compileAll (schema : Schema) : List Predicate → Binding (List Condition)
  | [] => return []
  | p :: rest => do
    let first ← compile schema p
    let others ← compileAll schema rest
    return first :: others

end

def compileFilter (schema : Schema) : Option Predicate → Binding (Option Condition)
  | none => return none
  | some p => do
    let condition ← p.compile schema
    return some condition

end Predicate

end EntitySql
