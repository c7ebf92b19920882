import EntitySql.Naming

/-! Entities declared as record types: the properties that the fields of a record give rise to. -/

set_option autoImplicit false

namespace EntitySql.Declaration

inductive Literal where
  | text (s : String)
  | integer (n : Int)
  deriving DecidableEq

structure Argument where
  path : String
  value : Option Literal
  deriving DecidableEq

inductive AttributeBody where
  /-- `#[path]` -/
  | bare
  /-- `#[path = "…"]` -/
  | assigned
  /-- `#[path(…)]` -/
  | arguments (args : List Argument)
  deriving DecidableEq

structure Attribute where
  path : String
  body : AttributeBody
  deriving DecidableEq

/-- A field; what is known of its type is left open. -/
structure Field (α : Type) where
  name : String
  type : α
  attributes : List Attribute

inductive Shape (α : Type) where
  | named (fields : List (Field α))
  | positional
  | unit
  | enumeration
  | union

structure Item (α : Type) where
  name : String
  /-- The generic parameters, without the brackets around them. -/
  generics : String
  attributes : List Attribute
  shape : Shape α

inductive Fault where
  | generic
  | unnamedFields
  | noStruct
  | unknownEntityAttribute
  | unknownPropertyAttribute
  | noText
  | noArguments (path : String)
  | noParentheses (path : String)
  | noEquals
  | noComma
  deriving DecidableEq

def Fault.message : Fault → String
  | .generic => "Entity derive does not support generic structs"
  | .unnamedFields => "Entity derive only supports structs with named fields"
  | .noStruct => "Entity derive only supports structs"
  | .unknownEntityAttribute => "unknown entity attribute"
  | .unknownPropertyAttribute => "unknown property attribute"
  | .noText => "expected a string literal"
  | .noArguments path => "expected attribute arguments in parentheses: #[" ++ path ++ "(...)]"
  | .noParentheses path => "expected parentheses: #[" ++ path ++ "(...)]"
  | .noEquals => "expected `=`"
  | .noComma => "expected `,`"

def Argument.text (a : Argument) : Except Fault String :=
  match a.value with
  | some (.text s) => .ok s
  | some (.integer _) => .error .noText
  | none => .error .noEquals

def Attribute.arguments (a : Attribute) : Except Fault (List Argument) :=
  match a.body with
  | .bare => .error (.noArguments a.path)
  | .assigned => .error (.noParentheses a.path)
  | .arguments args => .ok args

/-- The name an entity is given; the last one stands. -/
def readEntityArgument (_ : Option String) (a : Argument) : Except Fault (Option String) :=
  if a.path = "name" then a.text.map some else .error .unknownEntityAttribute

def readEntityAttribute (name : Option String) (a : Attribute) : Except Fault (Option String) :=
  if a.path = "entity" then do (← a.arguments).foldlM readEntityArgument name else .ok name

structure Marks where
  rename : Option String := none
  skip : Bool := false
  deriving DecidableEq

def readPropertyArgument (marks : Marks) (a : Argument) : Except Fault Marks :=
  if a.path = "skip" then
    if a.value.isSome then .error .noComma else .ok { marks with skip := true }
  else if a.path = "rename" then do return { marks with rename := some (← a.text) }
  else .error .unknownPropertyAttribute

/-- An attribute of its own, without arguments, says nothing. -/
def readPropertyAttribute (marks : Marks) (a : Attribute) : Except Fault Marks :=
  if a.path = "property" && a.body != .bare then do
    (← a.arguments).foldlM readPropertyArgument marks
  else .ok marks

structure FieldProperty (α : Type) where
  name : String
  field : String
  type : α

def fieldProperty {α : Type} (f : Field α) : Except Fault (Option (FieldProperty α)) := do
  let marks ← f.attributes.foldlM readPropertyAttribute {}
  if marks.skip then return none
  return some ⟨marks.rename.getD (Naming.pascalCase f.name), f.name, f.type⟩

def fieldProperties {α : Type} : List (Field α) → Except Fault (List (FieldProperty α))
  | [] => return []
  | f :: rest => do
    let first ← fieldProperty f
    let others ← fieldProperties rest
    return first.toList ++ others

structure Description (α : Type) where
  name : String
  entity : String
  properties : List (FieldProperty α)

def Shape.fields {α : Type} : Shape α → Except Fault (List (Field α))
  | .named fields => .ok fields
  | .positional | .unit => .error .unnamedFields
  | .enumeration | .union => .error .noStruct

/-- Only records with named fields and without parameters can be entities. -/
def describe {α : Type} (item : Item α) : Except Fault (Description α) := do
  if !Text.allBlank item.generics then throw .generic
  let entity ← item.attributes.foldlM readEntityAttribute none
  let fields ← item.shape.fields
  let properties ← fieldProperties fields
  return ⟨item.name, entity.getD item.name, properties⟩

end EntitySql.Declaration
