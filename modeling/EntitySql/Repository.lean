import EntitySql.Predicate.Compile
import EntitySql.Statement

/-! The statements that read and write the entities of one schema. -/

set_option autoImplicit false

namespace EntitySql

/-- A schema and the name of the entity it belongs to, which only error messages use. -/
structure Repository where
  schema : Schema
  entity : String

inductive Purpose where
  | insertion
  | update
  deriving DecidableEq

inductive Writing where
  | omit
  | generate (generator : Generator)
  | bind

/-- Read-only columns are never written. Generated ones are written on insertion, and only then. -/
def Mapping.writing (m : Mapping) (purpose : Purpose) : Writing :=
  if m.readOnly then .omit
  else
    match m.onInsert, purpose with
    | some generator, .insertion => .generate generator
    | some _, .update => .omit
    | none, _ => .bind

def Mapping.stored (m : Mapping) (v : Value) : Value :=
  if m.isDocument then v.toDocument else v

inductive OnConflict where
  | update
  | nothing
  deriving DecidableEq

namespace Repository

def assignmentsOf (r : Repository) (purpose : Purpose) (record : Record) :
    List (String × Value) → Binding (List Assignment)
  | [] => return []
  | (property, value) :: rest => do
    let mapping ← Binding.ofExcept (r.schema.resolve property)
    match mapping.writing purpose with
    | .omit => r.assignmentsOf purpose record rest
    | .generate generator =>
      let others ← r.assignmentsOf purpose record rest
      return ⟨property, mapping, .generated (generator record)⟩ :: others
    | .bind =>
      let name ← Binding.assign (Naming.placeholder mapping.column []) (mapping.stored value)
      let others ← r.assignmentsOf purpose record rest
      return ⟨property, mapping, .parameter name⟩ :: others

def assignments (r : Repository) (purpose : Purpose) (record : Record) : Binding (List Assignment) :=
  r.assignmentsOf purpose record record.values

/-- The row with a key: plain equality, since keys are never null. -/
def keyPredicate (r : Repository) (key : Value) : Predicate :=
  .strictEq r.schema.key key

def find (r : Repository) (predicate : Option Predicate) : Binding Statement := do
  let filter ← Predicate.compileFilter r.schema predicate
  return .select {
    columns := r.schema.columns.mappings
    table := r.schema.table
    scope := r.schema.scope
    joins := r.schema.joins
    filter := filter
    ordering := r.schema.orderingMapping }

def get (r : Repository) (key : Value) : Binding Statement :=
  r.find (some (r.keyPredicate key))

def getAll (r : Repository) : Binding Statement :=
  r.find none

def create (r : Repository) (record : Record) : Binding Statement := do
  let assignments ← r.assignments .insertion record
  return .insert ⟨r.schema.table, assignments, none⟩

def conflict (r : Repository) (policy : OnConflict) (assignments : List Assignment) : Conflict where
  keyColumn := r.schema.keyMapping.column
  overwritten :=
    match policy with
    | .update => (assignments.filter (·.isUpdatable r.schema.key)).map (·.mapping.column)
    | .nothing => []

def upsert (r : Repository) (record : Record) (policy : OnConflict) : Binding Statement := do
  let assignments ← r.assignments .insertion record
  return .insert ⟨r.schema.table, assignments, some (r.conflict policy assignments)⟩

def update (r : Repository) (record : Record) : Binding Statement := do
  -- Without a key value nothing is bound.
  let some key := record.get? r.schema.key
    | throw (.misconfigured (.missingKeyValue r.entity r.schema.key))
  let assignments ← r.assignments .update record
  let updatable := assignments.filter (·.isUpdatable r.schema.key)
  -- The key and generated columns alone make no update.
  if updatable.isEmpty then throw (.misconfigured (.nothingToUpdate r.entity))
  let filter ← (r.keyPredicate key).compile r.schema
  return .update ⟨r.schema.table, updatable, filter⟩

def delete (r : Repository) (key : Value) : Binding Statement := do
  let filter ← (r.keyPredicate key).compile r.schema
  return .delete ⟨r.schema.table, filter⟩

end Repository

end EntitySql
