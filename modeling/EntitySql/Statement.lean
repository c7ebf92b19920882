import EntitySql.Condition

/-! Statements, clause by clause. A statement is independent of the dialect it will be written in. -/

set_option autoImplicit false

namespace EntitySql

inductive Source where
  | parameter (name : String)
  | generated (expression : String)

structure Assignment where
  property : String
  mapping : Mapping
  source : Source

/-- Columns that an existing row may be given: neither the key nor one that only an insertion writes. -/
def Assignment.isUpdatable (a : Assignment) (key : String) : Bool :=
  a.property ≠ key && !a.mapping.isInsertOnly

structure Conflict where
  keyColumn : String
  overwritten : List String

structure Selection where
  columns : List Mapping
  table : String
  scope : Option String
  joins : List Join
  filter : Option Condition
  ordering : Option (Mapping × Direction)

structure Insertion where
  table : String
  assignments : List Assignment
  conflict : Option Conflict

structure Update where
  table : String
  assignments : List Assignment
  filter : Condition

structure Deletion where
  table : String
  filter : Condition

inductive Statement where
  | select (s : Selection)
  | insert (i : Insertion)
  | update (u : Update)
  | delete (d : Deletion)

namespace Statement

def table : Statement → String
  | .select s => s.table
  | .insert i => i.table
  | .update u => u.table
  | .delete d => d.table

def filter : Statement → Option Condition
  | .select s => s.filter
  | .insert _ => none
  | .update u => some u.filter
  | .delete d => some d.filter

def scope : Statement → Option String
  | .select s => s.scope
  | _ => none

def label : Statement → String
  | .select _ => "SELECT"
  | .insert i => if i.conflict.isSome then "UPSERT" else "INSERT"
  | .update _ => "UPDATE"
  | .delete _ => "DELETE"

end Statement

end EntitySql
