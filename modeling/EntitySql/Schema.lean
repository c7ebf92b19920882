import EntitySql.Error
import EntitySql.Mapping
import EntitySql.Text.Blank

/-! Schemas: the table of an entity, the columns of its properties, its key, and what belongs to reading. -/

set_option autoImplicit false

namespace EntitySql

inductive JoinKind where
  | inner
  | left
  deriving DecidableEq

def JoinKind.keyword : JoinKind → String
  | .inner => "INNER JOIN"
  | .left => "LEFT JOIN"

structure Join where
  kind : JoinKind
  table : String
  tableAlias : String
  /-- The condition, written as it is. -/
  on : String
  deriving DecidableEq

inductive Direction where
  | ascending
  | descending
  deriving DecidableEq

def Direction.keyword : Direction → String
  | .ascending => "ASC"
  | .descending => "DESC"

structure SortOrder where
  property : String
  direction : Direction
  deriving DecidableEq

/-- A schema is complete: its table has a name, and its key and its ordering are mapped. -/
structure Schema where
  table : String
  tableAlias : String
  columns : ColumnMap
  key : String
  joins : List Join
  ordering : Option SortOrder
  table_not_blank : Text.allBlank table = false
  key_mapped : (columns.get? key).isSome = true
  ordering_mapped : ∀ o, ordering = some o → (columns.get? o.property).isSome = true

namespace Schema

def resolve (s : Schema) (property : String) : Except Error Mapping :=
  match s.columns.get? property with
  | some m => .ok m
  | none => .error (.unmapped property)

def keyMapping (s : Schema) : Mapping :=
  (s.columns.get? s.key).get s.key_mapped

def orderingMapping (s : Schema) : Option (Mapping × Direction) :=
  match found : s.ordering with
  | none => none
  | some o => some ((s.columns.get? o.property).get (s.ordering_mapped o found), o.direction)

/-- The alias that qualifies columns. Only joins make one necessary. -/
def scope (s : Schema) : Option String :=
  if s.joins.isEmpty then none else some s.tableAlias

theorem resolve_key (s : Schema) : s.resolve s.key = .ok s.keyMapping := by
  have mapped := s.key_mapped
  obtain ⟨m, found⟩ := Option.isSome_iff_exists.1 mapped
  simp [resolve, keyMapping, found]

end Schema

def Mapping.reference (m : Mapping) (scope : Option String) : String :=
  match scope with
  | none => m.column
  | some tableAlias => tableAlias ++ "." ++ m.column

end EntitySql
