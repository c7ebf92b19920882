import EntitySql.Dialect
import EntitySql.Naming
import EntitySql.Record

/-! How a property is mapped to a column, and ordered maps of such mappings. -/

set_option autoImplicit false

namespace EntitySql

/-- The expression a column gets on insertion in place of a bound value; it may look at the whole record. -/
abbrev Generator := Record → String

structure Mapping where
  property : String
  /-- The column's name, without quotes. -/
  column : String
  columnType : Option ColumnType
  /-- Selected and filtered on in place of the column. -/
  computed : Option String
  onInsert : Option Generator
  /-- Never written. -/
  readOnly : Bool

namespace Mapping

def plain (property column : String) : Mapping :=
  ⟨property, column, none, none, none, false⟩

def named (property : String) : Mapping :=
  plain property (Naming.snakeCase property)

def isDocument (m : Mapping) : Bool :=
  m.columnType = some .jsonb

def isInsertOnly (m : Mapping) : Bool :=
  m.onInsert.isSome

end Mapping

structure ColumnMap where
  mappings : List Mapping

namespace ColumnMap

def empty : ColumnMap := ⟨[]⟩

def get? (columns : ColumnMap) (property : String) : Option Mapping :=
  columns.mappings.find? (·.property = property)

def contains (columns : ColumnMap) (property : String) : Bool :=
  (columns.get? property).isSome

def size (columns : ColumnMap) : Nat :=
  columns.mappings.length

def insertInto (m : Mapping) : List Mapping → List Mapping
  | [] => [m]
  | other :: rest => if other.property = m.property then m :: rest else other :: insertInto m rest

/-- A mapping takes the place of one for the same property, or goes to the end. -/
def insert (columns : ColumnMap) (m : Mapping) : ColumnMap :=
  ⟨insertInto m columns.mappings⟩

def patchIn (property : String) (patch : Mapping → Mapping) : List Mapping → List Mapping
  | [] => []
  | m :: rest => if m.property = property then patch m :: rest else m :: patchIn property patch rest

/-- Change the mapping of a property where it stands; the patch may even rename the property. -/
def patch? (columns : ColumnMap) (property : String) (patch : Mapping → Mapping) : Option ColumnMap :=
  if columns.contains property then some ⟨patchIn property patch columns.mappings⟩ else none

theorem get?_insert_self (columns : ColumnMap) (m : Mapping) :
    (columns.insert m).get? m.property = some m := by
  obtain ⟨mappings⟩ := columns
  simp only [insert, get?]
  induction mappings with
  | nil => simp [insertInto]
  | cons other rest ih =>
    by_cases same : other.property = m.property
    · simp [insertInto, same]
    · simp [insertInto, same, ih]

theorem get?_insert_of_ne (columns : ColumnMap) (m : Mapping) {property : String}
    (other : m.property ≠ property) : (columns.insert m).get? property = columns.get? property := by
  obtain ⟨mappings⟩ := columns
  simp only [insert, get?]
  induction mappings with
  | nil => simp [insertInto, other]
  | cons first rest ih =>
    by_cases same : first.property = m.property
    · simp [insertInto, same, other]
    · rw [insertInto, if_neg same, List.find?_cons, List.find?_cons, ih]

end ColumnMap

end EntitySql
