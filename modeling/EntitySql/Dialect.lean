import EntitySql.Predicate.Operator
import EntitySql.Value

/-! Dialects: all that depends on the database when a statement is written down. -/

set_option autoImplicit false

namespace EntitySql

/-- Column types that cannot be told from the bound value. -/
inductive ColumnType where
  | jsonb
  deriving DecidableEq

structure Dialect where
  name : String
  /-- The placeholder of a named parameter. -/
  parameter : String → String
  quoteIdentifier : String → String
  /-- The spelling of an operator, plain or negated. -/
  comparison : Operator → Bool → String
  connective : Connective → String
  containment : String
  /-- The text found in a document under a list of keys. -/
  jsonPath : String → List String → String
  cast : String → String → String
  /-- The type that values of a kind are cast to, if they are cast at all. -/
  castType : Kind → Option String
  columnTypeName : ColumnType → String

end EntitySql
