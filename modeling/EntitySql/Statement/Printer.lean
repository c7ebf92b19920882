import EntitySql.Condition.Printer
import EntitySql.Statement
import EntitySql.Text.Spacing

/-! Statements as text. -/

set_option autoImplicit false

namespace EntitySql

def commaSeparated (texts : List String) : String :=
  String.intercalate "," texts

/-- The value a column is set to. A column of a special type takes a cast. -/
def Assignment.value (a : Assignment) (d : Dialect) : String :=
  match a.source with
  | .generated expression => expression
  | .parameter name =>
    match a.mapping.columnType with
    | some type => d.cast (d.parameter name) (d.columnTypeName type)
    | none => d.parameter name

def Assignment.column (a : Assignment) (d : Dialect) : String :=
  d.quoteIdentifier a.mapping.column

namespace Selection

def item (s : Selection) (d : Dialect) (m : Mapping) : String :=
  match m.computed with
  | some expression => expression ++ " AS " ++ d.quoteIdentifier m.column
  | none => d.quoteIdentifier (m.reference s.scope)

def joinText (d : Dialect) (j : Join) : String :=
  " " ++ j.kind.keyword ++ " " ++ d.quoteIdentifier j.table ++ " " ++ j.tableAlias ++ " ON " ++ j.on

def source (s : Selection) (d : Dialect) : String :=
  match s.scope with
  | none => d.quoteIdentifier s.table
  | some tableAlias =>
    d.quoteIdentifier s.table ++ " " ++ tableAlias ++ String.join (s.joins.map (joinText d))

def whereText (s : Selection) (d : Dialect) : String :=
  let text := Condition.filterText d s.scope s.filter
  if text.isEmpty then "" else " WHERE " ++ text

def orderingText (s : Selection) (d : Dialect) : String :=
  match s.ordering with
  | none => ""
  | some (m, direction) =>
    let target := if m.computed.isSome then m.column else m.reference s.scope
    " ORDER BY " ++ d.quoteIdentifier target ++ " " ++ direction.keyword

def text (s : Selection) (d : Dialect) : String :=
  "SELECT " ++ commaSeparated (s.columns.map (s.item d)) ++ " FROM " ++ s.source d
    ++ s.whereText d ++ s.orderingText d

end Selection

/-- With no column to overwrite, the existing row is left alone. -/
def Conflict.text (c : Conflict) (d : Dialect) : String :=
  let overwrite (column : String) : String :=
    d.quoteIdentifier column ++ " = EXCLUDED." ++ d.quoteIdentifier column
  " ON CONFLICT(" ++ d.quoteIdentifier c.keyColumn ++ ")"
    ++ if c.overwritten.isEmpty then " DO NOTHING"
      else " DO UPDATE SET " ++ commaSeparated (c.overwritten.map overwrite)

def Insertion.text (i : Insertion) (d : Dialect) : String :=
  "INSERT INTO " ++ d.quoteIdentifier i.table
    ++ " (" ++ commaSeparated (i.assignments.map (·.column d)) ++ ")"
    ++ " VALUES (" ++ commaSeparated (i.assignments.map (·.value d)) ++ ")"
    ++ (i.conflict.map (·.text d)).getD ""

def Update.text (u : Update) (d : Dialect) : String :=
  "UPDATE " ++ d.quoteIdentifier u.table
    ++ " SET " ++ commaSeparated (u.assignments.map fun a => a.column d ++ " = " ++ a.value d)
    ++ " WHERE " ++ u.filter.text d none

def Deletion.text (x : Deletion) (d : Dialect) : String :=
  "DELETE FROM " ++ d.quoteIdentifier x.table ++ " WHERE " ++ x.filter.text d none

namespace Statement

def rawText (s : Statement) (d : Dialect) : String :=
  match s with
  | .select s => s.text d
  | .insert i => i.text d
  | .update u => u.text d
  | .delete x => x.text d

def text (s : Statement) (d : Dialect) : String :=
  Text.normalizeSpaces (s.rawText d)

/-- A filter is reported when it is compiled, and then the statement it is part of. -/
def events (s : Statement) (d : Dialect) : List Event :=
  Condition.filterEvents d s.scope s.filter ++ [.builtStatement s.label s.table (s.text d)]

end Statement

end EntitySql
