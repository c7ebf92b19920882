import EntitySql.Json.Basic

/-! The options of a convention, and how they are read from a configuration document. -/

set_option autoImplicit false

namespace EntitySql

structure Convention.Options where
  /-- Table names end in `s`. -/
  pluralize : Bool := false
  /-- Names, or endings of names, by which the key is known. -/
  keyCandidates : List String := ["id", "key"]
  /-- The ending of entity names that does not show in table names. -/
  entitySuffix : String := "entity"
  deriving DecidableEq

namespace Convention.Options

def texts? (j : Json) : Option (List String) := do
  (← j.items?).mapM Json.text?

/-- A setting that is not given keeps its default; one that is given has to be of the right type. -/
def setting {α : Type} (read : Json → Option α) (default : α) : Option Json → Option α
  | none => some default
  | some given => read given

def ofSettings? (pluralize keyCandidates entitySuffix : Option Json) : Option Options := do
  let defaults : Options := {}
  return {
    pluralize := ← setting Json.bool? defaults.pluralize pluralize
    keyCandidates := ← setting texts? defaults.keyCandidates keyCandidates
    entitySuffix := ← setting Json.text? defaults.entitySuffix entitySuffix }

/-- Settings by name, others being passed over, or by position. -/
def ofJson? : Json → Option Options
  | .object members =>
    ofSettings? (Json.lookup "pluralize_table_names" members) (Json.lookup "key_candidates" members)
      (Json.lookup "entity_suffix" members)
  | .array settings =>
    if settings.length ≤ 3 then ofSettings? settings[0]? settings[1]? settings[2]? else none
  | _ => none

end Convention.Options

end EntitySql
