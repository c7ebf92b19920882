/-! What can go wrong when schemas are built and statements are made. There is no error for a value that cannot
be encoded: every value has a document, so nothing would ever raise it. -/

set_option autoImplicit false

namespace EntitySql

inductive Misconfiguration where
  | blankTable
  | noKey (table : String)
  | unmappedKey (key table : String)
  | missingKeyValue (entity key : String)
  | nothingToUpdate (entity : String)
  /-- Refused by whoever configured the schema. -/
  | rejected (reason : String)
  deriving DecidableEq

inductive Error where
  | misconfigured (cause : Misconfiguration)
  | unmapped (property : String)
  /-- A path leads into a column that holds no documents. -/
  | notNavigable (path column : String)
  deriving DecidableEq

def Misconfiguration.message : Misconfiguration → String
  | .blankTable => "table name is empty"
  | .noKey table => "no key property found for table '" ++ table ++ "'"
  | .unmappedKey key table => "key property '" ++ key ++ "' is not mapped in table '" ++ table ++ "'"
  | .missingKeyValue entity key =>
    "entity '" ++ entity ++ "' provides no value for key property '" ++ key ++ "'"
  | .nothingToUpdate entity => "entity '" ++ entity ++ "' has no updatable column"
  | .rejected reason => reason

def Error.message : Error → String
  | .misconfigured cause => "configuration error: " ++ cause.message
  | .unmapped property => "property '" ++ property ++ "' is not mapped to a column"
  | .notNavigable path column =>
    "cannot navigate path '" ++ path ++ "': column '" ++ column ++ "' is not JSON-typed"

end EntitySql
