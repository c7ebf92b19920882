import EntitySql.Convention.Options
import EntitySql.Event
import EntitySql.Schema.Draft

/-! Schemas inferred from the description of an entity. -/

set_option autoImplicit false

namespace EntitySql

structure Property where
  name : String
  kind : Kind
  deriving DecidableEq

structure Entity where
  name : String
  properties : List Property

namespace Convention

def tableName (options : Options) (entity : String) : String :=
  let table := Naming.snakeCase (Naming.stripSuffix entity options.entitySuffix)
  if options.pluralize then table ++ "s" else table

def isCandidate (options : Options) (name : String) : Bool :=
  options.keyCandidates.any fun c => Naming.foldAscii name.toList = Naming.foldAscii c.toList

def endsInCandidate (options : Options) (name : String) : Bool :=
  options.keyCandidates.any fun c => (Naming.foldAscii c.toList).isSuffixOf (Naming.foldAscii name.toList)

/-- The first property that is a candidate, or else the first that ends in one. -/
def keyProperty (options : Options) (properties : List Property) : Option String :=
  let exact := properties.find? (isCandidate options ·.name)
  (exact.or (properties.find? (endsInCandidate options ·.name))).map Property.name

def mapping (p : Property) : Mapping :=
  { Mapping.named p.name with columnType := if p.kind = .json then some .jsonb else none }

def infer (options : Options) (entity : Entity) : Draft :=
  { Draft.ofTable (tableName options entity.name) with
    columns := (entity.properties.map mapping).foldl ColumnMap.insert .empty
    key := keyProperty options entity.properties }

/-- The schema of an entity; the steps, taken last, override what was inferred. -/
def schema (options : Options) (entity : Entity) (steps : List Draft.Step) :
    Except Error Schema := do
  let draft ← (infer options entity).run steps
  draft.build

def resolved (entity : Entity) (s : Schema) : Event :=
  .resolvedSchema entity.name s.table s.tableAlias s.key

end Convention

end EntitySql
