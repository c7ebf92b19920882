import EntitySql.Value

/-! The values of one entity, by property, in the order in which the entity lists them. -/

set_option autoImplicit false

namespace EntitySql

structure Record where
  values : List (String × Value)

namespace Record

def empty : Record := ⟨[]⟩

def push (r : Record) (property : String) (v : Value) : Record :=
  ⟨r.values ++ [(property, v)]⟩

/-- The first value of a property. -/
def get? (r : Record) (property : String) : Option Value :=
  r.values.lookup property

def size (r : Record) : Nat :=
  r.values.length

end Record

end EntitySql
