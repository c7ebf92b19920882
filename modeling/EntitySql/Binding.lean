import EntitySql.Error
import EntitySql.Parameters

/-! Computations that bind parameters and may fail. What was bound before a failure stays bound. -/

set_option autoImplicit false

namespace EntitySql

abbrev Binding (α : Type) : Type := EStateM Error Parameters α

namespace Binding

def ofExcept {α : Type} : Except Error α → Binding α
  | .ok a => pure a
  | .error e => throw e

def ofState {α : Type} (f : Parameters → α × Parameters) : Binding α := fun ps =>
  let (a, ps) := f ps
  .ok a ps

def assign (name : String) (v : Value) : Binding String :=
  ofState (·.assign name v)

def outcome {α : Type} (x : Binding α) (ps : Parameters) : Except Error α × Parameters :=
  match x ps with
  | .ok a ps => (.ok a, ps)
  | .error e ps => (.error e, ps)

end Binding

end EntitySql
