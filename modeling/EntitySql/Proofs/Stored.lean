import EntitySql.Repository
import EntitySql.Proofs.Parameters

/-! What a value is bound as. Where documents are compared or stored, an array is bound as the document that
it denotes; everything else is bound as it is. -/

set_option autoImplicit false

namespace EntitySql

namespace Value

/-- What a value is bound as, where documents are compared and where they are not. An array is never bound
as it is where documents are compared. -/
inductive BoundAs : Bool → Value → Value → Prop where
  | plain (v : Value) : BoundAs false v v
  | document (items : List Value) : BoundAs true (.array items) (.json (toJson (.array items)))
  | whole {v : Value} : v.kind ≠ .array → BoundAs true v v

theorem boundAs_toDocument (v : Value) : BoundAs true v v.toDocument := by
  cases v with
  | array items => exact .document items
  | _ => exact .whole (by simp [kind])

theorem BoundAs.eq {documents : Bool} {v stored : Value} (bound : BoundAs documents v stored) :
    stored = if documents then v.toDocument else v := by
  cases bound with
  | plain => rfl
  | document => rfl
  | whole scalar =>
    cases v with
    | array items => exact absurd rfl scalar
    | _ => rfl

end Value

namespace Operand

variable (left : Operand) {v stored : Value}

theorem boundAs_stored (v : Value) : Value.BoundAs left.isDocument v (left.stored v) := by
  unfold Operand.stored
  cases left.isDocument with
  | true => exact v.boundAs_toDocument
  | false => exact .plain v

theorem eq_stored {left : Operand} (bound : Value.BoundAs left.isDocument v stored) :
    stored = left.stored v :=
  bound.eq

end Operand

namespace Mapping

variable (m : Mapping)

def Stores (v stored : Value) : Prop :=
  Value.BoundAs (m.columnType = some .jsonb) v stored

theorem stores_stored (v : Value) : m.Stores v (m.stored v) :=
  Operand.boundAs_stored ⟨m, [], .null⟩ v

end Mapping

end EntitySql
