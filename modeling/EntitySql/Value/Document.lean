import EntitySql.Value

/-! The JSON document that a value denotes. Identifiers and instants become texts, and a float that JSON
cannot write becomes null. So the conversion never fails, and no error is kept for the case that it might. -/

set_option autoImplicit false

namespace EntitySql.Value

mutual

def toJson : Value → Json
  | .null => .null
  | .bool b => .bool b
  | .int n => .number (.integer n.toInt)
  | .float x => if x.isFinite then .number (.double x) else .null
  | .text s => .text s
  | .uuid u => .text u.text
  | .timestamp t => .text (t.text Timestamp.documentZone)
  | .json document => document
  | .array items => .array (itemsToJson items)

def itemsToJson : List Value → List Json
  | [] => []
  | item :: rest => toJson item :: itemsToJson rest

end

/-- An array as the document it denotes; every other value stays as it is. -/
def toDocument : Value → Value
  | .array items => .json (toJson (.array items))
  | v => v

theorem itemsToJson_eq_map (items : List Value) : itemsToJson items = items.map toJson := by
  induction items with
  | nil => rfl
  | cons item rest ih => simp [itemsToJson, ih]

@[simp] theorem isNull_toDocument (v : Value) : v.toDocument.isNull = v.isNull := by
  cases v <;> rfl

end EntitySql.Value
