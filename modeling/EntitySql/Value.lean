import EntitySql.Json.Basic
import EntitySql.Timestamp
import EntitySql.Uuid

/-! Values that are bound to statements, and their kinds. -/

set_option autoImplicit false

namespace EntitySql

inductive Kind where
  | null
  | bool
  | int
  | float
  | text
  | uuid
  | timestamp
  | json
  | array
  | unknown
  deriving DecidableEq

def Kind.isStructured : Kind → Bool
  | .json | .array => true
  | _ => false

inductive Value where
  | null
  | bool (b : Bool)
  | int (n : Int64)
  | float (x : Float)
  | text (s : String)
  | uuid (u : Uuid)
  | timestamp (t : Timestamp)
  | json (document : Json)
  | array (items : List Value)

namespace Value

def kind : Value → Kind
  | .null => .null
  | .bool _ => .bool
  | .int _ => .int
  | .float _ => .float
  | .text _ => .text
  | .uuid _ => .uuid
  | .timestamp _ => .timestamp
  | .json _ => .json
  | .array _ => .array

def isNull : Value → Bool
  | .null => true
  | _ => false

mutual

/-- Equality goes by kind and content. Floats are compared numerically, so NaN is not equal to itself. -/
def beq : Value → Value → Bool
  | .null, .null => true
  | .bool a, .bool b => a == b
  | .int m, .int n => m == n
  | .float x, .float y => x == y
  | .text s, .text t => s == t
  | .uuid u, .uuid v => u == v
  | .timestamp s, .timestamp t => s == t
  | .json x, .json y => x == y
  | .array xs, .array ys => beqItems xs ys
  | _, _ => false

def beqItems : List Value → List Value → Bool
  | [], [] => true
  | x :: xs, y :: ys => beq x y && beqItems xs ys
  | _, _ => false

end

instance : BEq Value := ⟨beq⟩

theorem kind_eq_null_iff (v : Value) : v.kind = .null ↔ v.isNull = true := by
  cases v <;> simp [kind, isNull]

end Value

end EntitySql
