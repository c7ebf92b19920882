/-! JSON documents. Integers and doubles are different numbers, and the members of an object are kept in
the order of their keys. -/

set_option autoImplicit false

namespace EntitySql

inductive Json.Number where
  | integer (n : Int)
  | double (x : Float)

inductive Json where
  | null
  | bool (b : Bool)
  | number (n : Json.Number)
  | text (s : String)
  | array (items : List Json)
  | object (members : List (String × Json))

namespace Json

instance : Inhabited Json := ⟨.null⟩

def text? : Json → Option String
  | .text s => some s
  | _ => none

def bool? : Json → Option Bool
  | .bool b => some b
  | _ => none

def integer? : Json → Option Int
  | .number (.integer n) => some n
  | _ => none

def items? : Json → Option (List Json)
  | .array items => some items
  | _ => none

def members? : Json → Option (List (String × Json))
  | .object members => some members
  | _ => none

/-- Integers are compared as integers and doubles numerically; one is never the other. -/
def Number.beq : Number → Number → Bool
  | .integer m, .integer n => m == n
  | .double x, .double y => x == y
  | _, _ => false

instance : BEq Number := ⟨Number.beq⟩

mutual

def beq : Json → Json → Bool
  | .null, .null => true
  | .bool a, .bool b => a == b
  | .number m, .number n => m == n
  | .text s, .text t => s == t
  | .array xs, .array ys => beqItems xs ys
  | .object xs, .object ys => beqMembers xs ys
  | _, _ => false

def beqItems : List Json → List Json → Bool
  | [], [] => true
  | x :: xs, y :: ys => beq x y && beqItems xs ys
  | _, _ => false

def beqMembers : List (String × Json) → List (String × Json) → Bool
  | [], [] => true
  | (k, x) :: xs, (l, y) :: ys => k == l && beq x y && beqMembers xs ys
  | _, _ => false

end

instance : BEq Json := ⟨beq⟩

/-- Put a member in its place. Keys are ordered by code points, which is also the order of their UTF-8
bytes; a key that is there already gets the new value. -/
def put (key : String) (value : Json) : List (String × Json) → List (String × Json)
  | [] => [(key, value)]
  | (k, v) :: rest =>
    if key = k then (key, value) :: rest
    else if key < k then (key, value) :: (k, v) :: rest
    else (k, v) :: put key value rest

def ofMembers (members : List (String × Json)) : Json :=
  .object (members.foldl (fun all member => put member.1 member.2 all) [])

def lookup (key : String) : List (String × Json) → Option Json
  | [] => none
  | (k, v) :: rest => if k = key then some v else lookup key rest

theorem lookup_put_self (key : String) (value : Json) (members : List (String × Json)) :
    lookup key (put key value members) = some value := by
  induction members with
  | nil => simp [put, lookup]
  | cons member rest ih =>
    by_cases same : key = member.1
    · simp [put, lookup, same]
    · by_cases before : key < member.1
      · simp [put, lookup, same, before]
      · simp [put, lookup, same, before, ih, Ne.symm same]

end Json

end EntitySql
