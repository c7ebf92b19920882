import EntitySql.Predicate.Operator
import EntitySql.Text.Segments
import EntitySql.Value

/-! Predicates: comparisons of properties with values, and their boolean combinations. -/

set_option autoImplicit false

namespace EntitySql

/-- A comparison of one property with a value. A `strict` equality is plain SQL equality; others treat
two nulls as equal. -/
structure Comparison where
  operator : Operator
  property : String
  value : Value
  negate : Bool
  strict : Bool

structure Path where
  property : String
  keys : List String
  deriving DecidableEq

def Path.ofText (s : String) : Path :=
  let (first, rest) := Text.segments '.' s.toList
  ⟨String.ofList first, rest.map String.ofList⟩

def Comparison.path (c : Comparison) : Path :=
  Path.ofText c.property

inductive Predicate where
  | comparison (c : Comparison)
  | group (connective : Connective) (children : List Predicate)

namespace Predicate

def compare (operator : Operator) (property : String) (value : Value) : Predicate :=
  .comparison ⟨operator, property, value, false, false⟩

mutual

def not : Predicate → Predicate
  | .comparison c => .comparison { c with negate := !c.negate }
  | .group connective children => .group connective.dual (notAll children)

def notAll : List Predicate → List Predicate
  | [] => []
  | p :: rest => not p :: notAll rest

end

/-- Only equalities can be strict; anything else stays as it is. -/
def strict : Predicate → Predicate
  | .comparison c => .comparison { c with strict := c.strict || c.operator = .eq }
  | p => p

def eq (property : String) (value : Value) : Predicate := compare .eq property value
def ne (property : String) (value : Value) : Predicate := (eq property value).not
def like (property : String) (value : Value) : Predicate := compare .like property value
def notLike (property : String) (value : Value) : Predicate := (like property value).not
def gt (property : String) (value : Value) : Predicate := compare .gt property value
def ge (property : String) (value : Value) : Predicate := compare .ge property value
def lt (property : String) (value : Value) : Predicate := compare .lt property value
def le (property : String) (value : Value) : Predicate := compare .le property value

def memberOf (property : String) (values : List Value) : Predicate :=
  compare .member property (.array values)

def notMemberOf (property : String) (values : List Value) : Predicate :=
  (memberOf property values).not

def strictEq (property : String) (value : Value) : Predicate := (eq property value).strict

def all (children : List Predicate) : Predicate := .group .and children
def any (children : List Predicate) : Predicate := .group .or children

/-- A group takes further members of its own connective; other predicates start a new group. -/
def combine (connective : Connective) (first second : Predicate) : Predicate :=
  match first with
  | .group c children =>
    if c = connective then .group c (children ++ [second]) else .group connective [first, second]
  | .comparison _ => .group connective [first, second]

def and (first second : Predicate) : Predicate := combine .and first second
def or (first second : Predicate) : Predicate := combine .or first second

end Predicate

def Comparison.beq (a b : Comparison) : Bool :=
  a.operator == b.operator && a.property == b.property && a.value == b.value
    && a.negate == b.negate && a.strict == b.strict

namespace Predicate

mutual

def beq : Predicate → Predicate → Bool
  | .comparison a, .comparison b => a.beq b
  | .group c xs, .group d ys => c == d && beqAll xs ys
  | _, _ => false

def beqAll : List Predicate → List Predicate → Bool
  | [], [] => true
  | x :: xs, y :: ys => beq x y && beqAll xs ys
  | _, _ => false

end

instance : BEq Predicate := ⟨beq⟩

mutual

theorem not_not (p : Predicate) : p.not.not = p := by
  cases p with
  | comparison c => simp [not]
  | group connective children => simp [not, notAll_notAll children]

theorem notAll_notAll (children : List Predicate) : notAll (notAll children) = children := by
  cases children with
  | nil => rfl
  | cons p rest => simp [notAll, not_not p, notAll_notAll rest]

end

end Predicate

end EntitySql
