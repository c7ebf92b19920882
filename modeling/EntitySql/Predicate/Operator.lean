/-! The operators of predicates. -/

set_option autoImplicit false

namespace EntitySql

/-- `like` is a pattern match for texts and containment for documents and arrays; `member` is membership
in a list. -/
inductive Operator where
  | eq
  | like
  | gt
  | ge
  | lt
  | le
  | member
  deriving DecidableEq

inductive Connective where
  | and
  | or
  deriving DecidableEq

def Connective.dual : Connective → Connective
  | .and => .or
  | .or => .and

@[simp] theorem Connective.dual_dual (c : Connective) : c.dual.dual = c := by
  cases c <;> rfl

end EntitySql
