import EntitySql.Dialect.Postgres
import EntitySql.Proofs.Equality
import EntitySql.Proofs.Lowering
import EntitySql.Proofs.Truth

/-! The truth of conditions in a database. The operators are known by the way PostgreSQL spells them,
rows give values to operands, and placeholders are read from a parameter set. -/

set_option autoImplicit false

namespace EntitySql

/-- What a database has of its own: how patterns match, what contains what, and an order in which all
values can be compared. Equality is not among it; it is equality of values. -/
structure Engine where
  matchesPattern : Value → Value → Bool
  contains : Value → Value → Bool
  atMost : Value → Value → Bool
  atMost_total : ∀ v w, atMost v w = true ∨ atMost w v = true

namespace Engine

def relation? (e : Engine) : String → Option (Value → Value → Bool)
  | "=" => some fun v w => v == w
  | "!=" => some fun v w => !(v == w)
  | "LIKE" => some e.matchesPattern
  | "NOT LIKE" => some fun v w => !e.matchesPattern v w
  | "@>" => some e.contains
  | "<=" => some e.atMost
  | ">=" => some fun v w => e.atMost w v
  | "<" => some fun v w => e.atMost v w && !e.atMost w v
  | ">" => some fun v w => e.atMost w v && !e.atMost v w
  | _ => none

def compare (e : Engine) (operator : String) (v w : Value) : Truth :=
  if v.isNull || w.isNull then .unknown
  else
    match e.relation? operator with
    | some relation => .ofBool (relation v w)
    | none => .unknown

def member (e : Engine) (operator : String) (v : Value) (items : List Value) : Truth :=
  let found := Truth.any (items.map (e.compare "=" v))
  match operator with
  | "IN" => found
  | "NOT IN" => found.not
  | _ => .unknown

end Engine

def Reference.value (ps : Parameters) : Reference → Value
  | .null => .null
  | .parameter name _ => (ps.get? name).getD .null

theorem Reference.Denotes.value {ps : Parameters} {left : Operand} {r : Reference} {v : Value}
    (denotes : r.Denotes ps left v) (notNull : v.isNull = false) :
    r.value ps = left.stored v ∨ (r.value ps == left.stored v) = true := by
  cases r with
  | null =>
    have null : v.isNull = true := denotes
    rw [notNull] at null
    cases null
  | parameter name document =>
    obtain ⟨_, _, stored, bound, _, w, found, same⟩ := denotes
    have read : Reference.value ps (.parameter name document) = w := by
      simp [Reference.value, found]
    rw [read, ← left.eq_stored bound]
    exact same

theorem Operand.isNull_stored (left : Operand) (v : Value) : (left.stored v).isNull = v.isNull := by
  unfold Operand.stored
  split
  · exact v.isNull_toDocument
  · rfl

theorem Reference.Denotes.isNull {ps : Parameters} {left : Operand} {r : Reference} {v : Value}
    (denotes : r.Denotes ps left v) : (r.value ps).isNull = v.isNull := by
  cases null : v.isNull with
  | true =>
    cases r with
    | null => rfl
    | parameter name document =>
      have notNull : v.isNull = false := denotes.1
      rw [notNull] at null
      cases null
  | false =>
    have stored : (left.stored v).isNull = false := (left.isNull_stored v).trans null
    rcases denotes.value null with same | same
    · rw [same]
      exact stored
    · exact (Value.isNull_of_beq same).trans stored

def Term.value (row : Operand → Value) (ps : Parameters) : Term → Value
  | .operand o => row o
  | .reference r => r.value ps

namespace Condition

mutual

def truthFrom (atom : Condition → Truth) : Condition → Truth
  | .compare left operator negate right => atom (.compare left operator negate right)
  | .contains left right => atom (.contains left right)
  | .member left negate items => atom (.member left negate items)
  | .isNull term negate => atom (.isNull term negate)
  | .truth b => .ofBool b
  | .not c => (truthFrom atom c).not
  | .group k children => .joined k (truthsFrom atom children)

def truthsFrom (atom : Condition → Truth) : List Condition → List Truth
  | [] => []
  | c :: rest => truthFrom atom c :: truthsFrom atom rest

end

def atomTruth (e : Engine) (row : Operand → Value) (ps : Parameters) : Condition → Truth
  | .compare left operator negate right =>
    e.compare (Dialect.postgres.comparison operator negate) (row left) (right.value ps)
  | .contains left right => e.compare Dialect.postgres.containment (row left) (right.value ps)
  | .member left negate items =>
    e.member (Dialect.postgres.comparison .member negate) (row left) (items.map (·.value ps))
  | .isNull term negate => .ofBool ((term.value row ps).isNull != negate)
  | _ => .unknown

def eval (e : Engine) (row : Operand → Value) (ps : Parameters) (c : Condition) : Truth :=
  c.truthFrom (atomTruth e row ps)

theorem truthsFrom_eq_map (atom : Condition → Truth) (children : List Condition) :
    truthsFrom atom children = children.map (truthFrom atom) := by
  induction children with
  | nil => rfl
  | cons c rest ih => simp [truthsFrom, ih]

section

variable (e : Engine) (row : Operand → Value) (ps : Parameters)

theorem eval_compare (left : Operand) (operator : Operator) (negate : Bool) (right : Reference) :
    (Condition.compare left operator negate right).eval e row ps =
      e.compare (Dialect.postgres.comparison operator negate) (row left) (right.value ps) := by
  simp only [eval, truthFrom, atomTruth]

theorem eval_member (left : Operand) (negate : Bool) (items : List Reference) :
    (Condition.member left negate items).eval e row ps =
      e.member (Dialect.postgres.comparison .member negate) (row left) (items.map (·.value ps)) := by
  simp only [eval, truthFrom, atomTruth]

theorem eval_isNull (term : Term) (negate : Bool) :
    (Condition.isNull term negate).eval e row ps = .ofBool ((term.value row ps).isNull != negate) := by
  simp only [eval, truthFrom, atomTruth]

theorem eval_truth (b : Bool) : (Condition.truth b).eval e row ps = .ofBool b := by
  simp only [eval, truthFrom]

theorem eval_not (c : Condition) : (Condition.not c).eval e row ps = (c.eval e row ps).not := by
  simp only [eval, truthFrom]

theorem eval_group (k : Connective) (children : List Condition) :
    (Condition.group k children).eval e row ps = .joined k (children.map (·.eval e row ps)) := by
  simp only [eval, truthFrom, truthsFrom_eq_map]

end

end Condition

namespace Engine

variable (e : Engine)

theorem compare_null_left (operator : String) {v : Value} (null : v.isNull = true) (w : Value) :
    e.compare operator v w = .unknown := by
  simp [compare, null]

theorem compare_null_right (operator : String) (v : Value) {w : Value} (null : w.isNull = true) :
    e.compare operator v w = .unknown := by
  simp [compare, null]

theorem compare_of_relation (operator : String) {relation : Value → Value → Bool}
    (known : e.relation? operator = some relation) {v w : Value} (left : v.isNull = false)
    (right : w.isNull = false) : e.compare operator v w = .ofBool (relation v w) := by
  simp [compare, left, right, known]

theorem not_atMost (v w : Value) : (!e.atMost v w) = (e.atMost w v && !e.atMost v w) := by
  rcases e.atMost_total v w with below | above
  · simp [below]
  · simp [above]

theorem compare_equality {v w : Value} (left : v.isNull = false) (right : w.isNull = false)
    (negate : Bool) :
    e.compare (Dialect.postgres.comparison .eq negate) v w = .ofBool ((v == w) != negate) := by
  cases negate with
  | false =>
    rw [Bool.bne_false]
    exact e.compare_of_relation "=" rfl left right
  | true =>
    rw [Bool.bne_true]
    exact e.compare_of_relation "!=" rfl left right

/-- A null-safe equality, plain or negated, in terms of the two values. It is unknown when it is plain and
one value is null, or negated and both are. -/
theorem eval_nullSafe (row : Operand → Value) (ps : Parameters) (left : Operand) (right : Reference)
    (negate : Bool) :
    (Condition.nullSafe left right negate).eval e row ps =
      if (row left).isNull then
        if (right.value ps).isNull = negate then .unknown else .yes
      else if (right.value ps).isNull then if negate then .yes else .unknown
      else .ofBool ((row left == right.value ps) != negate) := by
  cases leftNull : (row left).isNull with
  -- Next to a null the comparison is unknown, and the tests for null are all that counts.
  | true =>
    cases rightNull : (right.value ps).isNull <;> cases negate <;>
      simp [Condition.nullSafe, Condition.eval_group, Condition.eval_isNull, Condition.eval_compare,
        Truth.joined, Truth.all, Truth.any, Term.value, compare_null_left, leftNull, rightNull]
  | false =>
    cases rightNull : (right.value ps).isNull with
    | true =>
      cases negate <;>
        simp [Condition.nullSafe, Condition.eval_group, Condition.eval_isNull, Condition.eval_compare,
          Truth.joined, Truth.all, Truth.any, Term.value, compare_null_right, leftNull, rightNull]
    | false =>
      cases negate <;>
        simp [Condition.nullSafe, Condition.eval_group, Condition.eval_isNull, Condition.eval_compare,
          Truth.joined, Truth.all, Truth.any, Term.value, compare_equality, leftNull, rightNull]

end Engine

end EntitySql
