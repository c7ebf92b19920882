import EntitySql.Predicate.Operator

/-! The truth values of SQL. A comparison with null is unknown, and the connectives are those of Kleene:
a conjunction is the least of its members and a disjunction the greatest, unknown standing in between. -/

set_option autoImplicit false

namespace EntitySql

inductive Truth where
  | no
  | unknown
  | yes
  deriving DecidableEq

namespace Truth

def ofBool (b : Bool) : Truth :=
  if b then .yes else .no

def not : Truth → Truth
  | .no => .yes
  | .unknown => .unknown
  | .yes => .no

def and : Truth → Truth → Truth
  | .no, _ => .no
  | .unknown, .no => .no
  | .unknown, _ => .unknown
  | .yes, t => t

def or : Truth → Truth → Truth
  | .yes, _ => .yes
  | .unknown, .yes => .yes
  | .unknown, _ => .unknown
  | .no, t => t

def all : List Truth → Truth
  | [] => .yes
  | t :: ts => t.and (all ts)

def any : List Truth → Truth
  | [] => .no
  | t :: ts => t.or (any ts)

def joined : Connective → List Truth → Truth
  | .and => all
  | .or => any

@[simp] theorem not_not (t : Truth) : t.not.not = t := by
  cases t <;> rfl

@[simp] theorem not_eq_yes_iff (t : Truth) : t.not = .yes ↔ t = .no := by
  cases t <;> decide

@[simp] theorem not_eq_no_iff (t : Truth) : t.not = .no ↔ t = .yes := by
  cases t <;> decide

@[simp] theorem ofBool_eq_yes_iff (b : Bool) : ofBool b = .yes ↔ b = true := by
  cases b <;> decide

@[simp] theorem ofBool_eq_no_iff (b : Bool) : ofBool b = .no ↔ b = false := by
  cases b <;> decide

@[simp] theorem ofBool_true : ofBool true = .yes := rfl

@[simp] theorem ofBool_false : ofBool false = .no := rfl

@[simp] theorem yes_and (t : Truth) : Truth.yes.and t = t := rfl

@[simp] theorem no_and (t : Truth) : Truth.no.and t = .no := rfl

@[simp] theorem and_yes (t : Truth) : t.and .yes = t := by
  cases t <;> rfl

@[simp] theorem yes_or (t : Truth) : Truth.yes.or t = .yes := rfl

@[simp] theorem no_or (t : Truth) : Truth.no.or t = t := rfl

@[simp] theorem or_no (t : Truth) : t.or .no = t := by
  cases t <;> rfl

@[simp] theorem or_yes (t : Truth) : t.or .yes = .yes := by
  cases t <;> rfl

theorem not_ofBool (b : Bool) : (ofBool b).not = ofBool !b := by
  cases b <;> rfl

theorem and_eq_yes_iff (t u : Truth) : t.and u = .yes ↔ t = .yes ∧ u = .yes := by
  cases t <;> cases u <;> decide

theorem and_eq_no_iff (t u : Truth) : t.and u = .no ↔ t = .no ∨ u = .no := by
  cases t <;> cases u <;> decide

theorem or_eq_yes_iff (t u : Truth) : t.or u = .yes ↔ t = .yes ∨ u = .yes := by
  cases t <;> cases u <;> decide

theorem or_eq_no_iff (t u : Truth) : t.or u = .no ↔ t = .no ∧ u = .no := by
  cases t <;> cases u <;> decide

theorem and_assoc (t u v : Truth) : (t.and u).and v = t.and (u.and v) := by
  cases t <;> cases u <;> cases v <;> rfl

theorem or_assoc (t u v : Truth) : (t.or u).or v = t.or (u.or v) := by
  cases t <;> cases u <;> cases v <;> rfl

theorem not_and (t u : Truth) : (t.and u).not = t.not.or u.not := by
  cases t <;> cases u <;> rfl

theorem not_or (t u : Truth) : (t.or u).not = t.not.and u.not := by
  cases t <;> cases u <;> rfl

theorem any_eq_yes_iff (ts : List Truth) : any ts = .yes ↔ .yes ∈ ts := by
  induction ts with
  | nil => simp [any]
  | cons t ts ih => rw [any, or_eq_yes_iff, ih, List.mem_cons, eq_comm]

theorem any_eq_no_iff (ts : List Truth) : any ts = .no ↔ ∀ t ∈ ts, t = .no := by
  induction ts with
  | nil => simp [any]
  | cons t ts ih => simp [any, or_eq_no_iff, ih]

theorem joined_singleton (k : Connective) (t : Truth) : joined k [t] = t := by
  cases k with
  | and => exact and_yes t
  | or => exact or_no t

theorem joined_append (k : Connective) (ts us : List Truth) :
    joined k (ts ++ us) = joined k [joined k ts, joined k us] := by
  induction ts with
  | nil => cases k <;> simp [joined, all, any]
  | cons t ts ih =>
    cases k with
    | and => simpa [joined, all, and_assoc] using congrArg t.and ih
    | or => simpa [joined, any, or_assoc] using congrArg t.or ih

end Truth

end EntitySql
