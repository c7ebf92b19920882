/-! Arithmetic runs of code points, the form in which the tables of character properties are kept. -/

set_option autoImplicit false

namespace EntitySql.Text

/-- The code points `first`, `first + step`, … up to `last`. -/
structure Run where
  first : Nat
  last : Nat
  step : Nat
  deriving DecidableEq

def Run.contains (r : Run) (n : Nat) : Bool :=
  r.first ≤ n && n ≤ r.last && (n - r.first) % r.step == 0

theorem Run.contains_iff (r : Run) (n : Nat) :
    r.contains n = true ↔ r.first ≤ n ∧ n ≤ r.last ∧ (n - r.first) % r.step = 0 := by
  simp [contains, and_assoc]

end EntitySql.Text
