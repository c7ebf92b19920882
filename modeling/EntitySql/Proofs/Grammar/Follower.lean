import EntitySql.Proofs.Grammar.Atom

/-! What may stand behind an operand and make one comparison or test of it. How tight the operand must
bind depends on what follows. -/

set_option autoImplicit false

namespace EntitySql.Grammar

/-- A test for null, a comparison sign with its right side, or what binds tighter than these. -/
inductive Follower where
  | test
  | comparison
  | tight
  deriving DecidableEq

namespace Follower

def level : Follower → Nat
  | .test => isLevel
  | .comparison => isLevel + 1
  | .tight => memberLevel

/-- How tight an operand binds that is taken whole by every one of the kind. -/
def demand : Follower → Nat
  | .test => isLevel
  | .comparison | .tight => memberLevel + 1

theorem isLevel_le_level (kind : Follower) : isLevel ≤ kind.level := by
  cases kind <;> decide

theorem demand_of_ne_test {kind : Follower} (binds : kind ≠ .test) : kind.demand = memberLevel + 1 := by
  cases kind with
  | test => exact absurd rfl binds
  | comparison | tight => rfl

theorem demand_le (kind : Follower) : kind.demand ≤ memberLevel + 1 := by
  cases kind <;> decide

theorem isLevel_le_demand (kind : Follower) : isLevel ≤ kind.demand := by
  cases kind <;> decide

end Follower

inductive Follows : Follower → List Token → (Expr → Expr) → Prop where
  | isNull (negate : Bool) : Follows .test
      (.keyword .is :: if negate then [.keyword .not, .keyword .null] else [.keyword .null]) (.isNull negate)
  | comparison {sign : String} {us : List Token} {y : Expr} (compares : Operation.ofSymbol sign = .comparison sign)
      (right : Primary us y) : Follows .comparison ([.symbol sign] ++ us) (.binary sign · y)
  | like (negate : Bool) {us : List Token} {y : Expr} (right : Primary us y) : Follows .tight
      ((if negate then [.keyword .not, .keyword .like] else [.keyword .like]) ++ us)
      (.binary (if negate then "NOT LIKE" else "LIKE") · y)
  | other {sign : String} {us : List Token} {y : Expr} (other : Operation.ofSymbol sign = .other sign)
      (right : Primary us y) : Follows .tight ([.symbol sign] ++ us) (.binary sign · y)
  | member (negate : Bool) {us : List Token} {items : List Expr} (listed : Items us items) : Follows .tight
      ((if negate then [.keyword .not, .keyword .member] else [.keyword .member]) ++
        .opening :: (us ++ [.closing])) (.member negate · items)

namespace Follows

variable {kind : Follower} {room : Nat} {ts us : List Token} {f : Expr → Expr} {x : Expr}

theorem readsIn (follows : Follows kind us f) (below : room ≤ kind.level)
    (operand : ReadsIn room kind.demand ts x) : ReadsIn room kind.level (ts ++ us) (f x) := by
  cases follows with
  | isNull negate => exact (operand.isNull negate).readsIn below
  | @comparison sign us y compares right =>
    have left := operand.mono (m := isLevel + 2) (by decide) (Nat.le_succ_of_le below)
    exact .operation (signs_of_spelling compares) left below (right.reads _)
  | @like negate us y right =>
    exact .operation (signs_like negate) operand below (right.reads _)
  | @other sign us y other right =>
    have higher : room ≤ memberLevel + 1 := Nat.le_succ_of_le below
    have read := ReadsIn.leaning (signs_of_spelling other) rfl operand higher (right.reads _)
    exact read.mono (Nat.le_succ _) below
  | @member negate us items listed => exact (operand.member below listed negate).readsIn below

theorem run_eq_none (follows : Follows .comparison us f) (sign : String) (left right : Expr)
    (outer : List Pending) :
    State.run ⟨.operation (.comparison sign) left :: outer, .complete right⟩ us = none := by
  cases follows with
  | @comparison sign' us y compares primary =>
    have stopped : State.step ⟨.operation (.comparison sign) left :: outer, .complete right⟩
        (.symbol sign') = none := by
      simp only [State.step, State.afterOperand, compares, State.extend]
      rfl
    unfold State.run
    rw [List.singleton_append, List.foldlM_cons, stopped]
    rfl

theorem isAtom (follows : Follows kind us f) (x : Expr) : (f x).isAtom = true := by
  cases follows <;> rfl

theorem ne_comparison (follows : Follows .tight us f) {sign : String}
    (compares : Operation.ofSymbol sign = .comparison sign) (x left right : Expr) :
    f x ≠ .binary sign left right := by
  intro same
  cases follows with
  | @like negate us y primary =>
    obtain ⟨rfl, _, _⟩ := Expr.binary.inj same
    cases negate <;> cases compares
  | @other sign' us y other primary =>
    obtain ⟨rfl, _, _⟩ := Expr.binary.inj same
    cases other.symm.trans compares
  | member negate listed => cases same

end Follows

end EntitySql.Grammar
