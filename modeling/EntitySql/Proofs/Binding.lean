import EntitySql.Binding
import EntitySql.Proofs.Parameters

/-! Computations that bind parameters: how they are taken apart, and that all they do to the parameters
is bind, whether or not they succeed. -/

set_option autoImplicit false

namespace EntitySql.Binding

variable {α β : Type}

def left (x : Binding α) (ps : Parameters) : Parameters :=
  (x.outcome ps).2

theorem left_of_ok {x : Binding α} {ps qs : Parameters} {a : α} (ran : x ps = .ok a qs) :
    x.left ps = qs := by
  simp [left, outcome, ran]

theorem left_of_error {x : Binding α} {ps qs : Parameters} {e : Error} (ran : x ps = .error e qs) :
    x.left ps = qs := by
  simp [left, outcome, ran]

theorem bind_of_ok {x : Binding α} {ps qs : Parameters} {a : α} (ran : x ps = .ok a qs)
    (f : α → Binding β) : (x >>= f) ps = f a qs := by
  change EStateM.bind x f ps = f a qs
  simp only [EStateM.bind, ran]

theorem bind_of_error {x : Binding α} {ps qs : Parameters} {e : Error} (ran : x ps = .error e qs)
    (f : α → Binding β) : (x >>= f) ps = .error e qs := by
  change EStateM.bind x f ps = .error e qs
  simp only [EStateM.bind, ran]

theorem exists_of_bind_eq_ok {x : Binding α} {f : α → Binding β} {ps final : Parameters} {b : β}
    (ran : (x >>= f) ps = .ok b final) : ∃ a mid, x ps = .ok a mid ∧ f a mid = .ok b final := by
  cases first : x ps with
  | ok a mid => exact ⟨a, mid, rfl, (bind_of_ok first f).symm.trans ran⟩
  | error e mid =>
    rw [bind_of_error first f] at ran
    cases ran

/-- Every run leaves parameters that come from those it found by binding. -/
def Binds (x : Binding α) : Prop :=
  ∀ ps : Parameters, ps.Reaches (x.left ps)

theorem Binds.pure (a : α) : Binds (pure a : Binding α) :=
  fun ps => .refl ps

theorem Binds.throw (e : Error) : Binds (throw e : Binding α) :=
  fun ps => .refl ps

theorem Binds.ofExcept (x : Except Error α) : Binds (ofExcept x) := by
  cases x with
  | ok a => exact .pure a
  | error e => exact .throw e

theorem Binds.ofState {f : Parameters → α × Parameters}
    (reaches : ∀ ps : Parameters, ps.Reaches (f ps).2) : Binds (ofState f) :=
  reaches

theorem Binds.bind {x : Binding α} {f : α → Binding β} (first : Binds x) (second : ∀ a, Binds (f a)) :
    Binds (x >>= f) := by
  intro ps
  cases ran : x ps with
  | ok a mid =>
    have step : ps.Reaches mid := by
      rw [← left_of_ok ran]
      exact first ps
    have same : (x >>= f).left ps = (f a).left mid := by
      simp only [left, outcome, bind_of_ok ran f]
    rw [same]
    exact step.trans (second a mid)
  | error e mid =>
    rw [left_of_error (bind_of_error ran f), ← left_of_error ran]
    exact first ps

theorem Binds.assign (name : String) (v : Value) : Binds (assign name v) :=
  .ofState fun ps => ps.reaches_assign name v

end EntitySql.Binding
