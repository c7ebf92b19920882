import EntitySql.Proofs.Independence
import EntitySql.Proofs.Repetition

/-! Predicates that do not compile. A comparison fails before it binds anything, so compiling a predicate
binds what its comparisons bind, from left to right, up to the first that fails. How they are grouped
plays no part in it, nor do their operators and values. -/

set_option autoImplicit false

namespace EntitySql

namespace Binding.Alike

variable {α β γ δ : Type}

theorem pure (a : α) (b : β) : Alike (Pure.pure a) (Pure.pure b) :=
  fun _ => ⟨rfl, fun _ => ⟨nofun, nofun⟩⟩

theorem trans {x : Binding α} {y : Binding β} {z : Binding γ} (first : Alike x y) (second : Alike y z) :
    Alike x z :=
  fun ps => ⟨(first ps).1.trans (second ps).1, fun e => ((first ps).2 e).trans ((second ps).2 e)⟩

theorem error_iff {x : Binding α} {y : Binding β} (alike : Alike x y) {ps final : Parameters} {e : Error} :
    x ps = .error e final ↔ y ps = .error e final := by
  have outcome_iff {ι : Type} (z : Binding ι) :
      z ps = .error e final ↔ (z.outcome ps).1 = .error e ∧ (z.outcome ps).2 = final := by
    cases ran : z ps <;> simp [outcome, ran]
  rw [outcome_iff x, outcome_iff y, (alike ps).1, (alike ps).2]

theorem bind {x : Binding α} {y : Binding β} {f : α → Binding γ} {g : β → Binding δ} (first : Alike x y)
    (onward : ∀ a b, Alike (f a) (g b)) : Alike (x >>= f) (y >>= g) := by
  intro ps
  -- Either both first parts fail or neither does, so one of the four cases does not arise.
  cases ranX : x ps with
  | error e mid =>
    have ranY : y ps = .error e mid := first.error_iff.1 ranX
    simp only [outcome, bind_of_error ranX, bind_of_error ranY, Except.error.injEq, implies_true, and_self]
  | ok a mid =>
    cases ranY : y ps with
    | error e left =>
      rw [first.error_iff.2 ranY] at ranX
      cases ranX
    | ok b left =>
      have same := (first ps).1
      simp only [outcome, ranX, ranY] at same
      subst same
      simpa only [outcome, bind_of_ok ranX, bind_of_ok ranY] using onward a b mid

end Binding.Alike

namespace Comparison

/-- The comparison cannot be compiled: what its path begins with is not mapped, or the path goes on and
the column holds no documents. -/
inductive Fails (schema : Schema) (c : Comparison) : Error → Prop where
  | unmapped : schema.columns.get? c.path.property = none → Fails schema c (.unmapped c.path.property)
  | notNavigable {m : Mapping} : schema.columns.get? c.path.property = some m → c.path.keys ≠ [] →
      m.isDocument = false → Fails schema c (.notNavigable c.property m.column)

theorem operand_eq_error_iff {schema : Schema} {c : Comparison} {e : Error} :
    c.operand schema = .error e ↔ c.Fails schema e := by
  cases found : schema.columns.get? c.path.property with
  | none =>
    have unresolved : c.operand schema = .error (.unmapped c.path.property) := by
      simp only [operand, Schema.resolve, found]
      rfl
    rw [unresolved]
    constructor
    · intro same
      cases same
      exact .unmapped found
    · intro fails
      cases fails with
      | unmapped _ => rfl
      | notNavigable mapped _ _ =>
        rw [found] at mapped
        cases mapped
  | some m =>
    -- What may still fail is to go on into the column.
    have resolved : c.operand schema =
        if c.path.keys.isEmpty || m.isDocument then .ok ⟨m, c.path.keys, c.kind⟩
        else .error (.notNavigable c.property m.column) := by
      simp only [operand, Schema.resolve, found]
      rfl
    rw [resolved]
    constructor
    · intro failed
      split at failed
      · cases failed
      · rename_i refused
        cases failed
        simp only [Bool.or_eq_true, not_or, List.isEmpty_iff, Bool.not_eq_true] at refused
        exact .notNavigable found refused.1 refused.2
    · intro fails
      cases fails with
      | unmapped missing =>
        rw [found] at missing
        cases missing
      | notNavigable mapped nested scalar =>
        obtain rfl := Option.some.inj (found.symm.trans mapped)
        simp [nested, scalar]

theorem not_fails_of_operand {schema : Schema} {c : Comparison} {left : Operand}
    (resolved : c.operand schema = .ok left) (e : Error) : ¬c.Fails schema e := by
  rw [← operand_eq_error_iff, resolved]
  nofun

end Comparison

namespace Predicate

variable (schema : Schema)

theorem compileAll_append (xs ys : List Predicate) :
    compileAll schema (xs ++ ys) = do
      let first ← compileAll schema xs
      let others ← compileAll schema ys
      return first ++ others := by
  induction xs with
  | nil => simp only [List.nil_append, compileAll, pure_bind, bind_pure]
  | cons p rest ih => simp only [List.cons_append, compileAll, ih, bind_assoc, pure_bind]

mutual

/-- A predicate fails as its comparisons do when they are compiled one after the other. -/
theorem alike_leaves : ∀ p : Predicate,
    Binding.Alike (p.compile schema) (compileAll schema (p.leaves.map .comparison))
  | .comparison c => by
    have single : compileAll schema [.comparison c] = (fun condition => [condition]) <$> c.compile schema := by
      simp only [compileAll, compile, bind_pure_comp, map_pure]
    have same := Binding.Alike.map id (fun condition => [condition]) (c.compile schema)
    rw [leaves, List.map_singleton, single, compile]
    rwa [id_map] at same
  | .group k children => by
    -- A group wraps what its members come to, after all of them are bound.
    have whole : compile schema (.group k children) = .group k <$> compileAll schema children := by
      rw [compile, bind_pure_comp]
    have same := Binding.Alike.map (Condition.group k) id (compileAll schema children)
    rw [id_map] at same
    rw [whole, leaves]
    exact same.trans (alike_leavesOf children)

theorem alike_leavesOf : ∀ children : List Predicate,
    Binding.Alike (compileAll schema children) (compileAll schema ((leavesOf children).map .comparison))
  | [] => .pure _ _
  | p :: rest => by
    rw [leavesOf, List.map_append, compileAll_append, compileAll]
    exact .bind (alike_leaves p) fun _ _ => .bind (alike_leavesOf rest) fun _ _ => .pure _ _

end

variable {schema} {ps final : Parameters} {e : Error}

theorem compileAll_comparisons_of_fails {before after : List Comparison} {c : Comparison}
    {conditions : List Condition}
    (compiled : compileAll schema (before.map .comparison) ps = .ok conditions final)
    (fails : c.Fails schema e) :
    compileAll schema ((before ++ c :: after).map .comparison) ps = .error e final := by
  have failed : compileAll schema ((c :: after).map .comparison) final = .error e final :=
    Binding.bind_of_error (c.compile_of_unresolved (Comparison.operand_eq_error_iff.2 fails) final) _
  rw [List.map_append, compileAll_append]
  exact (Binding.bind_of_ok compiled _).trans (Binding.bind_of_error failed _)

theorem exists_first_failure {cs : List Comparison}
    (failed : compileAll schema (cs.map .comparison) ps = .error e final) :
    ∃ before c after conditions, cs = before ++ c :: after ∧ (∀ b ∈ before, ∀ e, ¬b.Fails schema e) ∧
      c.Fails schema e ∧ compileAll schema (before.map .comparison) ps = .ok conditions final := by
  -- Each comparison starts from the parameters that the one before it leaves.
  induction cs generalizing ps with
  | nil => cases failed
  | cons c rest ih =>
    cases resolved : c.operand schema with
    | error cause =>
      have stopped : compileAll schema ((c :: rest).map .comparison) ps = .error cause ps :=
        Binding.bind_of_error (c.compile_of_unresolved resolved ps) _
      rw [stopped] at failed
      cases failed
      exact ⟨[], c, rest, [], rfl, by simp, Comparison.operand_eq_error_iff.1 resolved, rfl⟩
    | ok left =>
      have first : compile schema (.comparison c) ps = .ok _ _ := c.compile_of_operand left resolved ps
      rw [List.map_cons, compileAll_cons, first] at failed
      dsimp only at failed
      split at failed
      · cases failed
      · rename_i others
        cases failed
        obtain ⟨before, d, after, conditions, rfl, resolve, fails, compiled⟩ := ih others
        refine ⟨c :: before, d, after, (c.condition left ps).1 :: conditions, rfl, ?_, fails, ?_⟩
        · exact List.forall_mem_cons.2 ⟨Comparison.not_fails_of_operand resolved, resolve⟩
        · exact compileAll_cons_eq_ok_iff.2 ⟨_, _, _, first, compiled, rfl⟩

/-- A predicate does not compile exactly when one of its comparisons cannot be compiled. The error is that of
the first such comparison from left to right, and what was bound is what the conjunction of the comparisons
before it binds. -/
theorem compile_fails_at_first_leaf (schema : Schema) (p : Predicate) (ps : Parameters) :
    ((∃ e final, p.compile schema ps = .error e final) ↔ ∃ c ∈ p.leaves, ∃ e, c.Fails schema e) ∧
    ∀ e final, p.compile schema ps = .error e final ↔
      ∃ before c after, p.leaves = before ++ c :: after ∧ (∀ b ∈ before, ∀ e, ¬b.Fails schema e) ∧
        c.Fails schema e ∧
        ∃ condition, (all (before.map .comparison)).compile schema ps = .ok condition final := by
  have first (e : Error) (final : Parameters) : p.compile schema ps = .error e final ↔
      ∃ before c after, p.leaves = before ++ c :: after ∧ (∀ b ∈ before, ∀ e, ¬b.Fails schema e) ∧
        c.Fails schema e ∧
        ∃ condition, (all (before.map .comparison)).compile schema ps = .ok condition final := by
    rw [(alike_leaves schema p).error_iff]
    constructor
    · intro failed
      obtain ⟨before, c, after, conditions, split, resolve, fails, compiled⟩ := exists_first_failure failed
      exact ⟨before, c, after, split, resolve, fails, .group .and conditions,
        compile_group_eq_ok_iff.2 ⟨conditions, compiled, rfl⟩⟩
    · rintro ⟨before, c, after, split, _, fails, condition, compiled⟩
      obtain ⟨conditions, all, _⟩ := compile_group_eq_ok_iff.1 compiled
      rw [split]
      exact compileAll_comparisons_of_fails all fails
  refine ⟨⟨?_, ?_⟩, first⟩
  · rintro ⟨e, final, failed⟩
    obtain ⟨before, c, after, split, _, fails, _⟩ := (first e final).1 failed
    exact ⟨c, by simp [split], e, fails⟩
  -- Had it compiled, each of its comparisons would have an operand.
  · rintro ⟨c, member, e, fails⟩
    cases ran : p.compile schema ps with
    | error cause final => exact ⟨cause, final, rfl⟩
    | ok condition final =>
      obtain ⟨left, _, resolved, _⟩ := exists_condition_of_leaf schema p ran c member
      exact absurd fails (Comparison.not_fails_of_operand resolved e)

end Predicate

end EntitySql
