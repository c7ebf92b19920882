import EntitySql.Proofs.Calls
import EntitySql.Proofs.Equality
import EntitySql.Proofs.References

/-! Predicates that are compiled again. The search for a name goes the same way as the first time, so the
values are found where they are, nothing is added, and the condition is the same. Only a NaN is not
recognised, and is bound anew each time. -/

set_option autoImplicit false

namespace EntitySql

namespace Value

mutual

theorem hasNaN_toJson : ∀ {v : Value}, v.hasNaN = false → v.toJson.hasNaN = false
  | .null, _ => rfl
  | .bool _, _ => rfl
  | .int _, _ => rfl
  | .float x, plain => by
    unfold toJson
    split
    · exact plain
    · rfl
  | .text _, _ => rfl
  | .uuid _, _ => rfl
  | .timestamp _, _ => rfl
  | .json _, plain => plain
  | .array _, plain => itemsHaveNaN_itemsToJson plain

theorem itemsHaveNaN_itemsToJson : ∀ {items : List Value},
    itemsHaveNaN items = false → Json.itemsHaveNaN (itemsToJson items) = false
  | [], _ => rfl
  | _ :: _, plain => by
    simp only [itemsHaveNaN, Bool.or_eq_false_iff] at plain
    simp only [itemsToJson, Json.itemsHaveNaN, Bool.or_eq_false_iff]
    exact ⟨hasNaN_toJson plain.1, itemsHaveNaN_itemsToJson plain.2⟩

end

theorem hasNaN_toDocument {v : Value} (plain : v.hasNaN = false) : v.toDocument.hasNaN = false := by
  cases v with
  | array items => exact itemsHaveNaN_itemsToJson plain
  | _ => exact plain

end Value

namespace Operand

variable (left : Operand) {ps qs : Parameters}

theorem stored_beq_self {v : Value} (plain : v.hasNaN = false) : (left.stored v == left.stored v) = true := by
  refine (Value.beq_self_iff _).2 ?_
  unfold stored
  split
  · exact Value.hasNaN_toDocument plain
  · exact plain

theorem bind_again (name : String) {v : Value} (plain : v.hasNaN = false)
    (reached : (left.bind name v ps).2.Reaches qs) :
    left.bind name v qs = ((left.bind name v ps).1, qs) := by
  have again := Parameters.assign_again (left.stored_beq_self plain) reached
  simp only [bind, again]

theorem bindItems_again (i : Nat) (items : List Value) (plain : Value.itemsHaveNaN items = false)
    (reached : (left.bindItems i items ps).2.Reaches qs) :
    left.bindItems i items qs = ((left.bindItems i items ps).1, qs) := by
  induction items generalizing i ps with
  | nil => rfl
  | cons v rest ih =>
    simp only [Value.itemsHaveNaN, Bool.or_eq_false_iff] at plain
    cases null : v.isNull with
    | true =>
      simp only [bindItems, null, if_true] at reached ⊢
      rw [ih (i + 1) plain.2 reached]
    | false =>
      simp only [bindItems, null, Bool.false_eq_true, if_false] at reached ⊢
      have onward := (left.reaches_bindItems (i + 1) rest _).trans reached
      rw [left.bind_again _ plain.1 onward, ih (i + 1) plain.2 reached]

end Operand

namespace Comparison

variable (c : Comparison) (left : Operand) {ps qs : Parameters}

theorem membership_again (plain : c.value.hasNaN = false) (reached : (c.membership left ps).2.Reaches qs) :
    c.membership left qs = ((c.membership left ps).1, qs) := by
  unfold membership at reached ⊢
  split at reached
  · rfl
  · rename_i items _ listed
    rw [listed] at plain
    rw [left.bindItems_again 0 items plain reached]
  · rw [left.bind_again _ plain reached]

theorem condition_again (plain : c.value.hasNaN = false) (reached : (c.condition left ps).2.Reaches qs) :
    c.condition left qs = ((c.condition left ps).1, qs) := by
  cases null : c.value.isNull with
  | true => rw [c.condition_null left null, c.condition_null left null]
  | false =>
    by_cases operator : c.operator = .member
    · rw [c.condition_member left null operator] at reached ⊢
      rw [c.condition_member left null operator, c.membership_again left plain reached]
    · rw [c.condition_relation left null operator] at reached ⊢
      rw [c.condition_relation left null operator, left.bind_again _ plain reached]

theorem parameters_of_isWhole (whole : c.IsWhole) (notNull : c.value.isNull = false) (ps : Parameters) :
    (c.condition left ps).2 = (left.bind left.parameterName c.value ps).2 := by
  by_cases operator : c.operator = .member
  · have single := whole operator
    rw [c.condition_member left notNull operator]
    unfold membership
    split
    · rename_i empty
      exact absurd (congrArg Value.kind empty) single
    · rename_i items _ listed
      exact absurd (congrArg Value.kind listed) single
    · rfl
  · rw [c.condition_relation left notNull operator]

variable {c} {other : Comparison}

theorem kind_eq_of_isWhole (value : other.value = c.value) (whole : c.IsWhole) (alike : other.IsWhole) :
    other.kind = c.kind := by
  have plain {d : Comparison} (whole : d.IsWhole) :
      d.kind = if d.value.kind = .array then .json else d.value.kind := by
    cases given : d.value with
    | array items =>
      have single : d.operator ≠ .member := fun member => whole member (by rw [given]; rfl)
      cases operator : d.operator with
      | member => exact absurd operator single
      | _ => simp [kind, given, operator, Value.kind]
    | _ => simp [kind, given, Value.kind]
  rw [plain whole, plain alike, value]

/-- The operator has no part in which operand is meant, nor in what it is compared as. -/
theorem operand_eq_of_isWhole (schema : Schema) (property : other.property = c.property)
    (value : other.value = c.value) (whole : c.IsWhole) (alike : other.IsWhole) :
    other.operand schema = c.operand schema := by
  rw [operand, operand, path, path, property, kind_eq_of_isWhole value whole alike]

theorem parameters_same_value (value : other.value = c.value) (whole : c.IsWhole) (alike : other.IsWhole)
    (plain : c.value.hasNaN = false) (reached : (c.condition left ps).2.Reaches qs) :
    (other.condition left qs).2 = qs := by
  cases null : c.value.isNull with
  | true => rw [other.condition_null left (value ▸ null)]
  | false =>
    rw [c.parameters_of_isWhole left whole null] at reached
    rw [other.parameters_of_isWhole left alike (value ▸ null), value, left.bind_again _ plain reached]

end Comparison

namespace Predicate

variable (schema : Schema) {ps final qs : Parameters}

mutual

theorem compile_again : ∀ (p : Predicate) {ps final : Parameters} {condition : Condition},
    (∀ c ∈ p.leaves, c.value.hasNaN = false) → p.compile schema ps = .ok condition final →
    final.Reaches qs → p.compile schema qs = .ok condition qs
  | .comparison c, ps, final, condition, plain, compiled, reached => by
    obtain ⟨left, resolved, rfl, rfl⟩ := Comparison.compile_eq_ok_iff.1 compiled
    have again := c.condition_again left (plain c (by simp [leaves])) reached
    exact Comparison.compile_eq_ok_iff.2 ⟨left, resolved, by rw [again], by rw [again]⟩
  | .group k children, ps, final, condition, plain, compiled, reached => by
    obtain ⟨conditions, all, rfl⟩ := compile_group_eq_ok_iff.1 compiled
    exact compile_group_eq_ok_iff.2 ⟨conditions, compileAll_again children plain all reached, rfl⟩

theorem compileAll_again : ∀ (children : List Predicate) {ps final : Parameters} {conditions : List Condition},
    (∀ c ∈ leavesOf children, c.value.hasNaN = false) → compileAll schema children ps = .ok conditions final →
    final.Reaches qs → compileAll schema children qs = .ok conditions qs
  | [], ps, final, conditions, _, compiled, _ => by
    cases compiled
    rfl
  | p :: rest, ps, final, conditions, plain, compiled, reached => by
    simp only [leavesOf, List.mem_append] at plain
    obtain ⟨first, mid, others, one, all, rfl⟩ := compileAll_cons_eq_ok_iff.1 compiled
    -- The others only added to what the first child left.
    have onward := (reaches_of_compileAll all).trans reached
    have oneAgain := compile_again p (fun c member => plain c (.inl member)) one onward
    have allAgain := compileAll_again rest (fun c member => plain c (.inr member)) all reached
    exact compileAll_cons_eq_ok_iff.2 ⟨first, qs, others, oneAgain, allAgain, rfl⟩

end

mutual

theorem exists_condition_of_leaf : ∀ (p : Predicate) {ps final : Parameters} {condition : Condition},
    p.compile schema ps = .ok condition final → ∀ c ∈ p.leaves,
    ∃ left mid, c.operand schema = .ok left ∧ (c.condition left mid).2.Reaches final
  | .comparison c, ps, final, condition, compiled, d, member => by
    obtain rfl : d = c := by simpa [leaves] using member
    obtain ⟨left, resolved, rfl, rfl⟩ := Comparison.compile_eq_ok_iff.1 compiled
    exact ⟨left, ps, resolved, .refl _⟩
  | .group k children, ps, final, condition, compiled, c, member => by
    obtain ⟨conditions, all, rfl⟩ := compile_group_eq_ok_iff.1 compiled
    exact exists_condition_of_leafOf children all c member

theorem exists_condition_of_leafOf : ∀ (children : List Predicate) {ps final : Parameters}
    {conditions : List Condition}, compileAll schema children ps = .ok conditions final →
    ∀ c ∈ leavesOf children,
    ∃ left mid, c.operand schema = .ok left ∧ (c.condition left mid).2.Reaches final
  | [], _, _, _, _, c, member => absurd member List.not_mem_nil
  | p :: rest, ps, final, conditions, compiled, c, member => by
    obtain ⟨first, mid, others, one, all, rfl⟩ := compileAll_cons_eq_ok_iff.1 compiled
    rcases List.mem_append.1 member with here | there
    · obtain ⟨left, before, resolved, reached⟩ := exists_condition_of_leaf p one c here
      exact ⟨left, before, resolved, reached.trans (reaches_of_compileAll all)⟩
    · exact exists_condition_of_leafOf rest all c there

end

/-- A predicate without a NaN that was compiled once comes to the same condition after any further calls,
and to the same text in every dialect, and binds nothing more; so a group that repeats it binds what it
binds alone. Nor is anything bound for a further comparison of a path with the value that the predicate
compares it with already, whatever the operators are, unless one of the two binds item by item. -/
theorem compiled_again_binds_nothing (schema : Schema) (p : Predicate)
    (plain : ∀ c ∈ p.leaves, c.value.hasNaN = false) {ps final : Parameters} {condition : Condition}
    (compiled : p.compile schema ps = .ok condition final) (calls : List Call) :
    let later := Call.runAll calls final
    p.compile schema later = .ok condition later ∧
    (∀ k, compile schema (.group k [p, p]) ps = .ok (.group k [condition, condition]) final) ∧
    ∀ c ∈ p.leaves, ∀ other : Comparison, other.property = c.property → other.value = c.value →
      c.IsWhole → other.IsWhole → ∃ added, other.compile schema later = .ok added later := by
  intro later
  have reached : final.Reaches later := Call.reaches_runAll calls final
  refine ⟨compile_again schema p plain compiled reached, fun k => ?_, ?_⟩
  · have again := compile_again schema p plain compiled (.refl final)
    have second : compileAll schema [p] final = .ok [condition] final :=
      compileAll_cons_eq_ok_iff.2 ⟨condition, final, [], again, rfl, rfl⟩
    have both : compileAll schema [p, p] ps = .ok [condition, condition] final :=
      compileAll_cons_eq_ok_iff.2 ⟨condition, final, [condition], compiled, second, rfl⟩
    exact compile_group_eq_ok_iff.2 ⟨[condition, condition], both, rfl⟩
  · intro c member other property value whole alike
    obtain ⟨left, mid, resolved, bound⟩ := exists_condition_of_leaf schema p compiled c member
    have operand : other.operand schema = .ok left := by
      rw [Comparison.operand_eq_of_isWhole schema property value whole alike, resolved]
    refine ⟨(other.condition left later).1, ?_⟩
    -- The operators have no part in the name or in what is bound under it.
    have same := Comparison.parameters_same_value left value whole alike (plain c member)
      (bound.trans reached)
    rw [other.compile_of_operand left operand, same]

/-- Every name that is found again here is one that was numbered, and calls in between bind more. -/
theorem compiled_again_binds_nothing_numbered :
    let p := all [memberOf "Size" [.int 1, .null, .int 2], eq "Size" (.int 3), gt "Size" (.int 4)]
    let ps : Parameters := ⟨[("size", .int 5), ("size_2", .int 6), ("size_0", .int 7)]⟩
    let calls : List Call := [.bind "size" (.int 8), .update ⟨Sample.foos, "Foo"⟩ Sample.changes]
    (∀ c ∈ p.leaves, c.value.hasNaN = false) ∧
    ∃ condition final, p.compile Sample.foos ps = .ok condition final ∧
      final.names = ["size", "size_2", "size_0", "size_0_2", "size_2_2", "size_3", "size_4"] ∧
      let later := Call.runAll calls final
      later.names = final.names ++ ["size_5", "size_6", "id", "size_7", "attributes"] ∧
      p.compile Sample.foos later = .ok condition later ∧
      ∃ added, Comparison.compile Sample.foos ⟨.member, "Size", .int 3, true, false⟩ later =
        .ok added later := by
  intro p ps calls
  have plain : ∀ c ∈ p.leaves, c.value.hasNaN = false := by decide
  have compiled : p.compile Sample.foos ps = .ok _ _ := rfl
  have again := compiled_again_binds_nothing Sample.foos p plain compiled calls
  have leaf : (⟨.eq, "Size", .int 3, false, false⟩ : Comparison) ∈ p.leaves := .tail _ (.head _)
  have whole (operator : Operator) (negate : Bool) :
      Comparison.IsWhole ⟨operator, "Size", .int 3, negate, false⟩ := fun _ => by simp [Value.kind]
  exact ⟨plain, _, _, compiled, by decide, by decide +kernel, again.1,
    again.2.2 _ leaf _ rfl rfl (whole .eq false) (whole .member true)⟩

end Predicate

end EntitySql
