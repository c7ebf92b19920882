import EntitySql.Proofs.KeyFilter
import EntitySql.Proofs.Negation
import EntitySql.Proofs.NullSafety

/-! Membership in a list. Its items are bound one by one, each under a name of its own, and a null among them
is written as it is. A database finds a value in such a list exactly when it is equal to an item that is
not null, and is certain that it does not only when no null is in the way. -/

set_option autoImplicit false

namespace EntitySql

namespace Engine

variable (e : Engine) (v w : Value)

theorem compare_equality_iff (b : Bool) :
    e.compare "=" v w = .ofBool b ↔ v.isNull = false ∧ w.isNull = false ∧ (v == w) = b := by
  cases left : v.isNull with
  | true => cases b <;> simp [e.compare_null_left "=" left w]
  | false =>
    cases right : w.isNull with
    | true => cases b <;> simp [e.compare_null_right "=" v right]
    | false =>
      rw [e.compare_of_relation "=" rfl left right]
      cases b <;> simp

theorem member_eq_yes_iff (items : List Value) :
    e.member "IN" v items = .yes ↔
      v.isNull = false ∧ ∃ w ∈ items, w.isNull = false ∧ (v == w) = true := by
  have found : e.member "IN" v items = .yes ↔ ∃ w ∈ items, e.compare "=" v w = .ofBool true := by
    rw [← List.mem_map]
    exact Truth.any_eq_yes_iff _
  simp only [found, compare_equality_iff]
  constructor
  · rintro ⟨w, inside, left, right, same⟩
    exact ⟨left, w, inside, right, same⟩
  · rintro ⟨left, w, inside, right, same⟩
    exact ⟨w, inside, left, right, same⟩

theorem member_eq_no_iff (items : List Value) :
    e.member "IN" v items = .no ↔
      items = [] ∨ v.isNull = false ∧ ∀ w ∈ items, w.isNull = false ∧ (v == w) = false := by
  have missed : e.member "IN" v items = .no ↔ ∀ w ∈ items, e.compare "=" v w = .ofBool false :=
    (Truth.any_eq_no_iff _).trans List.forall_mem_map
  simp only [missed, compare_equality_iff]
  cases items with
  | nil => simp
  | cons first rest =>
    constructor
    · intro each
      exact .inr ⟨(each first List.mem_cons_self).1, fun w inside => (each w inside).2⟩
    · rintro (empty | ⟨left, each⟩)
      · cases empty
      · exact fun w inside => ⟨left, each w inside⟩

section

variable {e v} {left : Operand} {later : Parameters}

theorem compare_of_denotes {r : Reference} (scalar : left.isDocument = false)
    (denotes : r.Denotes later left w) : e.compare "=" v (r.value later) = e.compare "=" v w := by
  cases null : w.isNull with
  | true => rw [e.compare_null_right "=" v null, e.compare_null_right "=" v (denotes.isNull.trans null)]
  | false =>
    cases known : v.isNull with
    | true => rw [e.compare_null_left "=" known, e.compare_null_left "=" known]
    | false =>
      rw [e.compare_of_relation "=" rfl known null,
        e.compare_of_relation "=" rfl known (denotes.isNull.trans null),
        Comparison.beq_value_of_denotes scalar null denotes v]

theorem member_of_denotes {references : List Reference} {items : List Value}
    (scalar : left.isDocument = false)
    (denote : List.Forall₂ (Reference.Denotes later left) references items) (operator : String) :
    e.member operator v (references.map (·.value later)) = e.member operator v items := by
  have alike : (references.map (·.value later)).map (e.compare "=" v) = items.map (e.compare "=" v) := by
    induction denote with
    | nil => rfl
    | cons first _ ih => rw [List.map_cons, List.map_cons, List.map_cons, ih, compare_of_denotes _ scalar first]
  simp only [member, alike]

end

end Engine

namespace Comparison

variable {c : Comparison} {left : Operand} {later : Parameters} {condition : Condition}

/-- A comparison with a list looks the operand up among the items themselves, whatever they are bound
under, and is settled without them when there are none. -/
theorem eval_of_lowered_items (e : Engine) (row : Operand → Value) {items : List Value}
    (operator : c.operator = .member) (value : c.value = .array items) (scalar : left.isDocument = false)
    (lowered : c.Lowered left later condition) :
    condition.eval e row later =
      e.member (Dialect.postgres.comparison .member c.negate) (row left) items := by
  cases lowered with
  | withNull null =>
    rw [value] at null
    cases null
  | noItems _ empty =>
    cases value.symm.trans empty
    rw [Condition.eval_truth]
    cases c.negate <;> rfl
  | items _ listed denote =>
    cases value.symm.trans listed
    rw [Condition.eval_member]
    exact Engine.member_of_denotes scalar denote _
  -- The value is a list, so it is neither null nor a single item nor related as a whole.
  | item _ _ notArray => exact absurd (congrArg Value.kind value) notArray
  | relation single => exact absurd operator single

end Comparison

namespace Predicate

theorem leavesOf_map_compare (operator : Operator) (property : String) (values : List Value) :
    leavesOf (values.map (compare operator property)) =
      values.map fun v => ⟨operator, property, v, false, false⟩ := by
  induction values with
  | nil => rfl
  | cons v rest ih => simp [leavesOf, leaves, compare, ← ih]

variable {schema : Schema} {property : String} {m : Mapping}

theorem mem_leaves_any_eq {values : List Value} {c : Comparison}
    (inside : c ∈ (any (values.map (eq property))).leaves) :
    ∃ v, c = ⟨.eq, property, v, false, false⟩ := by
  rw [any, leaves, show eq property = compare .eq property from rfl, leavesOf_map_compare] at inside
  obtain ⟨v, _, rfl⟩ := List.mem_map.1 inside
  exact ⟨v, rfl⟩

section

variable (dotless : '.' ∉ property.toList) (resolved : schema.resolve property = .ok m)
  (scalar : m.isDocument = false) (values : List Value) (ps : Parameters) (e : Engine)
  {row : Operand → Value} {x : Value} (column : ∀ kind, row ⟨m, [], kind⟩ = x)
include dotless resolved scalar column

theorem compile_memberOf : ∃ inside outside final,
    (memberOf property values).compile schema ps = .ok inside final ∧
    (notMemberOf property values).compile schema ps = .ok outside final ∧
    inside.eval e row final = e.member "IN" x values ∧
    outside.eval e row final = e.member "NOT IN" x values := by
  let c : Comparison := ⟨.member, property, .array values, false, false⟩
  let left : Operand := ⟨m, [], c.kind⟩
  have operand : c.operand schema = .ok left := Comparison.operand_of_dotless dotless resolved
  have plain : left.isDocument = false := by simpa [left, Operand.isDocument] using scalar
  have reached : (c.opposite.condition left ps).2.Reaches (c.condition left ps).2 := by
    rw [c.parameters_opposite left ps]
    exact .refl _
  have negated := c.opposite.compile_of_operand left operand ps
  rw [c.parameters_opposite left ps] at negated
  refine ⟨_, _, _, c.compile_of_operand left operand ps, negated, ?_, ?_⟩
  · rw [← column c.kind]
    exact Comparison.eval_of_lowered_items e row rfl rfl plain (c.condition_lowered left (.refl _))
  · rw [← column c.kind]
    exact Comparison.eval_of_lowered_items e row rfl rfl plain (c.opposite.condition_lowered left reached)

theorem compile_any_eq : ∃ either final,
    (any (values.map (eq property))).compile schema ps = .ok either final ∧
    (either.eval e row final = .yes ↔ ∃ v ∈ values, (x == v) = true) := by
  let p : Predicate := any (values.map (eq property))
  have path : Path.ofText property = ⟨property, []⟩ := Path.ofText_of_dotless dotless
  have plain : ∀ c ∈ p.leaves, c.IsPlainEquality schema := by
    intro c inside
    obtain ⟨v, rfl⟩ := mem_leaves_any_eq inside
    exact ⟨rfl, rfl, by rw [Comparison.path, path], m, by rw [Comparison.path, path]; exact resolved, scalar⟩
  obtain ⟨either, final, compiled⟩ := compile_of_leaves schema p
    (fun c inside => (plain c inside).operand.imp fun _ => And.left) ps
  -- The disjunction is one of plain equalities, so it is true where the host finds one of them so.
  have host (v : Value) : (eq property v).holds (·.holds schema row) = (x == v) := by
    have operand := Comparison.operand_of_dotless
      (show '.' ∉ (⟨.eq, property, v, false, false⟩ : Comparison).property.toList from dotless) resolved
    rw [eq, compare, holds, Comparison.holds, operand]
    simp [column]
  refine ⟨either, final, compiled, ?_⟩
  rw [eval_of_lowered e row p plain (compile_lowered schema p compiled (.refl final))]
  simp only [p, any, holds, anyHolds_iff, List.mem_map, exists_exists_and_eq_and, host]

end

/-- A predicate that looks a column up in a list, and its negation, compile whatever is bound already, for
every list. The first is true in a database exactly where the column has a value that is equal to an item,
and false exactly where there are no items, or where the column has a value, no item is null and none is
equal to it. The negation is true where the predicate is false, and false where it is true. If no item is
null, the predicate selects the rows that the disjunction of the equalities with the items does. -/
theorem membership_selects (schema : Schema) {property : String} (dotless : '.' ∉ property.toList)
    {m : Mapping} (resolved : schema.resolve property = .ok m) (scalar : m.isDocument = false)
    (values : List Value) (ps : Parameters) (e : Engine) {row : Operand → Value} {x : Value}
    (column : ∀ kind, row ⟨m, [], kind⟩ = x) :
    ∃ inside outside either final eitherFinal,
      (memberOf property values).compile schema ps = .ok inside final ∧
      (notMemberOf property values).compile schema ps = .ok outside final ∧
      (any (values.map (eq property))).compile schema ps = .ok either eitherFinal ∧
      (inside.eval e row final = .yes ↔
        x.isNull = false ∧ ∃ v ∈ values, v.isNull = false ∧ (x == v) = true) ∧
      (inside.eval e row final = .no ↔
        values = [] ∨ x.isNull = false ∧ ∀ v ∈ values, v.isNull = false ∧ (x == v) = false) ∧
      (outside.eval e row final = .yes ↔ inside.eval e row final = .no) ∧
      (outside.eval e row final = .no ↔ inside.eval e row final = .yes) ∧
      ((∀ v ∈ values, v.isNull = false) →
        (inside.eval e row final = .yes ↔ either.eval e row eitherFinal = .yes)) := by
  obtain ⟨inside, outside, final, plain, negated, found, missed⟩ :=
    compile_memberOf dotless resolved scalar values ps e column
  obtain ⟨either, eitherFinal, compiled, selects⟩ :=
    compile_any_eq dotless resolved scalar values ps e column
  have opposite : outside.eval e row final = (inside.eval e row final).not := by
    rw [found, missed]
    exact e.member_negated false x values
  refine ⟨inside, outside, either, final, eitherFinal, plain, negated, compiled, ?_, ?_, ?_, ?_, ?_⟩
  · rw [found, e.member_eq_yes_iff]
  · rw [found, e.member_eq_no_iff]
  · rw [opposite, Truth.not_eq_yes_iff]
  · rw [opposite, Truth.not_eq_no_iff]
  · intro known
    rw [found, e.member_eq_yes_iff, selects]
    constructor
    · rintro ⟨_, v, member, _, same⟩
      exact ⟨v, member, same⟩
    · rintro ⟨v, member, same⟩
      -- What is equal to a value that is not null is not null either.
      exact ⟨(Value.isNull_of_beq same).trans (known v member), v, member, known v member, same⟩

/-- There is a null among the items, and the name for the first of them is taken. -/
theorem membership_selects_withNull :
    let values : List Value := [.text "a", .null, .text "b"]
    let ps : Parameters := ⟨[("template_key_0", .text "b")]⟩
    let row (_ : Operand) : Value := .text "b"
    let m : Mapping := .plain "TemplateKey" "template_key"
    '.' ∉ "TemplateKey".toList ∧ Sample.foos.resolve "TemplateKey" = .ok m ∧ m.isDocument = false ∧
      (∀ kind, row ⟨m, [], kind⟩ = .text "b") ∧
      ∃ inside outside either final eitherFinal,
        (memberOf "TemplateKey" values).compile Sample.foos ps = .ok inside final ∧
        (notMemberOf "TemplateKey" values).compile Sample.foos ps = .ok outside final ∧
        (any (values.map (eq "TemplateKey"))).compile Sample.foos ps = .ok either eitherFinal ∧
        (inside.eval Sample.engine row final = .yes ↔
          (Value.text "b").isNull = false ∧ ∃ v ∈ values, v.isNull = false ∧ (.text "b" == v) = true) ∧
        (inside.eval Sample.engine row final = .no ↔
          values = [] ∨ (Value.text "b").isNull = false ∧
            ∀ v ∈ values, v.isNull = false ∧ (.text "b" == v) = false) ∧
        (outside.eval Sample.engine row final = .yes ↔ inside.eval Sample.engine row final = .no) ∧
        (outside.eval Sample.engine row final = .no ↔ inside.eval Sample.engine row final = .yes) ∧
        ((∀ v ∈ values, v.isNull = false) →
          (inside.eval Sample.engine row final = .yes ↔
            either.eval Sample.engine row eitherFinal = .yes)) := by
  intro values ps row m
  have dotless : '.' ∉ "TemplateKey".toList := by decide
  have resolved : Sample.foos.resolve "TemplateKey" = .ok m := rfl
  have column : ∀ kind, row ⟨m, [], kind⟩ = .text "b" := fun _ => rfl
  exact ⟨dotless, resolved, rfl, column,
    membership_selects Sample.foos dotless resolved rfl values ps Sample.engine column⟩

/-- Next to a null it is not known that a value is not in the list. -/
example : ∃ outside final,
    (notMemberOf "TemplateKey" [.text "a", .null]).compile Sample.foos .empty = .ok outside final ∧
      outside.eval Sample.engine (fun _ => .text "c") final = .unknown :=
  ⟨_, _, rfl, by decide⟩

end Predicate

end EntitySql
