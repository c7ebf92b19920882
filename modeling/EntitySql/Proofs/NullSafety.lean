import EntitySql.Proofs.Meaning
import EntitySql.Proofs.Sample

/-! Equality that treats nulls as equal. In a database a comparison with null is unknown, but a predicate
made of such equalities selects a row exactly when it holds for the host, who knows no third value. -/

set_option autoImplicit false

namespace EntitySql

namespace Comparison

/-- An equality that is not strict, of a column that holds no documents. -/
structure IsPlainEquality (schema : Schema) (c : Comparison) : Prop where
  equality : c.operator = .eq
  notStrict : c.strict = false
  column : c.path.keys = []
  mapped : ∃ m, schema.resolve c.path.property = .ok m ∧ m.isDocument = false

def holds (schema : Schema) (row : Operand → Value) (c : Comparison) : Bool :=
  match c.operand schema with
  | .ok left => (row left == c.value) != c.negate
  | .error _ => false

end Comparison

namespace Predicate

mutual

def holds (leaf : Comparison → Bool) : Predicate → Bool
  | .comparison c => leaf c
  | .group .and children => allHold leaf children
  | .group .or children => anyHolds leaf children

def allHold (leaf : Comparison → Bool) : List Predicate → Bool
  | [] => true
  | p :: rest => holds leaf p && allHold leaf rest

def anyHolds (leaf : Comparison → Bool) : List Predicate → Bool
  | [] => false
  | p :: rest => holds leaf p || anyHolds leaf rest

end

theorem anyHolds_iff (leaf : Comparison → Bool) (children : List Predicate) :
    anyHolds leaf children = true ↔ ∃ p ∈ children, p.holds leaf = true := by
  induction children with
  | nil => simp [anyHolds]
  | cons p rest ih => simp [anyHolds, ih]

end Predicate

theorem Value.beq_null (v : Value) {w : Value} (null : w.isNull = true) : (v == w) = v.isNull := by
  obtain rfl : w = .null := by
    cases w <;> first | rfl | cases null
  cases v <;> rfl

namespace Comparison

variable {schema : Schema} {c : Comparison} {left : Operand} {later : Parameters}

theorem IsPlainEquality.operand (plain : c.IsPlainEquality schema) :
    ∃ left, c.operand schema = .ok left ∧ left.isDocument = false := by
  obtain ⟨m, resolved, scalar⟩ := plain.mapped
  refine ⟨⟨m, [], c.kind⟩, ?_, by simpa [Operand.isDocument] using scalar⟩
  simp [Comparison.operand, resolved, plain.column, bind, Except.bind, pure, Except.pure]

theorem beq_value_of_denotes {r : Reference} {v : Value} (scalar : left.isDocument = false)
    (notNull : v.isNull = false) (denotes : r.Denotes later left v) (x : Value) :
    (x == r.value later) = (x == v) := by
  have stored : left.stored v = v := by simp [Operand.stored, scalar]
  have bound := denotes.value notNull
  rw [stored] at bound
  rcases bound with same | same
  · rw [same]
  · exact BEq.congr_right same

theorem eval_of_lowered (e : Engine) (row : Operand → Value) {condition : Condition}
    (plain : c.IsPlainEquality schema) (resolved : c.operand schema = .ok left)
    (lowered : c.Lowered left later condition) :
    condition.eval e row later = .yes ↔ c.holds schema row = true := by
  have host : c.holds schema row = ((row left == c.value) != c.negate) := by
    simp [holds, resolved]
  have notMember : c.operator ≠ .member := by simp [plain.equality]
  rw [host]
  -- An equality becomes a test for null or a null-safe comparison, and nothing else.
  cases lowered with
  | withNull null tested =>
    rw [testsNull_iff.1 tested, withNull, plain.equality, Condition.eval_isNull, Truth.ofBool_eq_yes_iff, Term.value,
      Value.beq_null _ null]
  | noItems operator => exact absurd operator notMember
  | items operator => exact absurd operator notMember
  | item operator => exact absurd operator notMember
  | @relation r condition _ notNull denotes related =>
    obtain ⟨found, found_eq, scalar⟩ := plain.operand
    cases resolved.symm.trans found_eq
    have bound : (r.value later).isNull = false := denotes.isNull.trans notNull
    have alike := beq_value_of_denotes scalar notNull denotes
    have shape : c.relation left r = .nullSafe left r c.negate := by
      simp [relation, plain.equality, plain.notStrict]
    rw [relates_iff.1 related, shape, e.eval_nullSafe, alike]
    cases null : (row left).isNull with
    | false => simp [bound]
    | true =>
      -- The comparison itself stays unknown; the tests for null beside it decide.
      have apart : (row left == c.value) = false := by
        cases same : row left == c.value with
        | false => rfl
        | true => rw [Value.isNull_of_beq same, notNull] at null; cases null
      cases c.negate <;> simp [bound, apart]

end Comparison

namespace Predicate

variable {schema : Schema} {later : Parameters} (e : Engine) (row : Operand → Value)

mutual

theorem eval_of_lowered : ∀ (p : Predicate) {condition : Condition},
    (∀ c ∈ p.leaves, c.IsPlainEquality schema) → p.Lowered schema later condition →
    (condition.eval e row later = .yes ↔ p.holds (·.holds schema row) = true)
  | .comparison c, _, plain, .comparison ⟨_, resolved, lowered⟩ =>
    c.eval_of_lowered e row (plain c (by simp [leaves])) resolved lowered
  | .group .and children, _, plain, .group lowered => by
    rw [Condition.eval_group, Truth.joined, holds]
    exact (eval_of_loweredAll children plain lowered).1
  | .group .or children, _, plain, .group lowered => by
    rw [Condition.eval_group, Truth.joined, holds]
    exact (eval_of_loweredAll children plain lowered).2

theorem eval_of_loweredAll : ∀ (children : List Predicate) {conditions : List Condition},
    (∀ c ∈ leavesOf children, c.IsPlainEquality schema) →
    LoweredAll schema later children conditions →
    (Truth.all (conditions.map (·.eval e row later)) = .yes ↔
      allHold (·.holds schema row) children = true) ∧
    (Truth.any (conditions.map (·.eval e row later)) = .yes ↔
      anyHolds (·.holds schema row) children = true)
  | [], _, _, .nil => by simp [Truth.all, Truth.any, allHold, anyHolds]
  | p :: rest, _, plain, .cons first others => by
    simp only [leavesOf, List.mem_append] at plain
    have head := eval_of_lowered p (fun c member => plain c (.inl member)) first
    have tail := eval_of_loweredAll rest (fun c member => plain c (.inr member)) others
    simp only [List.map_cons, Truth.all, Truth.any, Truth.and_eq_yes_iff, Truth.or_eq_yes_iff,
      allHold, anyHolds, Bool.and_eq_true, Bool.or_eq_true, head, tail.1, tail.2, and_self]

end

/-- A predicate of plain equalities compiles whatever is bound already, and its condition is true in a
database exactly when the predicate holds for the host, in every row, nulls included. -/
theorem compiled_equalities_select (schema : Schema) (p : Predicate)
    (plain : ∀ c ∈ p.leaves, c.IsPlainEquality schema) (ps : Parameters) (e : Engine)
    (row : Operand → Value) :
    ∃ condition final, p.compile schema ps = .ok condition final ∧
      (condition.eval e row final = .yes ↔ p.holds (·.holds schema row) = true) := by
  have resolved : ∀ c ∈ p.leaves, ∃ left, c.operand schema = .ok left := by
    intro c member
    obtain ⟨left, found, _⟩ := (plain c member).operand
    exact ⟨left, found⟩
  obtain ⟨condition, final, compiled⟩ := compile_of_leaves schema p resolved ps
  have lowered := compile_lowered schema p compiled (.refl final)
  exact ⟨condition, final, compiled, eval_of_lowered e row p plain lowered⟩

/-- A row without values meets "not a, and no size": an inequality with a text and an equality with null. -/
theorem compiled_equalities_select_emptyRow :
    let p := all [ne "TemplateKey" (.text "a"), any [eq "Size" .null]]
    let ps : Parameters := ⟨[("template_key", .text "b")]⟩
    (∀ c ∈ p.leaves, c.IsPlainEquality Sample.foos) ∧
      ∃ condition final, p.compile Sample.foos ps = .ok condition final ∧
        (condition.eval Sample.engine Sample.emptyRow final = .yes ↔
          p.holds (·.holds Sample.foos Sample.emptyRow) = true) := by
  intro p ps
  have plain : ∀ c ∈ p.leaves, c.IsPlainEquality Sample.foos := by
    intro c member
    simp only [p, all, any, ne, eq, compare, Predicate.not, leaves, leavesOf, List.append_nil,
      List.singleton_append, List.mem_cons, List.not_mem_nil, or_false] at member
    rcases member with rfl | rfl
    · exact ⟨rfl, rfl, by decide, .plain "TemplateKey" "template_key", rfl, rfl⟩
    · exact ⟨rfl, rfl, by decide, .plain "Size" "size", rfl, rfl⟩
  exact ⟨plain, compiled_equalities_select Sample.foos p plain ps Sample.engine Sample.emptyRow⟩

end Predicate

end EntitySql
