import EntitySql.Proofs.Meaning
import EntitySql.Proofs.Sample

/-! Negation. It is pushed down to the comparisons of a predicate, and each of them is negated in its own
way: by another spelling, another test, another constant, or a negation in the text. What comes of it is
the complement, as far as nulls allow one. -/

set_option autoImplicit false

namespace EntitySql

namespace Engine

variable (e : Engine)

theorem relation?_comparison (operator : Operator) (single : operator ≠ .member) :
    ∃ relation, e.relation? (Dialect.postgres.comparison operator false) = some relation ∧
      e.relation? (Dialect.postgres.comparison operator true) = some fun v w => !relation v w := by
  have above (v w : Value) : e.atMost v w = !(e.atMost w v && !e.atMost v w) := by
    rw [← e.not_atMost v w, Bool.not_not]
  cases operator with
  | eq => exact ⟨_, rfl, rfl⟩
  | like => exact ⟨_, rfl, rfl⟩
  | gt => exact ⟨_, rfl, congrArg some (funext₂ above)⟩
  | ge => exact ⟨_, rfl, congrArg some (funext₂ fun v w => (e.not_atMost w v).symm)⟩
  | lt => exact ⟨_, rfl, congrArg some (funext₂ fun v w => above w v)⟩
  | le => exact ⟨_, rfl, congrArg some (funext₂ fun v w => (e.not_atMost v w).symm)⟩
  | member => exact absurd rfl single

theorem compare_negated (operator : Operator) (single : operator ≠ .member) (negate : Bool)
    (v w : Value) :
    e.compare (Dialect.postgres.comparison operator !negate) v w =
      (e.compare (Dialect.postgres.comparison operator negate) v w).not := by
  obtain ⟨relation, plain, negated⟩ := e.relation?_comparison operator single
  cases null : v.isNull || w.isNull with
  | true => simp [compare, null, Truth.not]
  | false => cases negate <;> simp [compare, null, plain, negated, Truth.not_ofBool]

theorem member_negated (negate : Bool) (v : Value) (items : List Value) :
    e.member (Dialect.postgres.comparison .member !negate) v items =
      (e.member (Dialect.postgres.comparison .member negate) v items).not := by
  cases negate with
  | false => rfl
  | true => exact (Truth.not_not _).symm

end Engine

namespace Comparison

def opposite (c : Comparison) : Comparison :=
  { c with negate := !c.negate }

def isNullSafe (c : Comparison) : Bool :=
  c.operator = .eq && !c.strict && !c.value.isNull

variable (c : Comparison) (left : Operand)

theorem parameters_opposite (ps : Parameters) :
    (c.opposite.condition left ps).2 = (c.condition left ps).2 := by
  cases null : c.value.isNull with
  | true => rw [c.condition_null left null, c.opposite.condition_null left null]
  | false =>
    by_cases operator : c.operator = .member
    · rw [c.condition_member left null operator, c.opposite.condition_member left null operator]
      simp only [membership, opposite]
      split <;> rfl
    · rw [c.condition_relation left null operator, c.opposite.condition_relation left null operator]
      rfl

section

variable (e : Engine) (row : Operand → Value) {ps later : Parameters}

theorem eval_withNull_opposite :
    (c.opposite.withNull left).eval e row later = ((c.withNull left).eval e row later).not := by
  have equality (negate : Bool) : (Condition.isNull (.operand left) !negate).eval e row later =
      ((Condition.isNull (.operand left) negate).eval e row later).not := by
    rw [Condition.eval_isNull, Condition.eval_isNull, Truth.not_ofBool]
    cases negate <;> simp
  have membership (negate : Bool) : (Condition.member left (!negate) [.null]).eval e row later =
      ((Condition.member left negate [.null]).eval e row later).not := by
    rw [Condition.eval_member, Condition.eval_member]
    exact e.member_negated negate _ _
  have other (operator : Operator) (single : operator ≠ .member) (negate : Bool) :
      (Condition.compare left operator (!negate) .null).eval e row later =
        ((Condition.compare left operator negate .null).eval e row later).not := by
    rw [Condition.eval_compare, Condition.eval_compare]
    exact e.compare_negated operator single negate _ _
  -- A test is exact, and the others are unknown, which is its own negation.
  unfold withNull opposite
  cases operator : c.operator with
  | eq => exact equality c.negate
  | member => exact membership c.negate
  | like | gt | ge | lt | le => exact other _ (by simp) c.negate

theorem eval_membership_opposite :
    (c.opposite.membership left ps).1.eval e row later =
      ((c.membership left ps).1.eval e row later).not := by
  simp only [membership, opposite]
  split
  · rw [Condition.eval_truth, Condition.eval_truth, Truth.not_ofBool]
  · rw [Condition.eval_member, Condition.eval_member]
    exact e.member_negated c.negate _ _
  · rw [Condition.eval_member, Condition.eval_member]
    exact e.member_negated c.negate _ _

theorem eval_containment_negated (r : Reference) (negate : Bool) :
    (containment left r !negate).eval e row later = ((containment left r negate).eval e row later).not := by
  cases negate <;> simp [containment, Condition.eval_not]

theorem eval_relation_opposite (r : Reference) (operator : c.operator ≠ .member)
    (plain : ¬(c.operator = .eq ∧ c.strict = false)) :
    (c.opposite.relation left r).eval e row later = ((c.relation left r).eval e row later).not := by
  by_cases structured : (decide (c.operator = .like) && c.value.kind.isStructured) = true
  · have contained (d : Comparison) (alike : d.operator = c.operator) (same : d.value = c.value) :
        d.relation left r = containment left r d.negate := by
      rw [relation, alike, same, if_pos structured]
    rw [contained c rfl rfl, contained c.opposite rfl rfl]
    exact eval_containment_negated left e row r c.negate
  · have compared (d : Comparison) (alike : d.operator = c.operator) (same : d.value = c.value)
        (strict : d.strict = c.strict) : d.relation left r = .compare left c.operator d.negate r := by
      rw [relation, alike, same, strict, if_neg structured, if_neg (by simpa using plain)]
    rw [compared c rfl rfl rfl, compared c.opposite rfl rfl rfl, Condition.eval_compare,
      Condition.eval_compare]
    exact e.compare_negated c.operator operator c.negate _ _

/-- Unless nulls are taken into account, the opposite of a comparison is its negation. -/
theorem eval_opposite (plain : c.isNullSafe = false) :
    (c.opposite.condition left ps).1.eval e row later =
      ((c.condition left ps).1.eval e row later).not := by
  cases null : c.value.isNull with
  | true =>
    rw [c.condition_null left null, c.opposite.condition_null left null]
    exact c.eval_withNull_opposite left e row
  | false =>
    by_cases operator : c.operator = .member
    · rw [c.condition_member left null operator, c.opposite.condition_member left null operator]
      exact c.eval_membership_opposite left e row
    · rw [c.condition_relation left null operator, c.opposite.condition_relation left null operator]
      refine c.eval_relation_opposite left e row _ operator ?_
      simpa [isNullSafe, null] using plain

theorem condition_nullSafe (safe : c.isNullSafe = true)
    (reached : (c.condition left ps).2.Reaches later) :
    ∃ r, r.Denotes later left c.value ∧ (c.condition left ps).1 = .nullSafe left r c.negate ∧
      (c.opposite.condition left ps).1 = .nullSafe left r !c.negate := by
  simp only [isNullSafe, Bool.and_eq_true, decide_eq_true_eq, Bool.not_eq_true'] at safe
  obtain ⟨⟨equality, notStrict⟩, notNull⟩ := safe
  have operator : c.operator ≠ .member := by simp [equality]
  have bound := left.bind_denotes notNull (.inl rfl) ps
  rw [c.condition_relation left notNull operator] at reached ⊢
  rw [c.opposite.condition_relation left notNull operator]
  exact ⟨_, bound.later reached, by simp [relation, equality, notStrict],
    by simp [relation, opposite, equality, notStrict]⟩

end

end Comparison

namespace Truth

/-- A relation between truth values that groups and their duals hand on from their members. -/
structure Dual (R : Truth → Truth → Prop) : Prop where
  yes_no : R .yes .no
  no_yes : R .no .yes
  and_or {t u t' u' : Truth} : R t u → R t' u' → R (t.and t') (u.or u')
  or_and {t u t' u' : Truth} : R t u → R t' u' → R (t.or t') (u.and u')

theorem Dual.joined {R : Truth → Truth → Prop} (dual : Dual R) (k : Connective) {ts us : List Truth}
    (related : List.Forall₂ R ts us) : R (joined k ts) (joined k.dual us) := by
  -- Member by member; without members a conjunction is true and its dual false.
  induction related with
  | nil =>
    cases k with
    | and => exact dual.yes_no
    | or => exact dual.no_yes
  | cons first _ ih =>
    cases k with
    | and => exact dual.and_or first ih
    | or => exact dual.or_and first ih

/-- What is false on one side is true on the other, and nothing is true on both. A truth may stand beside
something unknown. -/
structure Complement (t u : Truth) : Prop where
  excluded : t = .no → u = .yes
  included : u = .no → t = .yes
  disjoint : ¬(t = .yes ∧ u = .yes)

theorem dual_complement : Dual Complement where
  yes_no := by constructor <;> decide
  no_yes := by constructor <;> decide
  and_or {t u t' u'} first second := by
    constructor
    · rw [and_eq_no_iff, or_eq_yes_iff]
      exact Or.imp first.excluded second.excluded
    · rw [and_eq_yes_iff, or_eq_no_iff]
      exact And.imp first.included second.included
    · rw [and_eq_yes_iff, or_eq_yes_iff]
      rintro ⟨⟨left, right⟩, yes | yes⟩
      · exact first.disjoint ⟨left, yes⟩
      · exact second.disjoint ⟨right, yes⟩
  or_and {t u t' u'} first second := by
    constructor
    · rw [or_eq_no_iff, and_eq_yes_iff]
      exact And.imp first.excluded second.excluded
    · rw [or_eq_yes_iff, and_eq_no_iff]
      exact Or.imp first.included second.included
    · rw [or_eq_yes_iff, and_eq_yes_iff]
      rintro ⟨yes | yes, left, right⟩
      · exact first.disjoint ⟨yes, left⟩
      · exact second.disjoint ⟨yes, right⟩

theorem dual_no_of_yes : Dual fun t u => t = .yes → u = .no where
  yes_no := fun _ => rfl
  no_yes := by decide
  and_or first second := by
    rw [and_eq_yes_iff, or_eq_no_iff]
    exact And.imp first second
  or_and first second := by
    rw [or_eq_yes_iff, and_eq_no_iff]
    exact Or.imp first second

theorem dual_not : Dual fun t u => u = t.not where
  yes_no := rfl
  no_yes := rfl
  and_or first second := by rw [first, second, not_and]
  or_and first second := by rw [first, second, not_or]

end Truth

namespace Predicate

mutual

inductive Opposed (schema : Schema) (later : Parameters) : Predicate → Condition → Condition → Prop where
  | comparison {c : Comparison} {left : Operand} {ps : Parameters} :
      c.operand schema = .ok left → (c.condition left ps).2.Reaches later →
      Opposed schema later (.comparison c) (c.condition left ps).1 (c.opposite.condition left ps).1
  | group {k : Connective} {children : List Predicate} {conditions negated : List Condition} :
      OpposedAll schema later children conditions negated →
      Opposed schema later (.group k children) (.group k conditions) (.group k.dual negated)

inductive OpposedAll (schema : Schema) (later : Parameters) :
    List Predicate → List Condition → List Condition → Prop where
  | nil : OpposedAll schema later [] [] []
  | cons {p : Predicate} {rest : List Predicate} {condition negated : Condition}
      {others negatedOthers : List Condition} : Opposed schema later p condition negated →
      OpposedAll schema later rest others negatedOthers →
      OpposedAll schema later (p :: rest) (condition :: others) (negated :: negatedOthers)

end

mutual

theorem compile_not (schema : Schema) : ∀ (p : Predicate) (ps : Parameters),
    (∃ e final, p.compile schema ps = .error e final ∧ p.not.compile schema ps = .error e final) ∨
    ∃ condition negated final, p.compile schema ps = .ok condition final ∧
      p.not.compile schema ps = .ok negated final ∧
      ∀ later, final.Reaches later → p.Opposed schema later condition negated
  | .comparison c, ps => by
    rw [not, compile, compile]
    -- The operand does not depend on the flag, so both sides fail or neither.
    cases resolved : c.operand schema with
    | error e =>
      exact .inl ⟨e, ps, c.compile_of_unresolved resolved ps, c.opposite.compile_of_unresolved resolved ps⟩
    | ok left =>
      have negated := c.opposite.compile_of_operand left resolved ps
      rw [c.parameters_opposite left ps] at negated
      exact .inr ⟨_, _, _, c.compile_of_operand left resolved ps, negated,
        fun later reached => .comparison resolved reached⟩
  | .group k children, ps => by
    rw [not, compile_group, compile_group]
    rcases compileAll_notAll schema children ps with ⟨e, final, plain, negated⟩ |
      ⟨conditions, negations, final, plain, negated, opposed⟩
    · rw [plain, negated]
      exact .inl ⟨e, final, rfl, rfl⟩
    · rw [plain, negated]
      exact .inr ⟨_, _, final, rfl, rfl, fun later reached => .group (opposed later reached)⟩

theorem compileAll_notAll (schema : Schema) : ∀ (children : List Predicate) (ps : Parameters),
    (∃ e final, compileAll schema children ps = .error e final ∧
      compileAll schema (notAll children) ps = .error e final) ∨
    ∃ conditions negations final, compileAll schema children ps = .ok conditions final ∧
      compileAll schema (notAll children) ps = .ok negations final ∧
      ∀ later, final.Reaches later → OpposedAll schema later children conditions negations
  | [], ps => .inr ⟨[], [], ps, rfl, rfl, fun _ _ => .nil⟩
  | p :: rest, ps => by
    rw [notAll, compileAll_cons, compileAll_cons]
    rcases compile_not schema p ps with ⟨e, final, plain, negated⟩ |
      ⟨condition, negation, mid, plain, negated, opposed⟩
    · rw [plain, negated]
      exact .inl ⟨e, final, rfl, rfl⟩
    · rw [plain, negated]
      dsimp only
      rcases compileAll_notAll schema rest mid with ⟨e, final, plain, negated⟩ |
        ⟨others, negations, final, plain, negated, opposedAll⟩
      · rw [plain, negated]
        exact .inl ⟨e, final, rfl, rfl⟩
      -- The first pair is read in what the rest leaves.
      · have onward : mid.Reaches final := by
          rw [← Binding.left_of_ok plain]
          exact binds_compileAll schema rest mid
        rw [plain, negated]
        exact .inr ⟨_, _, final, rfl, rfl, fun later reached =>
          .cons (opposed later (onward.trans reached)) (opposedAll later reached)⟩

end

section

variable {schema : Schema} {later : Parameters} (e : Engine) (row : Operand → Value)

def LeafRelated (schema : Schema) (later : Parameters) (e : Engine) (row : Operand → Value)
    (R : Truth → Truth → Prop) (c : Comparison) : Prop :=
  ∀ (left : Operand) (ps : Parameters), c.operand schema = .ok left →
    (c.condition left ps).2.Reaches later →
    R ((c.condition left ps).1.eval e row later) ((c.opposite.condition left ps).1.eval e row later)

variable {R : Truth → Truth → Prop}

mutual

theorem Opposed.related (dual : Truth.Dual R) : ∀ {p : Predicate} {condition negated : Condition},
    p.Opposed schema later condition negated → (∀ c ∈ p.leaves, LeafRelated schema later e row R c) →
    R (condition.eval e row later) (negated.eval e row later)
  | .comparison c, _, _, .comparison resolved reached, leaf =>
    leaf c (by simp [leaves]) _ _ resolved reached
  | .group k children, _, _, .group opposed, leaf => by
    rw [Condition.eval_group, Condition.eval_group]
    exact dual.joined k (OpposedAll.related dual opposed leaf)

theorem OpposedAll.related (dual : Truth.Dual R) : ∀ {children : List Predicate} {conditions negated : List Condition},
    OpposedAll schema later children conditions negated →
    (∀ c ∈ leavesOf children, LeafRelated schema later e row R c) →
    List.Forall₂ R (conditions.map (·.eval e row later)) (negated.map (·.eval e row later))
  | [], _, _, .nil, _ => .nil
  | p :: rest, _, _, .cons first others, leaf => by
    simp only [leavesOf, List.mem_append] at leaf
    exact .cons (Opposed.related dual first fun c member => leaf c (.inl member))
      (OpposedAll.related dual others fun c member => leaf c (.inr member))

end

end

end Predicate

namespace Comparison

variable {schema : Schema} {later : Parameters} (e : Engine) (row : Operand → Value) (c : Comparison)

theorem leaf_not (plain : c.isNullSafe = false) :
    Predicate.LeafRelated schema later e row (fun t u => u = t.not) c := by
  intro left ps _ _
  exact c.eval_opposite left e row plain

theorem leaf_complement : Predicate.LeafRelated schema later e row Truth.Complement c := by
  intro left ps _ reached
  cases safe : c.isNullSafe with
  | false =>
    rw [c.eval_opposite left e row safe]
    constructor <;> simp +contextual
  | true =>
    obtain ⟨r, _, plain, negated⟩ := c.condition_nullSafe left safe reached
    rw [plain, negated, e.eval_nullSafe, e.eval_nullSafe]
    -- Next to a null, one of the two is true and the other unknown.
    cases (row left).isNull <;> cases (r.value later).isNull <;> cases c.negate <;>
      constructor <;> simp +contextual

/-- A negated equality may only be true of a null. -/
theorem leaf_no_of_yes (known : c.isNullSafe = true → c.negate = true → ∀ left,
      c.operand schema = .ok left → (row left).isNull = false) :
    Predicate.LeafRelated schema later e row (fun t u => t = .yes → u = .no) c := by
  intro left ps resolved reached
  cases safe : c.isNullSafe with
  | false =>
    rw [c.eval_opposite left e row safe, Truth.not_eq_no_iff]
    exact id
  | true =>
    obtain ⟨r, denotes, plain, negated⟩ := c.condition_nullSafe left safe reached
    -- The placeholder is never null here, so only the column could be.
    have bound : (r.value later).isNull = false := by
      simp only [isNullSafe, Bool.and_eq_true, Bool.not_eq_true'] at safe
      rw [denotes.isNull]
      exact safe.2
    rw [plain, negated, e.eval_nullSafe, e.eval_nullSafe]
    cases negate : c.negate with
    | true => simp [known safe negate left resolved, bound]
    | false => cases (row left).isNull <;> simp [bound]

end Comparison

namespace Predicate

/-- How the truth `t` of a predicate in a row and the truth `u` of its negation stand to each other. -/
structure Complements (schema : Schema) (p : Predicate) (row : Operand → Value) (t u : Truth) : Prop where
  complement : Truth.Complement t u
  known : (∀ c ∈ p.leaves, c.isNullSafe = true → c.negate = true → ∀ left,
    c.operand schema = .ok left → (row left).isNull = false) → t = .yes → u = .no
  kleene : (∀ c ∈ p.leaves, c.isNullSafe = false) → u = t.not

/-- Negation is an involution, and a predicate and its negation fail alike or compile together. Then a row
for which one is false meets the other, and no row meets both. A row that meets the predicate may leave
the negation unknown, where a negated null-safe equality looks at a null, and only there. Without null-safe
equalities the negation is exact. -/
theorem negation_complements (schema : Schema) (p : Predicate) (ps : Parameters) :
    p.not.not = p ∧
    ((∃ e final, p.compile schema ps = .error e final ∧ p.not.compile schema ps = .error e final) ∨
      ∃ condition negated final, p.compile schema ps = .ok condition final ∧
        p.not.compile schema ps = .ok negated final ∧
        ∀ (e : Engine) (row : Operand → Value),
          Complements schema p row (condition.eval e row final) (negated.eval e row final)) := by
  refine ⟨p.not_not, ?_⟩
  rcases compile_not schema p ps with failed | ⟨condition, negated, final, plain, opposite, opposed⟩
  · exact .inl failed
  · refine .inr ⟨condition, negated, final, plain, opposite, fun e row => ?_⟩
    -- One walk over the two trees, for three relations between truths.
    have together := opposed final (.refl final)
    constructor
    · exact together.related e row Truth.dual_complement fun c _ => c.leaf_complement e row
    · intro known
      exact together.related e row Truth.dual_no_of_yes fun c member =>
        c.leaf_no_of_yes e row (known c member)
    · intro plainLeaves
      exact together.related e row Truth.dual_not fun c member =>
        c.leaf_not e row (plainLeaves c member)

/-- In a row without values "not a" is true, and its negation is not false but unknown. -/
theorem negation_unknown_of_yes :
    let p := ne "TemplateKey" (.text "a")
    ∃ condition negated final, p.compile Sample.foos ⟨[]⟩ = .ok condition final ∧
      p.not.compile Sample.foos ⟨[]⟩ = .ok negated final ∧
      condition.eval Sample.engine Sample.emptyRow final = .yes ∧
      negated.eval Sample.engine Sample.emptyRow final = .unknown := by
  exact ⟨_, _, _, rfl, rfl, by decide, by decide⟩

end Predicate

end EntitySql
