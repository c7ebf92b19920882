import EntitySql.Proofs.Meaning
import EntitySql.Proofs.Printing

/-! Printed conditions are read back as trees, given what their operands are read as. Conjunctions are
printed without parentheses, so the text is a chain of conjuncts in which those of inner conjunctions stand
beside those of outer ones; every other condition is a single conjunct. -/

set_option autoImplicit false

namespace EntitySql

open Grammar

theorem lexes_connective (k : Connective) :
    Lexes (Dialect.postgres.connective k) [connectiveSign k] := by
  cases k with
  | and => exact lexes_keyword .and
  | or => exact lexes_keyword .or

namespace Condition

/-- The conjuncts of a group, given those of its children. A disjunction is a single one. -/
def groupParts : Connective → List (List Expr) → List Expr
  | .and, [] => [.truth true]
  | .and, parts => parts.flatten
  | .or, parts => [chainOf .or (parts.map (chainOf .and))]

mutual

def conjuncts (read : Operand → Expr) : Condition → List Expr
  | .compare left operator negate right => [leafExpr read (.compare left operator negate right)]
  | .contains left right => [leafExpr read (.contains left right)]
  | .member left negate items => [leafExpr read (.member left negate items)]
  | .isNull term negate => [leafExpr read (.isNull term negate)]
  | .truth b => [.truth b]
  | .not c => [.not (chainOf .and (conjuncts read c))]
  | .group k children => groupParts k (conjunctsOf read children)

def conjunctsOf (read : Operand → Expr) : List Condition → List (List Expr)
  | [] => []
  | c :: rest => conjuncts read c :: conjunctsOf read rest

end

theorem conjunctsOf_eq_map (read : Operand → Expr) (children : List Condition) :
    conjunctsOf read children = children.map (conjuncts read) := by
  induction children with
  | nil => rfl
  | cons c rest ih => rw [conjunctsOf, ih, List.map_cons]

def tree (read : Operand → Expr) (c : Condition) : Expr :=
  chainOf .and (c.conjuncts read)

end Condition

/-! The tree has the truth of the condition. -/

namespace Grammar

theorem truthFrom_chainOf (atom : Expr → Truth) (k : Connective) (parts : List Expr) :
    (chainOf k parts).truthFrom atom = Truth.joined k (parts.map (·.truthFrom atom)) := by
  cases parts with
  | nil => cases k <;> rfl
  | cons first others => exact truthFrom_chained atom k first others

theorem truthFrom_flatten (atom : Expr → Truth) (k : Connective) (parts : List (List Expr)) :
    Truth.joined k (parts.flatten.map (·.truthFrom atom)) =
      Truth.joined k (parts.map fun part => Truth.joined k (part.map (·.truthFrom atom))) := by
  induction parts with
  | nil => rfl
  | cons part rest ih =>
    have apart := Truth.joined_append k [Truth.joined k (part.map (·.truthFrom atom))]
      (rest.map fun part => Truth.joined k (part.map (·.truthFrom atom)))
    rw [Truth.joined_singleton, List.singleton_append] at apart
    rw [List.flatten_cons, List.map_append, Truth.joined_append, ih, List.map_cons, apart]

end Grammar

namespace Condition

variable {read : Operand → Expr}

theorem truthFrom_leafExpr (atom : Expr → Truth) (c : Condition) :
    (c.leafExpr read).truthFrom atom = atom (c.leafExpr read) := by
  cases c with
  | isNull term negate => cases term <;> rfl
  | _ => rfl

theorem truthFrom_leaf (atom : Expr → Truth) (c : Condition) :
    Truth.joined .and ([c.leafExpr read].map (·.truthFrom atom)) = atom (c.leafExpr read) := by
  rw [List.map_singleton, Truth.joined_singleton, truthFrom_leafExpr]

theorem truthFrom_groupParts (atom : Expr → Truth) (k : Connective) (parts : List (List Expr)) :
    Truth.joined .and ((groupParts k parts).map (·.truthFrom atom)) =
      Truth.joined k (parts.map fun part => Truth.joined .and (part.map (·.truthFrom atom))) := by
  cases k with
  | and =>
    cases parts with
    | nil => rfl
    | cons first rest => exact truthFrom_flatten atom .and (first :: rest)
  | or =>
    rw [groupParts, List.map_singleton, Truth.joined_singleton, truthFrom_chainOf, List.map_map]
    congr 2
    funext part
    exact truthFrom_chainOf atom .and part

mutual

theorem truthFrom_conjuncts (atom : Expr → Truth) : ∀ c : Condition,
    Truth.joined .and ((c.conjuncts read).map (·.truthFrom atom)) =
      c.truthFrom fun leaf => atom (leaf.leafExpr read)
  | .compare left operator negate right => by
    rw [conjuncts, truthFrom, truthFrom_leaf]
  | .contains left right => by
    rw [conjuncts, truthFrom, truthFrom_leaf]
  | .member left negate items => by
    rw [conjuncts, truthFrom, truthFrom_leaf]
  | .isNull term negate => by
    rw [conjuncts, truthFrom, truthFrom_leaf]
  | .truth b => by
    rw [conjuncts, truthFrom, List.map_singleton, Truth.joined_singleton, Expr.truthFrom]
  | .not c => by
    rw [conjuncts, truthFrom, List.map_singleton, Truth.joined_singleton, Expr.truthFrom, truthFrom_chainOf,
      truthFrom_conjuncts atom c]
  | .group k children => by
    rw [conjuncts, truthFrom, truthFrom_groupParts, truthsFrom_conjunctsOf atom children]

theorem truthsFrom_conjunctsOf (atom : Expr → Truth) : ∀ children : List Condition,
    ((conjunctsOf read children).map fun parts => Truth.joined .and (parts.map (·.truthFrom atom))) =
      truthsFrom (fun leaf => atom (leaf.leafExpr read)) children
  | [] => rfl
  | c :: rest => by
    rw [conjunctsOf, truthsFrom, List.map_cons, truthFrom_conjuncts atom c, truthsFrom_conjunctsOf atom rest]

end

/-- The text of the condition is a chain of its conjuncts. -/
def IsReadAs (read : Operand → Expr) (scope : Option String) (c : Condition) : Prop :=
  ReadsParts .and (c.text Dialect.postgres scope) (c.conjuncts read)

variable {scope : Option String}

theorem isReadAs_of_reads {c : Condition} {e : Expr}
    (reads : ∃ ts, Lexes (c.text Dialect.postgres scope) ts ∧ Reads isLevel ts e)
    (single : c.conjuncts read = [e]) : c.IsReadAs read scope := by
  obtain ⟨ts, lexed, reads⟩ := reads
  unfold IsReadAs
  rw [single]
  exact readsParts_of_reads .and lexed reads (Nat.le_succ _)

theorem readsParts_truthText (b : Bool) (k : Connective) : ReadsParts k (truthText b) [.truth b] := by
  have lexed : Lexes (truthText b) [.keyword (if b then .true else .false)] := by
    cases b with
    | false => exact lexes_keyword .false
    | true => exact lexes_keyword .true
  exact readsParts_of_reads k lexed ((primary_truth b).reads notLevel) (Nat.le_refl _)

theorem isReadAs_truth (b : Bool) : (Condition.truth b).IsReadAs read scope := by
  unfold IsReadAs
  rw [text, conjuncts]
  exact readsParts_truthText b .and

theorem IsReadAs.not {c : Condition} (inside : c.IsReadAs read scope) : (Condition.not c).IsReadAs read scope := by
  have printed : (Condition.not c).text Dialect.postgres scope =
      "NOT" ++ " " ++ ("(" ++ c.text Dialect.postgres scope ++ ")") := by
    have opening : "NOT (" = "NOT" ++ " " ++ "(" := by decide
    rw [text, opening]
    simp only [String.append_assoc]
  unfold IsReadAs
  rw [printed, conjuncts]
  exact inside.negated .and

/-- Conjuncts stand beside each other; disjuncts are put in parentheses, each of them a chain of its own. -/
theorem isReadAs_group (k : Connective) (children : List Condition)
    (each : ∀ c ∈ children, c.IsReadAs read scope) : (Condition.group k children).IsReadAs read scope := by
  unfold IsReadAs
  rw [text, texts_eq_map, conjuncts, conjunctsOf_eq_map]
  cases children with
  | nil =>
    cases k with
    | and => exact readsParts_truthText true .and
    | or => exact readsParts_truthText false .and
  | cons first rest =>
    -- Only disjunctions are kept apart from what is around them.
    cases k with
    | and =>
      have joined := ReadsParts.intercalated (lexes_connective .and) (text Dialect.postgres scope)
        (conjuncts read) first rest each
      rw [List.flatMap_def] at joined
      exact joined
    | or =>
      have joined := ReadsParts.intercalated (lexes_connective .or) (text Dialect.postgres scope)
        (fun c => [chainOf .and (c.conjuncts read)]) first rest fun c member => (each c member).inside
      rw [← List.map_eq_flatMap] at joined
      rw [groupParts, List.map_map]
      exact joined.grouped .and

end Condition

def Operand.IsReadAs (scope : Option String) (level : Nat) (left : Operand) (x : Expr) : Prop :=
  ∃ ts, lex (left.text Dialect.postgres scope) = some ts ∧ ReadsIn isLevel level ts x

theorem Operand.IsReadAs.demanded {scope : Option String} {left : Operand} {x : Expr}
    (operand : left.IsReadAs scope (memberLevel + 1) x) (kind : Follower) :
    left.IsReadAs scope kind.demand x := by
  obtain ⟨ts, lexed, reads⟩ := operand
  exact ⟨ts, lexed, reads.mono kind.demand_le kind.isLevel_le_demand⟩

namespace Condition

variable {scope : Option String} {read : Operand → Expr} {left : Operand}

theorem IsLeaf.isReadAs {kind : Follower} {c : Condition} (leaf : c.IsLeaf scope left kind)
    (single : c.conjuncts read = [c.leafExpr fun _ => read left])
    (operand : left.IsReadAs scope kind.demand (read left)) : c.IsReadAs read scope := by
  obtain ⟨ts, lexed, reads⟩ := operand
  exact isReadAs_of_reads (leaf.reads lexed reads) single

theorem operand?_nullSafe (left : Operand) (right : Reference) (negate : Bool) :
    (nullSafe left right negate).operand? = none := by
  cases negate <;> rfl

theorem conjuncts_of_operand? {c : Condition} (single : c.operand? = some left) :
    c.conjuncts read = [c.leafExpr fun _ => read left] := by
  cases c with
  | isNull term negate =>
    cases term with
    | operand o =>
      cases single
      rw [conjuncts]
      rfl
    | reference r => cases single
  | compare | contains | member =>
    cases single
    rw [conjuncts]
    rfl
  | truth | not | group => cases single

theorem isReadAs_isNull (operand : left.IsReadAs scope isLevel (read left)) (negate : Bool) :
    (isNull (.operand left) negate).IsReadAs read scope :=
  (isLeaf_isNull left negate).isReadAs (by rw [conjuncts]; rfl) operand

section

variable (column : left.mapping.column ≠ "") (operand : left.IsReadAs scope (memberLevel + 1) (read left))

include column operand

theorem isReadAs_compare {operator : Operator} (single : operator ≠ .member) (negate : Bool)
    {right : Reference} (named : ∀ name ∈ right.names, left.Names name) :
    (compare left operator negate right).IsReadAs read scope := by
  obtain ⟨kind, _, leaf⟩ := isLeaf_compare column single negate named
  exact leaf.isReadAs (by rw [conjuncts]; rfl) (operand.demanded kind)

theorem isReadAs_contains {right : Reference} (named : ∀ name ∈ right.names, left.Names name) :
    (contains left right).IsReadAs read scope :=
  (isLeaf_contains column named).isReadAs (by rw [conjuncts]; rfl) operand

theorem isReadAs_nullSafe {right : Reference} (named : ∀ name ∈ right.names, left.Names name)
    (negate : Bool) : (nullSafe left right negate).IsReadAs read scope := by
  have compared (negate : Bool) : (compare left .eq negate right).IsReadAs read scope :=
    isReadAs_compare column operand (by decide) negate named
  have reference (negate : Bool) : (isNull (.reference right) negate).IsReadAs read scope := by
    obtain ⟨ts, lexed, primary⟩ := Reference.primary column named
    exact isReadAs_of_reads (isNull_reference_reads lexed primary negate) (by rw [conjuncts]; rfl)
  have tested (negate : Bool) := isReadAs_isNull (operand.demanded .test) negate
  have nulls (leftNull rightNull : Bool) :
      (group .and [isNull (.operand left) leftNull, isNull (.reference right) rightNull]).IsReadAs
        read scope :=
    isReadAs_group .and _
      (List.forall_mem_cons.2 ⟨tested leftNull, List.forall_mem_singleton.2 (reference rightNull)⟩)
  -- Plain, the equality is an alternative of two; negated, of three.
  cases negate with
  | false =>
    have both := List.forall_mem_cons.2 ⟨compared false, List.forall_mem_singleton.2 (nulls false false)⟩
    exact isReadAs_group .or _ both
  | true =>
    have either := List.forall_mem_cons.2 ⟨nulls false true, List.forall_mem_singleton.2 (nulls true false)⟩
    exact isReadAs_group .or _ (List.forall_mem_cons.2 ⟨compared true, either⟩)

end

end Condition

namespace Comparison

variable {scope : Option String} {read : Operand → Expr} {c : Comparison} {left : Operand}
  {later : Parameters}

def follower (c : Comparison) : Follower :=
  if c.operator = .eq ∧ c.value.isNull then .test else .tight

theorem follower_of_operator (other : c.operator ≠ .eq) : c.follower = .tight :=
  if_neg fun test => other test.1

theorem follower_of_value (notNull : c.value.isNull = false) : c.follower = .tight :=
  if_neg fun test => by simp [notNull] at test

/-- Membership in the empty list is a constant, without the operand. -/
def IsConstant (c : Comparison) : Prop :=
  c.operator = .member ∧ c.value = .array []

theorem operand?_withNull (c : Comparison) (left : Operand) : (c.withNull left).operand? = some left := by
  unfold withNull
  cases c.operator <;> rfl

theorem relation_cases (c : Comparison) (left : Operand) (r : Reference) :
    c.relation left r = .contains left r ∨ c.relation left r = .not (.contains left r) ∨
      c.relation left r = .nullSafe left r c.negate ∨
      c.relation left r = .compare left c.operator c.negate r := by
  unfold relation containment
  split
  · cases c.negate with
    | false => exact .inl rfl
    | true => exact .inr (.inl rfl)
  · split
    · exact .inr (.inr (.inl rfl))
    · exact .inr (.inr (.inr rfl))

theorem isLeaf_member (column : left.mapping.column ≠ "") (negate : Bool) {references : List Reference}
    {items : List Value} (nonempty : items ≠ [])
    (denote : List.Forall₂ (Reference.Denotes later left) references items) :
    (Condition.member left negate references).IsLeaf scope left .tight := by
  have named := Reference.named_of_denotes denote
  cases denote with
  | nil => exact absurd rfl nonempty
  | @cons r v rs vs first rest => exact Condition.isLeaf_member column negate r rs named

section

variable (column : left.mapping.column ≠ "")

include column

theorem isLeaf_compare {operator : Operator} (apart : operator ≠ .member) (tight : c.follower = .tight)
    {r : Reference} (named : ∀ name ∈ r.names, left.Names name) :
    ∃ kind, kind.demand = c.follower.demand ∧
      (Condition.compare left operator c.negate r).IsLeaf scope left kind := by
  obtain ⟨kind, notTest, leaf⟩ := Condition.isLeaf_compare column apart c.negate named
  refine ⟨kind, ?_, leaf⟩
  rw [tight, Follower.demand_of_ne_test notTest]
  rfl

theorem isLeaf_withNull (null : c.value.isNull = true) :
    ∃ kind, kind.demand = c.follower.demand ∧ (c.withNull left).IsLeaf scope left kind := by
  have none : ∀ name ∈ Reference.null.names, left.Names name := fun _ own => nomatch own
  unfold withNull
  cases operator : c.operator with
  | eq =>
    have follows : c.follower = .test := if_pos ⟨operator, null⟩
    exact ⟨.test, by rw [follows], Condition.isLeaf_isNull left c.negate⟩
  | member =>
    refine ⟨.tight, by rw [follower_of_operator (by simp [operator])], ?_⟩
    exact Condition.isLeaf_member column c.negate .null [] (List.forall_mem_singleton.2 none)
  | like | gt | ge | lt | le =>
    exact isLeaf_compare column (by decide) (follower_of_operator (by simp [operator])) none

theorem isLeaf_of_lowered {condition : Condition} (lowered : c.Lowered left later condition)
    (single : condition.operand? = some left) :
    ¬c.IsConstant ∧ ∃ kind, kind.demand = c.follower.demand ∧ condition.IsLeaf scope left kind := by
  cases lowered with
  | withNull null tested =>
    rw [testsNull_iff.1 tested]
    exact ⟨fun constant => by simp [constant.2, Value.isNull] at null, isLeaf_withNull column null⟩
  | noItems => cases single
  | items operator listed denote =>
    refine ⟨fun constant => by simp [constant.2] at listed, .tight, ?_, isLeaf_member column c.negate (by simp) denote⟩
    rw [follower_of_operator (by simp [operator])]
  | item _ notNull scalar denotes =>
    refine ⟨fun constant => scalar (by rw [constant.2]; rfl), .tight, ?_,
      isLeaf_member column c.negate (by simp) (.cons denotes .nil)⟩
    rw [follower_of_value notNull]
  | @relation r condition operator notNull denotes related =>
    obtain rfl := relates_iff.1 related
    have tight := follower_of_value notNull
    refine ⟨fun constant => operator constant.1, ?_⟩
    rcases c.relation_cases left r with same | same | same | same
    · rw [same]
      exact ⟨.tight, by rw [tight], Condition.isLeaf_contains column denotes.named⟩
    · rw [same] at single
      cases single
    · rw [same, Condition.operand?_nullSafe] at single
      cases single
    · rw [same]
      exact isLeaf_compare column operator tight denotes.named

end

theorem isReadAs_of_lowered {condition : Condition} (column : left.mapping.column ≠ "")
    (operand : c.IsConstant ∨ left.IsReadAs scope c.follower.demand (read left))
    (lowered : c.Lowered left later condition) : condition.IsReadAs read scope := by
  by_cases single : condition.operand? = some left
  · obtain ⟨filled, kind, demand, leaf⟩ := isLeaf_of_lowered column lowered single
    have given := operand.resolve_left filled
    rw [← demand] at given
    exact leaf.isReadAs (Condition.conjuncts_of_operand? single) given
  · -- What is left are constants, negated containments and null-safe equalities.
    cases lowered with
    | withNull null tested =>
      rw [testsNull_iff.1 tested] at single
      exact absurd (c.operand?_withNull left) single
    | noItems => exact Condition.isReadAs_truth c.negate
    | items => exact absurd rfl single
    | item => exact absurd rfl single
    | @relation r condition operator notNull denotes related =>
      obtain rfl := relates_iff.1 related
      have given := operand.resolve_left fun constant => operator constant.1
      rw [follower_of_value notNull] at given
      rcases c.relation_cases left r with same | same | same | same
      · rw [same] at single
        exact absurd rfl single
      · rw [same]
        exact (Condition.isReadAs_contains column given denotes.named).not
      · rw [same]
        exact Condition.isReadAs_nullSafe column given denotes.named c.negate
      · rw [same] at single
        exact absurd rfl single

end Comparison

/-- What the comparison is printed as takes its operand whole, if it is printed with it. -/
def Comparison.ReadsOperand (scope : Option String) (read : Operand → Expr) (schema : Schema) (c : Comparison) :
    Prop :=
  ∀ left, c.operand schema = .ok left →
    left.mapping.column ≠ "" ∧ (c.IsConstant ∨ left.IsReadAs scope c.follower.demand (read left))

theorem Predicate.isReadAs_of_lowered {schema : Schema} {scope : Option String} {read : Operand → Expr}
    {later : Parameters} {p : Predicate} {condition : Condition}
    (operands : ∀ c ∈ p.leaves, c.ReadsOperand scope read schema)
    (lowered : p.Lowered schema later condition) : condition.IsReadAs read scope := by
  refine lowered.induct (fun given lowered => ?_) (fun k conditions each => ?_) operands
  · obtain ⟨left, resolved, single⟩ := lowered
    exact Comparison.isReadAs_of_lowered (given _ resolved).1 (given _ resolved).2 single
  · exact Condition.isReadAs_group k conditions each

end EntitySql
