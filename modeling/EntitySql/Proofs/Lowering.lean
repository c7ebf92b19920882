import Mathlib.Data.List.Forall2
import EntitySql.Proofs.Binding
import EntitySql.Proofs.Stored

/-! What compiling a predicate comes to. The condition has the shape of the predicate, and the references
in it stand for the values of the comparisons they come from: in the parameters that the compilation
leaves, and in all that come from these by further binding. -/

set_option autoImplicit false

namespace EntitySql

theorem Schema.get?_of_resolve (s : Schema) {property : String} {m : Mapping}
    (resolved : s.resolve property = .ok m) : s.columns.get? property = some m := by
  unfold resolve at resolved
  split at resolved
  · rename_i found
    cases resolved
    exact found
  · cases resolved

/-- The names under which values are bound for the operand's sake: its own, numbered for the items of a
list, and numbered again where that is taken. -/
def Operand.Names (left : Operand) (name : String) : Prop :=
  ∃ base k, (base = left.parameterName ∨ ∃ i : Nat, base = left.parameterName ++ "_" ++ toString i) ∧
    name = Parameters.candidate base k

/-- A null stands for null, and a parameter for what the value is bound as beside the operand. -/
def Reference.Denotes (ps : Parameters) (left : Operand) : Reference → Value → Prop
  | .null, v => v.isNull = true
  | .parameter name document, v =>
    v.isNull = false ∧ left.Names name ∧ ∃ stored, Value.BoundAs left.isDocument v stored ∧
      document = decide (stored.kind = .json) ∧ ps.Holds name stored

theorem Reference.Denotes.later {ps qs : Parameters} {left : Operand} {r : Reference} {v : Value}
    (denotes : r.Denotes ps left v) (reached : ps.Reaches qs) : r.Denotes qs left v := by
  cases r with
  | null => exact denotes
  | parameter name document =>
    obtain ⟨notNull, named, stored, bound, kind, held⟩ := denotes
    exact ⟨notNull, named, stored, bound, kind, reached.holds held⟩

def Reference.names : Reference → List String
  | .null => []
  | .parameter name _ => [name]

theorem Reference.Denotes.named {ps : Parameters} {left : Operand} {r : Reference} {v : Value}
    (denotes : r.Denotes ps left v) : ∀ name ∈ r.names, left.Names name := by
  intro name own
  cases r with
  | null => cases own
  | parameter given document =>
    obtain rfl : name = given := List.mem_singleton.1 own
    exact denotes.2.1

theorem Reference.named_of_denotes {ps : Parameters} {left : Operand} {references : List Reference}
    {items : List Value} (denote : List.Forall₂ (Denotes ps left) references items) :
    ∀ r ∈ references, ∀ name ∈ r.names, left.Names name := by
  have each := denote.imp fun r v denotes => And.intro denotes.named denotes
  exact ((List.forall₂_and_left _ _).1 each).1

namespace Comparison

inductive TestsNull (c : Comparison) (left : Operand) : Condition → Prop where
  | equality : c.operator = .eq → TestsNull c left (.isNull (.operand left) c.negate)
  | member : c.operator = .member → TestsNull c left (.member left c.negate [.null])
  | other : c.operator ≠ .eq → c.operator ≠ .member →
      TestsNull c left (.compare left c.operator c.negate .null)

inductive Relates (c : Comparison) (left : Operand) (r : Reference) : Condition → Prop where
  | contains : c.operator = .like → c.value.kind.isStructured = true → c.negate = false →
      Relates c left r (.contains left r)
  | lacks : c.operator = .like → c.value.kind.isStructured = true → c.negate = true →
      Relates c left r (.not (.contains left r))
  | same : c.operator = .eq → c.strict = false → c.negate = false →
      Relates c left r (.group .or [.compare left .eq false r,
        .group .and [.isNull (.operand left) false, .isNull (.reference r) false]])
  | different : c.operator = .eq → c.strict = false → c.negate = true →
      Relates c left r (.group .or [.compare left .eq true r,
        .group .and [.isNull (.operand left) false, .isNull (.reference r) true],
        .group .and [.isNull (.operand left) true, .isNull (.reference r) false]])
  | plain : (c.operator = .like → c.value.kind.isStructured = false) →
      (c.operator = .eq → c.strict = true) → Relates c left r (.compare left c.operator c.negate r)

inductive Lowered (c : Comparison) (left : Operand) (ps : Parameters) : Condition → Prop where
  | withNull {condition : Condition} : c.value.isNull = true → c.TestsNull left condition →
      Lowered c left ps condition
  | noItems : c.operator = .member → c.value = .array [] → Lowered c left ps (.truth c.negate)
  | items {first : Value} {rest : List Value} {references : List Reference} : c.operator = .member →
      c.value = .array (first :: rest) →
      List.Forall₂ (Reference.Denotes ps left) references (first :: rest) →
      Lowered c left ps (.member left c.negate references)
  | item {r : Reference} : c.operator = .member → c.value.isNull = false → c.value.kind ≠ .array →
      r.Denotes ps left c.value → Lowered c left ps (.member left c.negate [r])
  | relation {r : Reference} {condition : Condition} : c.operator ≠ .member → c.value.isNull = false →
      r.Denotes ps left c.value → c.Relates left r condition → Lowered c left ps condition

variable {c : Comparison} {left : Operand} {condition : Condition}

theorem testsNull_iff : c.TestsNull left condition ↔ condition = c.withNull left := by
  unfold withNull
  constructor
  · rintro (equality | member | ⟨notEq, notMember⟩)
    · rw [equality]
    · rw [member]
    · split <;> simp_all
  · rintro rfl
    split
    · exact .equality ‹_›
    · exact .member ‹_›
    · exact .other ‹_› ‹_›

theorem relates_iff {r : Reference} : c.Relates left r condition ↔ condition = c.relation left r := by
  unfold relation
  constructor
  · rintro (⟨like, structured, negate⟩ | ⟨like, structured, negate⟩ | ⟨eq, strict, negate⟩ |
      ⟨eq, strict, negate⟩ | ⟨unstructured, strict⟩)
    · simp [like, structured, negate, containment]
    · simp [like, structured, negate, containment]
    · simp [eq, strict, negate, Condition.nullSafe]
    · simp [eq, strict, negate, Condition.nullSafe]
    · rw [if_neg (by simpa using unstructured), if_neg (by simpa using strict)]
  · rintro rfl
    split
    · rename_i structured
      simp only [Bool.and_eq_true, decide_eq_true_eq] at structured
      cases negate : c.negate with
      | false => exact .contains structured.1 structured.2 negate
      | true => exact .lacks structured.1 structured.2 negate
    · rename_i unstructured
      split
      · rename_i safe
        simp only [Bool.and_eq_true, decide_eq_true_eq, Bool.not_eq_true'] at safe
        cases negate : c.negate with
        | false => exact .same safe.1 safe.2 negate
        | true => exact .different safe.1 safe.2 negate
      · rename_i strict
        exact .plain (by simpa using unstructured) (by simpa using strict)

end Comparison

namespace Operand

theorem reaches_bind (left : Operand) (name : String) (v : Value) (ps : Parameters) :
    ps.Reaches (left.bind name v ps).2 :=
  ps.reaches_assign name (left.stored v)

theorem bind_denotes (left : Operand) {base : String} {v : Value} (notNull : v.isNull = false)
    (own : base = left.parameterName ∨ ∃ i : Nat, base = left.parameterName ++ "_" ++ toString i)
    (ps : Parameters) : (left.bind base v ps).1.Denotes (left.bind base v ps).2 left v := by
  have named : left.Names (ps.assign base (left.stored v)).1 := by
    obtain ⟨k, _, chosen, _⟩ := ps.nameFor_first base (left.stored v)
    exact ⟨base, k, own, chosen⟩
  exact ⟨notNull, named, _, left.boundAs_stored v, rfl, ps.get?_assign base (left.stored v)⟩

theorem bindItems_cons (left : Operand) (i : Nat) (v : Value) (rest : List Value) (ps : Parameters) :
    ∃ first mid, ps.Reaches mid ∧ first.Denotes mid left v ∧
      left.bindItems i (v :: rest) ps =
        (first :: (left.bindItems (i + 1) rest mid).1, (left.bindItems (i + 1) rest mid).2) := by
  cases null : v.isNull with
  | true => exact ⟨.null, ps, .refl ps, null, by simp [bindItems, null]⟩
  | false =>
    let name := left.parameterName ++ "_" ++ toString i
    exact ⟨(left.bind name v ps).1, (left.bind name v ps).2, left.reaches_bind name v ps,
      left.bind_denotes null (.inr ⟨i, rfl⟩) ps, by simp [bindItems, null, name]⟩

theorem reaches_bindItems (left : Operand) (i : Nat) (items : List Value) (ps : Parameters) :
    ps.Reaches (left.bindItems i items ps).2 := by
  induction items generalizing i ps with
  | nil => exact .refl ps
  | cons v rest ih =>
    obtain ⟨_, mid, reached, _, unfolded⟩ := left.bindItems_cons i v rest ps
    rw [unfolded]
    exact reached.trans (ih (i + 1) mid)

theorem bindItems_denotes (left : Operand) (i : Nat) (items : List Value) {ps later : Parameters}
    (reached : (left.bindItems i items ps).2.Reaches later) :
    List.Forall₂ (Reference.Denotes later left) (left.bindItems i items ps).1 items := by
  induction items generalizing i ps with
  | nil => exact .nil
  | cons v rest ih =>
    obtain ⟨first, mid, _, denotes, unfolded⟩ := left.bindItems_cons i v rest ps
    rw [unfolded] at reached ⊢
    -- The first reference is handed out before the others are bound.
    have step : mid.Reaches later := (left.reaches_bindItems (i + 1) rest mid).trans reached
    exact .cons (denotes.later step) (ih (i + 1) reached)

end Operand

namespace Comparison

variable (c : Comparison) (left : Operand)

theorem operand_eq {c : Comparison} {left : Operand} {schema : Schema}
    (resolved : c.operand schema = .ok left) :
    schema.resolve c.path.property = .ok left.mapping ∧ left.keys = c.path.keys ∧ left.kind = c.kind := by
  cases found : schema.resolve c.path.property with
  | error e =>
    simp only [Comparison.operand, found, Bind.bind, Except.bind] at resolved
    cases resolved
  | ok m =>
    simp only [Comparison.operand, found, Bind.bind, Except.bind] at resolved
    split at resolved
    · cases resolved
      exact ⟨rfl, rfl, rfl⟩
    · cases resolved

theorem mapping_mem {c : Comparison} {left : Operand} {schema : Schema}
    (resolved : c.operand schema = .ok left) : left.mapping ∈ schema.columns.mappings :=
  List.mem_of_find?_eq_some (schema.get?_of_resolve (operand_eq resolved).1)

/-! The three ways that a comparison may go. -/

theorem condition_null (null : c.value.isNull = true) (ps : Parameters) :
    c.condition left ps = (c.withNull left, ps) :=
  if_pos null

theorem condition_member (notNull : c.value.isNull = false) (operator : c.operator = .member)
    (ps : Parameters) : c.condition left ps = c.membership left ps := by
  rw [condition, if_neg (by simp [notNull]), if_pos operator]

theorem condition_relation (notNull : c.value.isNull = false) (operator : c.operator ≠ .member)
    (ps : Parameters) :
    c.condition left ps =
      (c.relation left (left.bind left.parameterName c.value ps).1,
        (left.bind left.parameterName c.value ps).2) := by
  rw [condition, if_neg (by simp [notNull]), if_neg operator]

theorem reaches_membership (ps : Parameters) : ps.Reaches (c.membership left ps).2 := by
  unfold membership
  split
  · exact .refl ps
  · exact left.reaches_bindItems 0 _ ps
  · exact left.reaches_bind _ _ ps

theorem reaches_condition (ps : Parameters) : ps.Reaches (c.condition left ps).2 := by
  cases null : c.value.isNull with
  | true =>
    rw [c.condition_null left null]
    exact .refl ps
  | false =>
    by_cases operator : c.operator = .member
    · rw [c.condition_member left null operator]
      exact c.reaches_membership left ps
    · rw [c.condition_relation left null operator]
      exact left.reaches_bind _ _ ps

theorem membership_lowered {ps later : Parameters} (operator : c.operator = .member)
    (notNull : c.value.isNull = false) (reached : (c.membership left ps).2.Reaches later) :
    c.Lowered left later (c.membership left ps).1 := by
  unfold membership at reached ⊢
  split at reached
  · rename_i empty
    exact .noItems operator empty
  · rename_i items nonempty listed
    cases items with
    | nil => exact absurd rfl nonempty
    | cons first rest => exact .items operator listed (left.bindItems_denotes 0 _ reached)
  -- A value that is no array is a list of one.
  · rename_i scalar
    have notArray : c.value.kind ≠ .array := by
      intro array
      cases given : c.value with
      | array items => exact scalar items given
      | _ => simp [given, Value.kind] at array
    exact .item operator notNull notArray ((left.bind_denotes notNull (.inl rfl) ps).later reached)

/-- All that a comparison may become, whatever is bound before it and after it. -/
theorem condition_lowered {ps later : Parameters} (reached : (c.condition left ps).2.Reaches later) :
    c.Lowered left later (c.condition left ps).1 := by
  -- Nulls come first, then lists, and what remains is a relation to one value.
  cases null : c.value.isNull with
  | true =>
    rw [c.condition_null left null]
    exact .withNull null (testsNull_iff.2 rfl)
  | false =>
    by_cases operator : c.operator = .member
    · rw [c.condition_member left null operator] at reached ⊢
      exact c.membership_lowered left operator null reached
    · rw [c.condition_relation left null operator] at reached ⊢
      exact .relation operator null ((left.bind_denotes null (.inl rfl) ps).later reached)
        (relates_iff.2 rfl)

theorem compile_of_operand {schema : Schema} (resolved : c.operand schema = .ok left)
    (ps : Parameters) :
    c.compile schema ps = .ok (c.condition left ps).1 (c.condition left ps).2 := by
  have operand : Binding.ofExcept (c.operand schema) ps = .ok left ps := by rw [resolved]; rfl
  exact Binding.bind_of_ok operand _

theorem compile_of_unresolved {schema : Schema} {e : Error} (failed : c.operand schema = .error e)
    (ps : Parameters) : c.compile schema ps = .error e ps := by
  have operand : Binding.ofExcept (c.operand schema) ps = .error e ps := by rw [failed]; rfl
  exact Binding.bind_of_error operand _

theorem compile_eq_ok_iff {c : Comparison} {schema : Schema} {ps final : Parameters}
    {condition : Condition} : c.compile schema ps = .ok condition final ↔
      ∃ left, c.operand schema = .ok left ∧ condition = (c.condition left ps).1 ∧
        final = (c.condition left ps).2 := by
  constructor
  · intro compiled
    cases resolved : c.operand schema with
    | error e =>
      rw [c.compile_of_unresolved resolved] at compiled
      cases compiled
    | ok left =>
      rw [c.compile_of_operand left resolved] at compiled
      cases compiled
      exact ⟨left, rfl, rfl, rfl⟩
  · rintro ⟨left, resolved, rfl, rfl⟩
    exact c.compile_of_operand left resolved ps

theorem binds_compile (schema : Schema) : Binding.Binds (c.compile schema) :=
  .bind (.ofExcept _) fun left => .ofState fun ps => c.reaches_condition left ps

end Comparison

namespace Predicate

mutual

def leaves : Predicate → List Comparison
  | .comparison c => [c]
  | .group _ children => leavesOf children

def leavesOf : List Predicate → List Comparison
  | [] => []
  | p :: rest => leaves p ++ leavesOf rest

end

mutual

/-- The condition has the shape of the predicate, and something relates each comparison to what stands in
its place. -/
inductive LeafByLeaf (related : Comparison → Condition → Prop) : Predicate → Condition → Prop where
  | comparison {c : Comparison} {condition : Condition} : related c condition →
      LeafByLeaf related (.comparison c) condition
  | group {k : Connective} {children : List Predicate} {conditions : List Condition} :
      LeafByLeafAll related children conditions →
      LeafByLeaf related (.group k children) (.group k conditions)

inductive LeafByLeafAll (related : Comparison → Condition → Prop) :
    List Predicate → List Condition → Prop where
  | nil : LeafByLeafAll related [] []
  | cons {p : Predicate} {rest : List Predicate} {condition : Condition} {others : List Condition} :
      LeafByLeaf related p condition → LeafByLeafAll related rest others →
      LeafByLeafAll related (p :: rest) (condition :: others)

end

section

variable {related wider : Comparison → Condition → Prop}

mutual

theorem LeafByLeaf.imp (weaker : ∀ c condition, related c condition → wider c condition) :
    ∀ {p : Predicate} {condition : Condition}, p.LeafByLeaf related condition → p.LeafByLeaf wider condition
  | .comparison _, _, .comparison single => .comparison (weaker _ _ single)
  | .group _ _, _, .group all => .group (LeafByLeafAll.imp weaker all)

theorem LeafByLeafAll.imp (weaker : ∀ c condition, related c condition → wider c condition) :
    ∀ {children : List Predicate} {conditions : List Condition},
    LeafByLeafAll related children conditions → LeafByLeafAll wider children conditions
  | [], _, .nil => .nil
  | _ :: _, _, .cons first others => .cons (LeafByLeaf.imp weaker first) (LeafByLeafAll.imp weaker others)

end

mutual

/-- What holds of the conditions that comparisons become, and of a group when it holds of the children,
holds of every condition that a predicate may become. Of the comparisons something may be given. -/
theorem LeafByLeaf.induct {given : Comparison → Prop} {motive : Condition → Prop}
    (comparison : ∀ {c : Comparison} {condition : Condition}, given c → related c condition →
      motive condition)
    (group : ∀ (k : Connective) (conditions : List Condition),
      (∀ c ∈ conditions, motive c) → motive (.group k conditions)) :
    ∀ {p : Predicate} {condition : Condition}, p.LeafByLeaf related condition →
    (∀ c ∈ p.leaves, given c) → motive condition
  | .comparison c, _, .comparison single, each => comparison (each c (List.mem_singleton.2 rfl)) single
  | .group k _, _, .group all, each => group k _ (LeafByLeafAll.induct comparison group all each)

theorem LeafByLeafAll.induct {given : Comparison → Prop} {motive : Condition → Prop}
    (comparison : ∀ {c : Comparison} {condition : Condition}, given c → related c condition →
      motive condition)
    (group : ∀ (k : Connective) (conditions : List Condition),
      (∀ c ∈ conditions, motive c) → motive (.group k conditions)) :
    ∀ {children : List Predicate} {conditions : List Condition},
    LeafByLeafAll related children conditions → (∀ c ∈ leavesOf children, given c) →
    ∀ c ∈ conditions, motive c
  | [], _, .nil, _ => fun _ inside => absurd inside List.not_mem_nil
  | _ :: _, _, .cons first others, each =>
    List.forall_mem_cons.2
      ⟨LeafByLeaf.induct comparison group first fun c member => each c (List.mem_append_left _ member),
        LeafByLeafAll.induct comparison group others fun c member =>
          each c (List.mem_append_right _ member)⟩

end

end

def Lowered (schema : Schema) (ps : Parameters) : Predicate → Condition → Prop :=
  LeafByLeaf fun c condition => ∃ left, c.operand schema = .ok left ∧ c.Lowered left ps condition

def LoweredAll (schema : Schema) (ps : Parameters) : List Predicate → List Condition → Prop :=
  LeafByLeafAll fun c condition => ∃ left, c.operand schema = .ok left ∧ c.Lowered left ps condition

mutual

theorem binds_compile (schema : Schema) : ∀ p : Predicate, Binding.Binds (p.compile schema)
  | .comparison c => c.binds_compile schema
  | .group _ children => .bind (binds_compileAll schema children) fun _ => .pure _

theorem binds_compileAll (schema : Schema) :
    ∀ children : List Predicate, Binding.Binds (compileAll schema children)
  | [] => .pure _
  | p :: rest =>
    .bind (binds_compile schema p) fun _ => .bind (binds_compileAll schema rest) fun _ => .pure _

end

theorem compile_group (schema : Schema) (k : Connective) (children : List Predicate)
    (ps : Parameters) :
    compile schema (.group k children) ps =
      match compileAll schema children ps with
      | .ok conditions final => .ok (.group k conditions) final
      | .error e final => .error e final := by
  cases ran : compileAll schema children ps with
  | ok conditions final => exact Binding.bind_of_ok ran _
  | error e final => exact Binding.bind_of_error ran _

theorem compileAll_cons (schema : Schema) (p : Predicate) (rest : List Predicate) (ps : Parameters) :
    compileAll schema (p :: rest) ps =
      match p.compile schema ps with
      | .ok first mid =>
        match compileAll schema rest mid with
        | .ok others final => .ok (first :: others) final
        | .error e final => .error e final
      | .error e final => .error e final := by
  cases ran : p.compile schema ps with
  | error e final => exact Binding.bind_of_error ran _
  | ok first mid =>
    refine (Binding.bind_of_ok ran _).trans ?_
    dsimp only
    cases others : compileAll schema rest mid with
    | ok conditions final => exact Binding.bind_of_ok others _
    | error e final => exact Binding.bind_of_error others _

theorem compile_group_eq_ok_iff {schema : Schema} {k : Connective} {children : List Predicate}
    {ps final : Parameters} {condition : Condition} :
    compile schema (.group k children) ps = .ok condition final ↔
      ∃ conditions, compileAll schema children ps = .ok conditions final ∧
        condition = .group k conditions := by
  rw [compile_group]
  constructor
  · intro compiled
    split at compiled
    · rename_i conditions last all
      cases compiled
      exact ⟨conditions, all, rfl⟩
    · cases compiled
  · rintro ⟨conditions, all, rfl⟩
    rw [all]

theorem compileAll_cons_eq_ok_iff {schema : Schema} {p : Predicate} {rest : List Predicate}
    {ps final : Parameters} {conditions : List Condition} :
    compileAll schema (p :: rest) ps = .ok conditions final ↔
      ∃ first mid others, p.compile schema ps = .ok first mid ∧
        compileAll schema rest mid = .ok others final ∧ conditions = first :: others := by
  rw [compileAll_cons]
  constructor
  · intro compiled
    split at compiled
    · rename_i first mid one
      split at compiled
      · rename_i others last all
        cases compiled
        exact ⟨first, mid, others, one, all, rfl⟩
      · cases compiled
    · cases compiled
  · rintro ⟨first, mid, others, one, all, rfl⟩
    rw [one]
    dsimp only
    rw [all]

theorem reaches_of_compileAll {schema : Schema} {children : List Predicate} {ps final : Parameters}
    {conditions : List Condition} (compiled : compileAll schema children ps = .ok conditions final) :
    ps.Reaches final := by
  rw [← Binding.left_of_ok compiled]
  exact binds_compileAll schema children ps

mutual

theorem compile_lowered (schema : Schema) {later : Parameters} : ∀ (p : Predicate) {ps final : Parameters}
    {condition : Condition}, p.compile schema ps = .ok condition final → final.Reaches later →
    p.Lowered schema later condition
  | .comparison c, ps, final, condition, ran, reached => by
    obtain ⟨left, resolved, rfl, rfl⟩ := Comparison.compile_eq_ok_iff.1 ran
    exact .comparison ⟨left, resolved, c.condition_lowered left reached⟩
  | .group k children, ps, final, condition, ran, reached => by
    obtain ⟨conditions, compiled, rfl⟩ := compile_group_eq_ok_iff.1 ran
    exact .group (compileAll_lowered schema children compiled reached)

theorem compileAll_lowered (schema : Schema) {later : Parameters} : ∀ (children : List Predicate)
    {ps final : Parameters} {conditions : List Condition},
    compileAll schema children ps = .ok conditions final → final.Reaches later →
    LoweredAll schema later children conditions
  | [], ps, final, conditions, ran, reached => by
    cases ran
    exact .nil
  | p :: rest, ps, final, conditions, ran, reached => by
    obtain ⟨first, mid, others, compiled, compiledRest, rfl⟩ := compileAll_cons_eq_ok_iff.1 ran
    -- What the first child bound is still bound after the others.
    have onward := (reaches_of_compileAll compiledRest).trans reached
    exact .cons (compile_lowered schema p compiled onward)
      (compileAll_lowered schema rest compiledRest reached)

end

mutual

theorem compile_of_leaves (schema : Schema) : ∀ (p : Predicate),
    (∀ c ∈ p.leaves, ∃ left, c.operand schema = .ok left) → ∀ ps : Parameters,
    ∃ condition final, p.compile schema ps = .ok condition final
  | .comparison c, resolved, ps => by
    obtain ⟨left, found⟩ := resolved c (by simp [leaves])
    exact ⟨_, _, c.compile_of_operand left found ps⟩
  | .group k children, resolved, ps => by
    obtain ⟨conditions, final, compiled⟩ := compileAll_of_leaves schema children resolved ps
    exact ⟨.group k conditions, final, compile_group_eq_ok_iff.2 ⟨conditions, compiled, rfl⟩⟩

theorem compileAll_of_leaves (schema : Schema) : ∀ (children : List Predicate),
    (∀ c ∈ leavesOf children, ∃ left, c.operand schema = .ok left) → ∀ ps : Parameters,
    ∃ conditions final, compileAll schema children ps = .ok conditions final
  | [], _, ps => ⟨[], ps, rfl⟩
  | p :: rest, resolved, ps => by
    simp only [leavesOf, List.mem_append] at resolved
    obtain ⟨first, mid, compiled⟩ := compile_of_leaves schema p (fun c member => resolved c (.inl member)) ps
    obtain ⟨others, final, compiledRest⟩ :=
      compileAll_of_leaves schema rest (fun c member => resolved c (.inr member)) mid
    exact ⟨first :: others, final,
      compileAll_cons_eq_ok_iff.2 ⟨first, mid, others, compiled, compiledRest, rfl⟩⟩

end

end Predicate

end EntitySql
