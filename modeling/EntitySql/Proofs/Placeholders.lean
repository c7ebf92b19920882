import EntitySql.Proofs.Printing
import EntitySql.Proofs.References
import EntitySql.Proofs.Sample
import EntitySql.Proofs.Scanning

/-! The placeholders in the text of a compiled predicate are the names that it bound. Each value that is
bound is referred to in the condition, each reference is printed as a placeholder, and nothing else in the
text looks like one, whatever the paths hold. -/

set_option autoImplicit false

namespace EntitySql

open Grammar (isParameterChar)
open Scanning

def IsParameterName (s : String) : Prop :=
  s ≠ "" ∧ ∀ c ∈ s.toList, isParameterChar c = true

structure Mapping.IsBare (m : Mapping) : Prop where
  stored : m.computed = none
  column : IsParameterName m.column

structure Schema.IsBare (schema : Schema) : Prop where
  tableAlias : IsParameterName schema.tableAlias
  mapping : ∀ m ∈ schema.columns.mappings, m.IsBare

def Term.names : Term → List String
  | .operand _ => []
  | .reference r => r.names

def Term.operands : Term → List Operand
  | .operand o => [o]
  | .reference _ => []

namespace Condition

mutual

def names : Condition → List String
  | .compare _ _ _ right => right.names
  | .contains _ right => right.names
  | .member _ _ items => items.flatMap Reference.names
  | .isNull term _ => term.names
  | .truth _ => []
  | .not c => names c
  | .group _ children => namesOf children

def namesOf : List Condition → List String
  | [] => []
  | c :: rest => names c ++ namesOf rest

end

mutual

def operands : Condition → List Operand
  | .compare left _ _ _ => [left]
  | .contains left _ => [left]
  | .member left _ _ => [left]
  | .isNull term _ => term.operands
  | .truth _ => []
  | .not c => operands c
  | .group _ children => operandsOf children

def operandsOf : List Condition → List Operand
  | [] => []
  | c :: rest => operands c ++ operandsOf rest

end

theorem namesOf_eq_flatMap (children : List Condition) : namesOf children = children.flatMap names := by
  induction children with
  | nil => rfl
  | cons c rest ih => rw [namesOf, ih, List.flatMap_cons]

mutual

theorem names_eq_flatMap : ∀ c : Condition, c.names = c.references.flatMap Reference.names
  | .compare _ _ _ right => by simp [names, references]
  | .contains _ right => by simp [names, references]
  | .member _ _ items => by rw [names, references]
  | .isNull (.operand _) _ => rfl
  | .isNull (.reference r) _ => by simp [names, references, Term.names, Term.references]
  | .truth _ => rfl
  | .not c => by rw [names, references, names_eq_flatMap c]
  | .group _ children => by rw [names, references, namesOf_eq_references children]

theorem namesOf_eq_references : ∀ children : List Condition,
    namesOf children = (referencesOf children).flatMap Reference.names
  | [] => rfl
  | c :: rest => by
    rw [namesOf, referencesOf, List.flatMap_append, names_eq_flatMap c, namesOf_eq_references rest]

end

theorem operandsOf_eq_flatMap (children : List Condition) :
    operandsOf children = children.flatMap operands := by
  induction children with
  | nil => rfl
  | cons c rest ih => rw [operandsOf, ih, List.flatMap_cons]

/-- Nothing but the references of the condition can be taken for placeholders, and these can be. -/
structure IsBare (c : Condition) : Prop where
  operand : ∀ o ∈ c.operands, o.mapping.IsBare
  name : ∀ name ∈ c.names, IsParameterName name

theorem isBare_group {k : Connective} {children : List Condition} :
    (group k children).IsBare ↔ ∀ c ∈ children, c.IsBare := by
  have operand (o : Operand) : o ∈ (group k children).operands ↔ ∃ c ∈ children, o ∈ c.operands := by
    rw [operands, operandsOf_eq_flatMap, List.mem_flatMap]
  have named (name : String) : name ∈ (group k children).names ↔ ∃ c ∈ children, name ∈ c.names := by
    rw [names, namesOf_eq_flatMap, List.mem_flatMap]
  constructor
  · intro whole c inside
    exact ⟨fun o own => whole.operand o ((operand o).2 ⟨c, inside, own⟩),
      fun name own => whole.name name ((named name).2 ⟨c, inside, own⟩)⟩
  · intro each
    refine ⟨fun o own => ?_, fun name own => ?_⟩
    · obtain ⟨c, inside, own⟩ := (operand o).1 own
      exact (each c inside).operand o own
    · obtain ⟨c, inside, own⟩ := (named name).1 own
      exact (each c inside).name name own

end Condition

section

variable {expression type : String}

theorem Scanning.Silent.cast (silent : Silent expression) (plain : type.toList.all isQuiet = true) :
    Silent (Dialect.Postgres.cast expression type) := by
  have colons : Silent "::" := silent_of_quiet (by decide)
  unfold Dialect.Postgres.cast
  split
  · exact (silent.append colons).append (silent_of_quiet plain)
  · have opening : Silent "(" := silent_of_quiet (by decide)
    have closing : Silent ")::" := silent_of_quiet (by decide)
    exact ((opening.append silent).append closing).append (silent_of_quiet plain)

theorem Scanning.Shows.cast {names : List String} (inner : Shows expression names)
    (plain : type.toList.all isQuiet = true) : Shows (Dialect.Postgres.cast expression type) names := by
  have silent : Shows type [] := (silent_of_quiet plain).shows
  unfold Dialect.Postgres.cast
  split
  · have colons : isDivider "::" = true := by decide
    have read := inner.divided colons silent
    rwa [List.append_nil] at read
  · have opening : Silent "(" := silent_of_quiet (by decide)
    have closing : isDivider ")::" = true := by decide
    have read := (opening.before inner).divided closing silent
    rwa [List.append_nil] at read

end

theorem castType_isQuiet {kind : Kind} {type : String} (cast : Dialect.postgres.castType kind = some type) :
    type.toList.all isQuiet = true := by
  cases kind <;> cases cast <;> decide

section

variable {scope : Option String} (qualified : ∀ tableAlias ∈ scope, IsParameterName tableAlias)

include qualified

theorem Mapping.IsBare.silent {m : Mapping} (bare : m.IsBare) :
    Silent (m.expression Dialect.postgres scope) := by
  have plain : Silent m.column := silent_of_parameterChars bare.column.2
  unfold Mapping.expression
  rw [bare.stored]
  cases given : scope with
  | none => exact plain
  | some tableAlias =>
    have qualifier : Silent tableAlias := silent_of_parameterChars (qualified tableAlias given).2
    have dot : Silent "." := silent_of_quiet (by decide)
    exact (qualifier.append dot).append plain

/-- At signs and quotes among the keys of a path are all in its literal. -/
theorem Operand.silent_text {o : Operand} (bare : o.mapping.IsBare) :
    Silent (o.text Dialect.postgres scope) := by
  have base := bare.silent qualified
  have sign : Silent "#>>" := silent_of_quiet (by decide)
  have extracted : Silent (Dialect.postgres.jsonPath (o.mapping.expression Dialect.postgres scope) o.keys) :=
    (base.append sign).append (silent_quoted _)
  unfold Operand.text
  dsimp only
  split
  · exact base
  · split
    · rename_i type cast
      exact extracted.cast (castType_isQuiet cast)
    · exact extracted

end

theorem Reference.shows_text {r : Reference} (bare : ∀ name ∈ r.names, IsParameterName name) :
    Shows (r.text Dialect.postgres) r.names := by
  cases r with
  | null => exact (silent_of_quiet (by decide)).shows
  | parameter name document =>
    obtain ⟨nonempty, own⟩ := bare name (by simp [names])
    have sign : Shows (Dialect.postgres.parameter name) [name] := shows_parameter nonempty own
    cases document with
    | false => exact sign
    | true => exact sign.cast (by decide)

namespace Condition

variable {scope : Option String}

theorem silent_operator {left : String} (silent : Silent left) {sign : String}
    (plain : Silent sign) (opening : String) (quiet : opening.toList.all isQuiet = true) :
    Silent (left ++ " " ++ sign ++ opening) := by
  have space : Silent " " := silent_of_quiet (by decide)
  exact ((silent.append space).append plain).append (silent_of_quiet quiet)

theorem silent_comparison (operator : Operator) (negate : Bool) :
    Silent (Dialect.postgres.comparison operator negate) := by
  cases operator <;> cases negate <;> exact silent_of_quiet (by decide)

theorem shows_truthText (b : Bool) : Shows (truthText b) [] := by
  cases b <;> exact (silent_of_quiet (by decide)).shows

theorem shows_groupText (k : Connective) {children : List Condition}
    (each : ∀ c ∈ children, Shows (c.text Dialect.postgres scope) c.names) :
    Shows ((group k children).text Dialect.postgres scope) (group k children).names := by
  have divider : isDivider (" " ++ Dialect.postgres.connective k ++ " ") = true := by
    cases k <;> decide
  have joined := Shows.intercalated divider each
  rw [text, names, texts_eq_map, namesOf_eq_flatMap]
  unfold groupText
  split
  · rename_i empty
    obtain rfl : children = [] := by simpa using empty
    exact shows_truthText _
  · cases k with
    | and => exact joined
    -- The names of the last child end where the disjunction is closed.
    | or =>
      have opening : Silent "(" := silent_of_quiet (by decide)
      exact (opening.before joined).closed (by decide)

mutual

theorem shows_text (qualified : ∀ tableAlias ∈ scope, IsParameterName tableAlias) :
    ∀ c : Condition, c.IsBare → Shows (c.text Dialect.postgres scope) c.names
  | .compare left operator negate right, bare => by
    have silent := left.silent_text qualified (bare.operand left (by simp [operands]))
    rw [text]
    exact (silent_operator silent (silent_comparison operator negate) " " (by decide)).before
      (right.shows_text bare.name)
  | .contains left right, bare => by
    have silent := left.silent_text qualified (bare.operand left (by simp [operands]))
    rw [text]
    exact (silent_operator silent silent_containment " " (by decide)).before (right.shows_text bare.name)
  | .member left negate items, bare => by
    have silent := left.silent_text qualified (bare.operand left (by simp [operands]))
    have comma : isDivider "," = true := by decide
    have each : ∀ r ∈ items, Shows (r.text Dialect.postgres) r.names := fun r inside =>
      r.shows_text fun name own => bare.name name (List.mem_flatMap.2 ⟨r, inside, own⟩)
    have listed := Shows.intercalated comma each
    rw [text]
    exact ((silent_operator silent (silent_comparison .member negate) " (" (by decide)).before
      listed).closed (by decide)
  | .isNull term negate, bare => by
    have tested : Shows (term.text Dialect.postgres scope) term.names := by
      cases term with
      | operand o => exact (o.silent_text qualified (bare.operand o (by simp [operands, Term.operands]))).shows
      | reference r => exact r.shows_text bare.name
    rw [text]
    cases negate <;> exact tested.closed (by decide)
  | .truth b, _ => by
    rw [text]
    exact shows_truthText b
  | .not c, bare => by
    have opening : Silent "NOT (" := silent_of_quiet (by decide)
    have inner : c.IsBare := ⟨bare.operand, bare.name⟩
    rw [text]
    exact (opening.before (shows_text qualified c inner)).closed (by decide)
  | .group k children, bare => shows_groupText k (shows_texts qualified children (isBare_group.1 bare))

theorem shows_texts (qualified : ∀ tableAlias ∈ scope, IsParameterName tableAlias) :
    ∀ children : List Condition, (∀ c ∈ children, c.IsBare) →
    ∀ c ∈ children, Shows (c.text Dialect.postgres scope) c.names
  | [], _ => fun _ inside => absurd inside List.not_mem_nil
  | first :: rest, bare => by
    obtain ⟨head, tail⟩ := List.forall_mem_cons.1 bare
    exact List.forall_mem_cons.2 ⟨shows_text qualified first head, shows_texts qualified rest tail⟩

end

end Condition

namespace Operand

variable (left : Operand)

theorem mem_names_bind (base : String) (v : Value) (ps : Parameters) (name : String) :
    name ∈ (left.bind base v ps).2.names ↔ name ∈ ps.names ∨ name ∈ (left.bind base v ps).1.names := by
  simp only [bind, Reference.names, List.mem_singleton]
  exact ps.mem_names_assign base (left.stored v) name

theorem mem_names_bindItems (i : Nat) (items : List Value) (ps : Parameters) (name : String) :
    name ∈ (left.bindItems i items ps).2.names ↔
      name ∈ ps.names ∨ name ∈ (left.bindItems i items ps).1.flatMap Reference.names := by
  induction items generalizing i ps with
  | nil => simp [bindItems]
  | cons v rest ih =>
    cases null : v.isNull with
    | true =>
      simp only [bindItems, null, if_true, List.flatMap_cons, Reference.names, List.nil_append]
      exact ih (i + 1) ps
    | false =>
      simp only [bindItems, null, Bool.false_eq_true, if_false, List.flatMap_cons, List.mem_append]
      rw [ih, mem_names_bind, or_assoc]

end Operand

namespace Comparison

variable (c : Comparison) (left : Operand)

theorem names_withNull : (c.withNull left).names = [] := by
  unfold withNull
  cases c.operator <;> rfl

theorem mem_operands_withNull {o : Operand} (own : o ∈ (c.withNull left).operands) : o = left := by
  unfold withNull at own
  cases given : c.operator <;>
    simpa [given, Condition.operands, Term.operands] using own

theorem mem_names_relation (r : Reference) (name : String) :
    name ∈ (c.relation left r).names ↔ name ∈ r.names := by
  simp [Condition.names_eq_flatMap, c.mem_references_relation left]

theorem mem_operands_relation {r : Reference} {o : Operand} (own : o ∈ (c.relation left r).operands) :
    o = left := by
  unfold relation at own
  split at own
  · cases negated : c.negate <;> simpa [negated, containment, Condition.operands] using own
  · split at own
    · cases negated : c.negate <;>
        simpa [negated, Condition.nullSafe, Condition.operands, Condition.operandsOf, Term.operands]
          using own
    · simpa [Condition.operands] using own

theorem mem_names_condition (ps : Parameters) (name : String) :
    name ∈ (c.condition left ps).2.names ↔ name ∈ ps.names ∨ name ∈ (c.condition left ps).1.names := by
  cases null : c.value.isNull with
  | true => simp [c.condition_null left null, c.names_withNull left]
  | false =>
    -- A list binds one name for each item that is not null, and uses the same ones.
    by_cases operator : c.operator = .member
    · rw [c.condition_member left null operator]
      unfold membership
      split
      · simp [Condition.names]
      · exact left.mem_names_bindItems 0 _ ps name
      · simpa [Condition.names] using left.mem_names_bind left.parameterName c.value ps name
    · rw [c.condition_relation left null operator, c.mem_names_relation left]
      exact left.mem_names_bind left.parameterName c.value ps name

variable {c left} {later : Parameters} {condition : Condition}

theorem Lowered.operand_eq (lowered : c.Lowered left later condition) : ∀ o ∈ condition.operands, o = left := by
  intro o own
  cases lowered with
  | withNull null tested =>
    rw [testsNull_iff.1 tested] at own
    exact c.mem_operands_withNull left own
  | noItems => simp [Condition.operands] at own
  | items => simpa [Condition.operands] using own
  | item => simpa [Condition.operands] using own
  | relation _ _ _ related =>
    rw [relates_iff.1 related] at own
    exact c.mem_operands_relation left own

theorem Lowered.named (lowered : c.Lowered left later condition) :
    ∀ name ∈ condition.names, left.Names name := by
  intro name own
  rw [Condition.names_eq_flatMap] at own
  obtain ⟨r, inside, used⟩ := List.mem_flatMap.1 own
  obtain ⟨_, _, denotes⟩ := lowered.references_denote.1 r inside
  exact denotes.named name used

theorem Lowered.isBare (lowered : c.Lowered left later condition) (bare : left.mapping.IsBare) :
    condition.IsBare := by
  constructor
  · intro o own
    rw [lowered.operand_eq o own]
    exact bare
  · intro name own
    exact (lowered.named name own).plain bare.column.1

end Comparison

theorem Sample.foos_isBare : Sample.foos.IsBare := by
  have plain {s : String} (nonempty : s ≠ "") (own : s.toList.all isParameterChar = true) :
      IsParameterName s := ⟨nonempty, List.all_eq_true.1 own⟩
  refine ⟨plain (by decide) (by decide), fun m inside => ?_⟩
  simp only [Sample.foos, List.mem_cons, List.not_mem_nil, or_false] at inside
  rcases inside with rfl | rfl | rfl | rfl <;> exact ⟨rfl, plain (by decide) (by decide)⟩

namespace Predicate

theorem isBare_of_lowered {schema : Schema} (bare : schema.IsBare) {p : Predicate} {later : Parameters}
    {condition : Condition} (lowered : p.Lowered schema later condition) : condition.IsBare := by
  refine lowered.induct (fun (_ : True) lowered => ?_) (fun _ _ each => ?_) fun _ _ => trivial
  · obtain ⟨left, resolved, single⟩ := lowered
    exact single.isBare (bare.mapping _ (Comparison.mapping_mem resolved))
  · exact Condition.isBare_group.2 each

mutual

theorem mem_names_compile (schema : Schema) (name : String) : ∀ (p : Predicate) {ps final : Parameters}
    {condition : Condition}, p.compile schema ps = .ok condition final →
    (name ∈ final.names ↔ name ∈ ps.names ∨ name ∈ condition.names)
  | .comparison c, ps, final, condition, compiled => by
    obtain ⟨left, _, rfl, rfl⟩ := Comparison.compile_eq_ok_iff.1 compiled
    exact c.mem_names_condition left ps name
  | .group k children, ps, final, condition, compiled => by
    obtain ⟨conditions, all, rfl⟩ := compile_group_eq_ok_iff.1 compiled
    exact mem_names_compileAll schema name children all

theorem mem_names_compileAll (schema : Schema) (name : String) : ∀ (children : List Predicate)
    {ps final : Parameters} {conditions : List Condition},
    compileAll schema children ps = .ok conditions final →
    (name ∈ final.names ↔ name ∈ ps.names ∨ name ∈ Condition.namesOf conditions)
  | [], ps, final, conditions, compiled => by
    cases compiled
    simp [Condition.namesOf]
  | p :: rest, ps, final, conditions, compiled => by
    obtain ⟨first, mid, others, one, all, rfl⟩ := compileAll_cons_eq_ok_iff.1 compiled
    rw [mem_names_compileAll schema name rest all, mem_names_compile schema name p one,
      Condition.namesOf, List.mem_append, or_assoc]

end

/-- The placeholders in the text of a predicate that was compiled on its own are the names that it bound:
each name is printed, and nothing else is taken for a placeholder, whatever paths and values there are. -/
theorem placeholders_are_bound_names (schema : Schema) (bare : schema.IsBare) (scope : Option String)
    (qualified : ∀ tableAlias ∈ scope, tableAlias = schema.tableAlias) (p : Predicate) {final : Parameters}
    {condition : Condition} (compiled : p.compile schema .empty = .ok condition final) (name : String) :
    name ∈ placeholders (condition.text Dialect.postgres scope) ↔ name ∈ final.names := by
  have qualifier : ∀ tableAlias ∈ scope, IsParameterName tableAlias := fun tableAlias given =>
    qualified tableAlias given ▸ bare.tableAlias
  have lowered := isBare_of_lowered bare (compile_lowered schema p compiled (.refl final))
  have shown := (condition.shows_text qualifier lowered).placeholders
  -- Nothing was there before, so whatever is bound is bound for the sake of some reference.
  have none : name ∉ Parameters.empty.names := List.not_mem_nil
  rw [shown, mem_names_compile schema name p compiled]
  simp only [none, false_or]

/-- At signs and quotes in paths, a sign of containment, values that are not bound, and a name that is
numbered. -/
theorem placeholders_are_bound_names_signs :
    let p := all [memberOf "Size" [.int 1, .null], memberOf "Id" [], notLike "Attributes" (.array [.null]),
      eq "Attributes.it's @home" (.text "x"), eq "Attributes.it_s.@home" (.text "y"), ne "TemplateKey" .null]
    Sample.foos.IsBare ∧ (∀ tableAlias ∈ some "f", tableAlias = Sample.foos.tableAlias) ∧
    ∃ condition final, p.compile Sample.foos .empty = .ok condition final ∧
      final.names = ["size_0", "attributes", "attributes_it_s__home", "attributes_it_s__home_2"] ∧
      ∀ name, name ∈ placeholders (condition.text Dialect.postgres (some "f")) ↔ name ∈ final.names := by
  intro p
  have qualified : ∀ tableAlias ∈ some "f", tableAlias = Sample.foos.tableAlias := by
    intro tableAlias given
    cases given
    rfl
  have compiled : p.compile Sample.foos .empty = .ok _ _ := rfl
  exact ⟨Sample.foos_isBare, qualified, _, _, compiled, by decide +kernel,
    placeholders_are_bound_names Sample.foos Sample.foos_isBare (some "f") qualified p compiled⟩

end Predicate

end EntitySql
