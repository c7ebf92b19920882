import EntitySql.Dialect.Postgres
import EntitySql.Repository
import EntitySql.Schema.Draft
import EntitySql.Statement.Printer
import EntitySql.Proofs.Carriers
import EntitySql.Proofs.Sample

/-! Statements about the row with a key. The key is looked up whole when a schema is built, but as a path
when it is compared. The two agree when there is no dot in its name: then the key's own column is
compared, and nothing can fail. A key with a dot is never compared as a column. -/

set_option autoImplicit false

namespace EntitySql

theorem Path.ofText_of_dotless {s : String} (dotless : '.' ∉ s.toList) : Path.ofText s = ⟨s, []⟩ := by
  simp [Path.ofText, Text.segments_of_not_mem _ _ dotless]

theorem Path.keys_of_dotted {s : String} (dotted : '.' ∈ s.toList) : (Path.ofText s).keys ≠ [] := by
  have counted := Text.length_segments '.' s.toList
  have found := List.count_pos_iff.2 dotted
  intro empty
  simp only [Path.ofText, List.map_eq_nil_iff] at empty
  rw [empty, List.length_nil] at counted
  omega

theorem Comparison.operand_of_dotless {c : Comparison} (dotless : '.' ∉ c.property.toList) {schema : Schema}
    {m : Mapping} (resolved : schema.resolve c.property = .ok m) :
    c.operand schema = .ok ⟨m, [], c.kind⟩ := by
  have path : c.path = ⟨c.property, []⟩ := Path.ofText_of_dotless dotless
  simp only [operand, path, resolved, bind, Except.bind]
  rfl

theorem Schema.scope_eq (s : Schema) : s.scope = if s.joins = [] then none else some s.tableAlias := by
  simp only [scope, List.isEmpty_iff]

theorem Selection.whereText_of_filter {s : Selection} {c : Condition} (filtered : s.filter = some c)
    {d : Dialect} (nonempty : c.text d s.scope ≠ "") :
    s.whereText d = " WHERE " ++ c.text d s.scope := by
  have written : (c.text d s.scope).isEmpty = false := String.isEmpty_eq_false_iff.2 nonempty
  simp only [whereText, Condition.filterText, filtered, Option.map_some, Option.getD_some, written,
    Bool.false_eq_true, if_false]

/-- How a filter spells a column: as the expression that is computed in its place, or by its name, which is
quoted unless an alias qualifies it. -/
inductive Mapping.Spelled (m : Mapping) (d : Dialect) : Option String → String → Prop where
  | computed {scope : Option String} {expression : String} : m.computed = some expression →
      Spelled m d scope expression
  | quoted : m.computed = none → Spelled m d none (d.quoteIdentifier m.column)
  | qualified {tableAlias : String} : m.computed = none →
      Spelled m d (some tableAlias) (tableAlias ++ "." ++ m.column)

theorem Mapping.spelled_expression (m : Mapping) (d : Dialect) (scope : Option String) :
    m.Spelled d scope (m.expression d scope) := by
  unfold expression
  split
  · exact .computed ‹_›
  · split
    · exact .quoted ‹_›
    · exact .qualified ‹_›

/-- The text compares the key's own column with the key: it tests it for null, or sets it equal to a
placeholder of that name, which stands for the key. -/
inductive Schema.KeyTest (s : Schema) (d : Dialect) (scope : Option String) (ps : Parameters) :
    Value → Option String → String → Prop where
  | null {m : Mapping} {column : String} : s.columns.mappings.find? (·.property = s.key) = some m →
      m.Spelled d scope column → KeyTest s d scope ps .null none (column ++ " IS NULL")
  | value {m : Mapping} {column name placeholder : String} {key stored : Value} :
      s.columns.mappings.find? (·.property = s.key) = some m → m.Spelled d scope column → key ≠ .null →
      key.Carried d ps (m.columnType = some .jsonb) name stored placeholder →
      KeyTest s d scope ps key (some name) (column ++ " " ++ d.comparison .eq false ++ " " ++ placeholder)

theorem Schema.KeyTest.nonempty {s : Schema} {d : Dialect} {scope name : Option String} {ps : Parameters}
    {key : Value} {text : String} (test : s.KeyTest d scope ps key name text) : text ≠ "" := by
  intro empty
  have chars := congrArg String.toList empty
  cases test <;> simp at chars

namespace Repository

variable (r : Repository) (key : Value)

def keyComparison : Comparison :=
  ⟨.eq, r.schema.key, key, false, true⟩

def keyOperand : Operand :=
  ⟨r.schema.keyMapping, [], (r.keyComparison key).kind⟩

theorem operand_keyComparison (dotless : '.' ∉ r.schema.key.toList) :
    (r.keyComparison key).operand r.schema = .ok (r.keyOperand key) :=
  Comparison.operand_of_dotless dotless r.schema.resolve_key

def keyCondition (ps : Parameters) : Condition × Parameters :=
  (r.keyComparison key).condition (r.keyOperand key) ps

theorem compile_keyPredicate (dotless : '.' ∉ r.schema.key.toList) (ps : Parameters) :
    (r.keyPredicate key).compile r.schema ps = .ok (r.keyCondition key ps).1 (r.keyCondition key ps).2 :=
  (r.keyComparison key).compile_of_operand _ (r.operand_keyComparison key dotless) ps

/-- A null key is tested for and not bound; any other is bound, under the name that is printed. -/
theorem keyCondition_cases (ps : Parameters) :
    (key = .null ∧ (r.keyCondition key ps).2 = ps ∧ ∀ later d scope,
      r.schema.KeyTest d scope later key none ((r.keyCondition key ps).1.text d scope)) ∨
    (key ≠ .null ∧
      let bound := ps.assign (Naming.placeholder r.schema.keyMapping.column [])
        (r.schema.keyMapping.stored key)
      (r.keyCondition key ps).2 = bound.2 ∧ ∀ later, bound.2.Reaches later → ∀ d scope,
        r.schema.KeyTest d scope later key (some bound.1) ((r.keyCondition key ps).1.text d scope)) := by
  have mapped := r.schema.get?_of_resolve r.schema.resolve_key
  by_cases null : key = .null
  · subst null
    have tested : r.keyCondition .null ps = (.isNull (.operand (r.keyOperand .null)) false, ps) :=
      (r.keyComparison .null).condition_null _ rfl ps
    refine .inl ⟨rfl, by rw [tested], fun later d scope => ?_⟩
    rw [tested]
    exact .null mapped (r.schema.keyMapping.spelled_expression d scope)
  · have given : key.isNull = false := by rwa [← Bool.not_eq_true, Value.isNull_iff]
    let stored := r.schema.keyMapping.stored key
    let bound := ps.assign (r.keyOperand key).parameterName stored
    have compared : r.keyCondition key ps =
        (.compare (r.keyOperand key) .eq false (.parameter bound.1 (stored.kind = .json)), bound.2) :=
      (r.keyComparison key).condition_relation _ given (by simp [keyComparison]) ps
    refine .inr ⟨null, by rw [compared]; rfl, fun later reached d scope => ?_⟩
    have carried := Value.carried_of_holds (r.schema.keyMapping.stores_stored key)
      (reached.holds (ps.get?_assign (r.keyOperand key).parameterName stored)) d
    rw [compared]
    exact .value mapped (r.schema.keyMapping.spelled_expression d scope) null carried

theorem exists_keyTest {ps later : Parameters} (reached : (r.keyCondition key ps).2.Reaches later)
    (d : Dialect) (scope : Option String) :
    ∃ name, r.schema.KeyTest d scope later key name ((r.keyCondition key ps).1.text d scope) := by
  rcases r.keyCondition_cases key ps with ⟨_, _, test⟩ | ⟨_, bound, test⟩
  · exact ⟨_, test later d scope⟩
  · rw [bound] at reached
    exact ⟨_, test later reached d scope⟩

theorem delete_of_dotless (dotless : '.' ∉ r.schema.key.toList) (ps : Parameters) :
    r.delete key ps =
      .ok (.delete ⟨r.schema.table, (r.keyCondition key ps).1⟩) (r.keyCondition key ps).2 :=
  Binding.bind_of_ok (r.compile_keyPredicate key dotless ps) _

/-- A key with a dot is a place inside a document, if it is anything: either nothing is deleted, or what
is compared with the key is never a column. -/
theorem delete_of_dotted (dotted : '.' ∈ r.schema.key.toList) (ps : Parameters) :
    (∃ e, r.delete key ps = .error e ps) ∨
    ∃ left, left.keys ≠ [] ∧
      r.delete key ps = .ok (.delete ⟨r.schema.table, ((r.keyComparison key).condition left ps).1⟩)
        ((r.keyComparison key).condition left ps).2 := by
  cases resolved : (r.keyComparison key).operand r.schema with
  | error e =>
    exact .inl ⟨e, Binding.bind_of_error ((r.keyComparison key).compile_of_unresolved resolved ps) _⟩
  | ok left =>
    have nested : left.keys ≠ [] := by
      rw [(Comparison.operand_eq resolved).2.1]
      exact Path.keys_of_dotted dotted
    exact .inr ⟨left, nested,
      Binding.bind_of_ok ((r.keyComparison key).compile_of_operand left resolved ps) _⟩

def selection (filter : Option Condition) : Selection where
  columns := r.schema.columns.mappings
  table := r.schema.table
  scope := r.schema.scope
  joins := r.schema.joins
  filter := filter
  ordering := r.schema.orderingMapping

theorem find_of_compile {p : Predicate} {ps final : Parameters} {condition : Condition}
    (compiled : p.compile r.schema ps = .ok condition final) :
    r.find (some p) ps = .ok (.select (r.selection (some condition))) final := by
  have filter : Predicate.compileFilter r.schema (some p) ps = .ok (some condition) final :=
    Binding.bind_of_ok compiled _
  exact Binding.bind_of_ok filter _

theorem get_of_dotless (dotless : '.' ∉ r.schema.key.toList) (ps : Parameters) :
    r.get key ps =
      .ok (.select (r.selection (some (r.keyCondition key ps).1))) (r.keyCondition key ps).2 :=
  r.find_of_compile (r.compile_keyPredicate key dotless ps)

theorem getAll_eq (ps : Parameters) : r.getAll ps = .ok (.select (r.selection none)) ps :=
  rfl

/-- Whatever is bound already, all rows can be read, and the row with a key can be read and deleted if
there is no dot in the key's name. The filter sets the key's own column equal to a placeholder that stands
for the key; only a null key is tested for null instead. The column is qualified only where it is read
beside joined tables. -/
theorem key_statements_filter_key (dotless : '.' ∉ r.schema.key.toList) (ps : Parameters) :
    (∃ all, r.getAll ps = .ok (.select all) ps ∧ ∀ d, all.whereText d = "") ∧
    ∃ final, ps.Reaches final ∧
      (∃ one, r.get key ps = .ok (.select one) final ∧
        let qualifier := if r.schema.joins = [] then none else some r.schema.tableAlias
        ∀ d, ∃ name test, r.schema.KeyTest d qualifier final key name test ∧
          one.whereText d = " WHERE " ++ test) ∧
      (∃ one, r.delete key ps = .ok (.delete one) final ∧
        ∀ d, ∃ name test, r.schema.KeyTest d none final key name test ∧
          one.text d = "DELETE FROM " ++ d.quoteIdentifier r.schema.table ++ " WHERE " ++ test) := by
  refine ⟨⟨_, r.getAll_eq ps, fun d => rfl⟩, _, ?_, ⟨_, r.get_of_dotless key dotless ps, fun d => ?_⟩,
    ⟨_, r.delete_of_dotless key dotless ps, fun d => ?_⟩⟩
  · exact (r.keyComparison key).reaches_condition _ ps
  · obtain ⟨name, test⟩ := r.exists_keyTest key (.refl (r.keyCondition key ps).2) d r.schema.scope
    rw [← r.schema.scope_eq]
    exact ⟨name, _, test, Selection.whereText_of_filter rfl test.nonempty⟩
  · obtain ⟨name, test⟩ := r.exists_keyTest key (.refl (r.keyCondition key ps).2) d none
    exact ⟨name, _, test, rfl⟩

theorem key_statements_filter_key_bound :
    let r : Repository := ⟨Sample.foos, "Foo"⟩
    let ps : Parameters := ⟨[("id", .int 5)]⟩
    '.' ∉ r.schema.key.toList ∧
      (∃ all, r.getAll ps = .ok (.select all) ps ∧ ∀ d, all.whereText d = "") ∧
      ∃ final, ps.Reaches final ∧
        (∃ one, r.get (.int 7) ps = .ok (.select one) final ∧
          let qualifier := if r.schema.joins = [] then none else some r.schema.tableAlias
          ∀ d, ∃ name test, r.schema.KeyTest d qualifier final (.int 7) name test ∧
            one.whereText d = " WHERE " ++ test) ∧
        (∃ one, r.delete (.int 7) ps = .ok (.delete one) final ∧
          ∀ d, ∃ name test, r.schema.KeyTest d none final (.int 7) name test ∧
            one.text d = "DELETE FROM " ++ d.quoteIdentifier r.schema.table ++ " WHERE " ++ test) := by
  intro r ps
  have dotless : '.' ∉ r.schema.key.toList := by decide
  exact ⟨dotless, r.key_statements_filter_key (.int 7) dotless ps⟩

/-- With a dot in its name the key is sought in another column, although the schema maps it. -/
theorem delete_filters_document :
    ∃ schema : Schema, ((Draft.ofTable "foos").run Sample.ordersSteps >>= Draft.build) = .ok schema ∧
      schema.keyMapping.column = "id" ∧
      ∃ one final, delete ⟨schema, "Row"⟩ (.int 7) .empty = .ok (.delete one) final ∧
        one.text Dialect.postgres =
          "DELETE FROM foos WHERE (order_doc#>>'\x7bId\x7d')::bigint = @order_doc_Id" := by
  have built : ((Draft.ofTable "foos").run Sample.ordersSteps >>= Draft.build) = .ok _ := rfl
  exact ⟨_, built, rfl, _, _, rfl, by decide⟩

end Repository

end EntitySql
