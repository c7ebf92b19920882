import EntitySql.Condition.Printer
import EntitySql.Proofs.References

/-! What stands for a value in a condition. Whether documents are compared is settled by the column, the path
and the value; a reference is then bound to what the value is bound as there, and is written with the cast
that the dialect has for documents. -/

set_option autoImplicit false

namespace EntitySql

/-! ## When documents are compared -/

theorem Kind.isStructured_iff (k : Kind) : k.isStructured = true ↔ k = .json ∨ k = .array := by
  cases k <;> simp [isStructured]

namespace Comparison

/-- Documents are compared: those of a whole column, or parts of them that are taken for documents because
the value is one, or an array, or because the first item of a list that is not null is one. -/
inductive MeetsDocuments (c : Comparison) (m : Mapping) : Prop where
  | column : c.path.keys = [] → m.columnType = some .jsonb → MeetsDocuments c m
  | structured : c.path.keys ≠ [] → c.operator ≠ .member → c.value.kind.isStructured = true →
      MeetsDocuments c m
  | memberOf : c.path.keys ≠ [] → c.operator = .member → c.value.kind = .json → MeetsDocuments c m
  | items {nulls rest : List Value} {first : Value} : c.path.keys ≠ [] → c.operator = .member →
      c.value = .array (nulls ++ first :: rest) → (∀ v ∈ nulls, v.isNull = true) → first.kind = .json →
      MeetsDocuments c m

variable {c : Comparison}

theorem kind_of_scalar (scalar : c.value.kind ≠ .array) : c.kind = c.value.kind := by
  unfold kind
  split
  · rename_i value _
    simp [value, Value.kind] at scalar
  · rename_i value _
    simp [value, Value.kind] at scalar
  · rfl

theorem kind_of_array (single : c.operator ≠ .member) {items : List Value} (value : c.value = .array items) :
    c.kind = .json := by
  unfold kind
  rw [value]
  cases operator : c.operator with
  | member => exact absurd operator single
  | _ => rfl

theorem kind_of_items (operator : c.operator = .member) {items : List Value}
    (value : c.value = .array items) :
    c.kind = .json ↔ ∃ nulls first rest, items = nulls ++ first :: rest ∧
      (∀ v ∈ nulls, v.isNull = true) ∧ first.kind = .json := by
  have searched : c.kind = ((items.find? fun v => decide (v.kind ≠ .null)).map Value.kind).getD .null := by
    simp only [kind, value, operator, List.find?_map]
    rfl
  have passed (v : Value) : (!decide (v.kind ≠ .null)) = true ↔ v.isNull = true := by
    simp [Value.kind_eq_null_iff]
  -- The kind is that of the first item that the search does not pass over.
  rw [searched]
  constructor
  · intro document
    cases found : items.find? fun v => decide (v.kind ≠ .null) with
    | none =>
      rw [found] at document
      cases document
    | some first =>
      obtain ⟨_, nulls, rest, split, before⟩ := List.find?_eq_some_iff_append.1 found
      rw [found] at document
      exact ⟨nulls, first, rest, split, fun v inside => (passed v).1 (before v inside), document⟩
  · rintro ⟨nulls, first, rest, split, before, document⟩
    have found : (items.find? fun v => decide (v.kind ≠ .null)) = some first :=
      List.find?_eq_some_iff_append.2
        ⟨by simp [document], nulls, rest, split, fun v inside => (passed v).2 (before v inside)⟩
    rw [found]
    exact document

theorem kind_eq_json_iff {m : Mapping} (nested : c.path.keys ≠ []) :
    c.kind = .json ↔ c.MeetsDocuments m := by
  constructor
  · intro document
    by_cases array : c.value.kind = .array
    · obtain ⟨items, value⟩ := Value.exists_of_kind_array array
      by_cases operator : c.operator = .member
      · obtain ⟨nulls, first, rest, rfl, before, found⟩ := (kind_of_items operator value).1 document
        exact .items nested operator value before found
      · exact .structured nested operator ((Kind.isStructured_iff _).2 (.inr array))
    · rw [kind_of_scalar array] at document
      by_cases operator : c.operator = .member
      · exact .memberOf nested operator document
      · exact .structured nested operator ((Kind.isStructured_iff _).2 (.inl document))
  · rintro (⟨bare⟩ | ⟨_, single, structured⟩ | ⟨_, _, document⟩ | ⟨_, operator, value, before, document⟩)
    · exact absurd bare nested
    · rcases (Kind.isStructured_iff _).1 structured with document | array
      · rw [kind_of_scalar (by simp [document]), document]
      · obtain ⟨items, value⟩ := Value.exists_of_kind_array array
        exact kind_of_array single value
    · rw [kind_of_scalar (by simp [document]), document]
    · exact (kind_of_items operator value).2 ⟨_, _, _, rfl, before, document⟩

theorem isDocument_iff {schema : Schema} {left : Operand} (resolved : c.operand schema = .ok left) :
    left.isDocument = true ↔ c.MeetsDocuments left.mapping := by
  obtain ⟨_, keys, kind⟩ := operand_eq resolved
  by_cases bare : c.path.keys = []
  · have column : left.isDocument = true ↔ left.mapping.columnType = some .jsonb := by
      simp [Operand.isDocument, Mapping.isDocument, keys, bare]
    rw [column]
    constructor
    · exact .column bare
    · rintro (⟨_, document⟩ | ⟨nested⟩ | ⟨nested⟩ | ⟨nested⟩)
      · exact document
      all_goals exact absurd bare nested
  · have part : left.isDocument = true ↔ c.kind = .json := by simp [Operand.isDocument, keys, bare, kind]
    exact part.trans (kind_eq_json_iff bare)

end Comparison

/-! ## Placeholders -/

theorem Value.isNull_iff {v : Value} : v.isNull = true ↔ v = .null := by
  cases v <;> simp [isNull]

theorem Value.kind_of_beq {v w : Value} (same : (v == w) = true) : v.kind = w.kind := by
  cases v <;> cases w <;> first | rfl | cases same

/-- A placeholder stands for a value: what the value is bound as is bound to its name. What is a document is
written with a cast, if the dialect has one for documents. -/
structure Value.Carried (v : Value) (d : Dialect) (ps : Parameters) (documents : Bool) (name : String)
    (stored : Value) (text : String) : Prop where
  bound : Value.BoundAs documents v stored
  held : ∃ w, ps.get? name = some w ∧ w.kind = stored.kind ∧ (w = stored ∨ (w == stored) = true)
  cast : stored.kind = .json → ∀ type, d.castType .json = some type → text = d.cast (d.parameter name) type
  plain : stored.kind ≠ .json ∨ d.castType .json = none → text = d.parameter name

variable {d : Dialect} {ps later : Parameters} {documents : Bool} {left : Operand}

theorem Value.carried_of_holds {v stored : Value} {name : String} (bound : Value.BoundAs documents v stored)
    (held : ps.Holds name stored) (d : Dialect) :
    v.Carried d ps documents name stored ((Reference.parameter name (stored.kind = .json)).text d) := by
  obtain ⟨w, found, same⟩ := held
  refine ⟨bound, ⟨w, found, ?_, same⟩, ?_, ?_⟩
  · rcases same with rfl | same
    · rfl
    · exact Value.kind_of_beq same
  · intro kind type cast
    simp [Reference.text, kind, cast]
  · rintro (kind | uncast)
    · simp [Reference.text, kind]
    · simp [Reference.text, uncast]

def Reference.Carries (r : Reference) (d : Dialect) (ps : Parameters) (documents : Bool) (v : Value)
    (name : String) (stored : Value) : Prop :=
  v.Carried d ps documents name stored (r.text d)

namespace Reference

inductive StandsFor (d : Dialect) (ps : Parameters) (documents : Bool) : Reference → Value → Prop where
  | null : Reference.null.text d = "NULL" → StandsFor d ps documents .null .null
  | value {name : String} {document : Bool} {v stored : Value} : v ≠ .null →
      (Reference.parameter name document).Carries d ps documents v name stored →
      StandsFor d ps documents (.parameter name document) v

theorem Denotes.standsFor {r : Reference} {v : Value} (denotes : r.Denotes ps left v) (d : Dialect) :
    r.StandsFor d ps left.isDocument v := by
  cases r with
  | null =>
    obtain rfl := Value.isNull_iff.1 denotes
    exact .null rfl
  | parameter name document =>
    obtain ⟨notNull, _, stored, bound, rfl, held⟩ := denotes
    refine .value (fun null => ?_) (Value.carried_of_holds bound held d)
    rw [← Value.isNull_iff, notNull] at null
    cases null

theorem StandsFor.carries {r : Reference} {v : Value} (stands : r.StandsFor d ps documents v) :
    r = .null ∨ ∃ name stored, r.Carries d ps documents v name stored := by
  cases stands with
  | null => exact .inl rfl
  | value _ carries => exact .inr ⟨_, _, carries⟩

end Reference

/-! ## Conditions -/

/-- What a condition refers to. Comparing with null refers to nothing but null. A list has one reference
for each of its items, in their order; any other value has one that stands for it, however often it is
written. -/
inductive Comparison.Refers (c : Comparison) (d : Dialect) (ps : Parameters) (documents : Bool) :
    Condition → Prop where
  | null {condition : Condition} : c.value = .null → (∀ r ∈ condition.references, r = .null) →
      Refers c d ps documents condition
  | noItems {condition : Condition} : c.operator = .member → c.value = .array [] →
      condition.references = [] → Refers c d ps documents condition
  | items {left : Operand} {negate : Bool} {items : List Value} {references : List Reference} :
      c.operator = .member → c.value = .array items → items ≠ [] →
      List.Forall₂ (Reference.StandsFor d ps documents) references items →
      Refers c d ps documents (.member left negate references)
  | single {condition : Condition} {r : Reference} : c.value ≠ .null → c.IsWhole →
      r.StandsFor d ps documents c.value → (∀ other, other ∈ condition.references ↔ other = r) →
      Refers c d ps documents condition

theorem Comparison.Lowered.refers {c : Comparison} {condition : Condition}
    (lowered : c.Lowered left ps condition) (d : Dialect) : c.Refers d ps left.isDocument condition := by
  have given (notNull : c.value.isNull = false) : c.value ≠ .null := by
    rw [Ne, ← Value.isNull_iff, notNull]
    decide
  cases lowered with
  | withNull null tested =>
    refine .null (Value.isNull_iff.1 null) fun r inside => ?_
    rw [testsNull_iff.1 tested] at inside
    exact c.mem_references_withNull left inside
  | noItems operator empty => exact .noItems operator empty rfl
  | items operator value denote =>
    exact .items operator value (List.cons_ne_nil _ _) (denote.imp fun r v denotes => denotes.standsFor d)
  | item _ notNull scalar denotes =>
    exact .single (given notNull) (fun _ => scalar) (denotes.standsFor d)
      fun other => by simp [Condition.references]
  | relation operator notNull denotes related =>
    refine .single (given notNull) (isWhole_of_single operator) (denotes.standsFor d) fun other => ?_
    rw [relates_iff.1 related]
    exact c.mem_references_relation left _ other

/-- Leaf by leaf, the references in a condition stand for what the comparisons compare. -/
def Predicate.Refers (schema : Schema) (d : Dialect) (ps : Parameters) : Predicate → Condition → Prop :=
  LeafByLeaf fun c condition => ∃ m documents,
    schema.columns.mappings.find? (·.property = c.path.property) = some m ∧
    (documents = true ↔ c.MeetsDocuments m) ∧ c.Refers d ps documents condition

theorem Predicate.Lowered.refers {schema : Schema} {p : Predicate} {condition : Condition}
    (lowered : p.Lowered schema ps condition) (d : Dialect) : p.Refers schema d ps condition := by
  refine lowered.imp fun c condition ⟨left, resolved, single⟩ => ?_
  exact ⟨left.mapping, left.isDocument, schema.get?_of_resolve (Comparison.operand_eq resolved).1,
    Comparison.isDocument_iff resolved, single.refers d⟩

end EntitySql
