import EntitySql.Proofs.Assignments
import EntitySql.Proofs.Carriers
import EntitySql.Proofs.KeyFilter
import EntitySql.Proofs.Repetition

/-! Documents are only ever compared with documents. An array that meets one is bound as the document it
denotes, in a list too, and the same goes for an array that is written to a column of documents. So a value
that is written and then looked for, or the other way round, is bound once. -/

set_option autoImplicit false

namespace EntitySql

/-! What is added to the parameters. -/

theorem Parameters.mem_entries_assign {ps : Parameters} {name : String} {v : Value}
    {entry : String × Value} (inside : entry ∈ (ps.assign name v).2.entries) :
    entry ∈ ps.entries ∨ entry.2 = v := by
  rcases ps.assign_cases name v with ⟨_, _, _, shared⟩ | ⟨_, added⟩
  · rw [shared] at inside
    exact .inl inside
  · rw [added] at inside
    rcases List.mem_append.1 inside with before | new
    · exact .inl before
    · rw [List.mem_singleton.1 new]
      exact .inr rfl

theorem Operand.mem_entries_bindItems (left : Operand) (i : Nat) (items : List Value) {ps : Parameters}
    {entry : String × Value} (inside : entry ∈ (left.bindItems i items ps).2.entries) :
    entry ∈ ps.entries ∨ ∃ v ∈ items, v.isNull = false ∧ entry.2 = left.stored v := by
  induction items generalizing i ps with
  | nil => exact .inl inside
  | cons v rest ih =>
    -- Those of the other items come after what the first one leaves.
    have onward {mid : Parameters} (inside : entry ∈ (left.bindItems (i + 1) rest mid).2.entries) :
        entry ∈ mid.entries ∨ ∃ w ∈ v :: rest, w.isNull = false ∧ entry.2 = left.stored w :=
      (ih (i + 1) inside).imp_right fun ⟨w, member, added⟩ => ⟨w, List.mem_cons_of_mem _ member, added⟩
    cases null : v.isNull with
    | true =>
      simp only [bindItems, null, if_true] at inside
      exact onward inside
    | false =>
      simp only [bindItems, null, Bool.false_eq_true, if_false] at inside
      rcases onward inside with early | late
      · exact (Parameters.mem_entries_assign early).imp_right
          fun added => ⟨v, List.mem_cons_self, null, added⟩
      · exact .inr late

namespace Comparison

variable (c : Comparison) (left : Operand)

theorem mem_entries_condition {ps : Parameters} {entry : String × Value}
    (inside : entry ∈ (c.condition left ps).2.entries) :
    entry ∈ ps.entries ∨ ∃ v ∈ c.compared, v.isNull = false ∧ entry.2 = left.stored v := by
  cases null : c.value.isNull with
  | true =>
    rw [c.condition_null left null] at inside
    exact .inl inside
  | false =>
    -- A value is bound once, unless it is a list that is looked through item by item.
    by_cases whole : c.IsWhole
    · rw [c.parameters_of_isWhole left whole null] at inside
      rw [compared_whole whole]
      exact (Parameters.mem_entries_assign inside).imp_right
        fun added => ⟨c.value, List.mem_singleton_self _, null, added⟩
    · obtain ⟨operator, array⟩ : c.operator = .member ∧ c.value.kind = .array := by
        simpa [IsWhole] using whole
      obtain ⟨items, value⟩ := Value.exists_of_kind_array array
      rw [c.condition_member left null operator] at inside
      rw [compared_items operator value]
      unfold membership at inside
      rw [value] at inside
      cases items with
      | nil => exact .inl inside
      | cons first rest => exact left.mem_entries_bindItems 0 _ inside

/-- What a comparison binds and refers to. Every value that is compared, but for nulls, is bound as it has to
be where documents are compared, or where they are not, and is referred to. Nothing else is bound, and
nothing else referred to, except null. -/
structure KeepsDocuments (d : Dialect) (ps final : Parameters) (condition : Condition) : Prop where
  added : ∀ entry ∈ final.entries, entry ∈ ps.entries ∨
    ∃ v ∈ c.compared, v.isNull = false ∧ Value.BoundAs left.isDocument v entry.2
  referred : ∀ later, final.Reaches later → ∀ r ∈ condition.references, r = .null ∨
    ∃ v ∈ c.compared, ∃ name stored, r.Carries d later left.isDocument v name stored
  compared : ∀ later, final.Reaches later → ∀ v ∈ c.compared, v.isNull = false →
    ∃ r ∈ condition.references, ∃ name stored, r.Carries d later left.isDocument v name stored

theorem keepsDocuments_condition (d : Dialect) (ps : Parameters) :
    c.KeepsDocuments left d ps (c.condition left ps).2 (c.condition left ps).1 := by
  constructor
  · intro entry inside
    refine (c.mem_entries_condition left inside).imp_right fun ⟨v, member, notNull, added⟩ => ?_
    rw [added]
    exact ⟨v, member, notNull, left.boundAs_stored v⟩
  · intro later reached r inside
    obtain ⟨v, member, denotes⟩ := (c.condition_lowered left reached).references_denote.1 r inside
    exact (denotes.standsFor d).carries.imp_right fun carries => ⟨v, member, carries⟩
  · intro later reached v member notNull
    obtain ⟨r, inside, denotes⟩ := (c.condition_lowered left reached).references_denote.2 v member notNull
    rcases (denotes.standsFor d).carries with rfl | carries
    · rw [show v.isNull = true from denotes] at notNull
      cases notNull
    · exact ⟨r, inside, carries⟩

end Comparison

/-! ## What writing binds -/

namespace Repository

variable (r : Repository) (purpose : Purpose) (record : Record)

theorem assigned_of_mem {property : String} {m : Mapping} (found : r.schema.columns.get? property = some m)
    (isBound : m.isBound = true) {v : Value} {values : List (String × Value)}
    (listed : (property, v) ∈ values) {ps final : Parameters} {made : List Assignment}
    (ran : r.assignmentsOf purpose record values ps = .ok made final) :
    ∃ mid, ps.Reaches mid ∧
      (mid.assign (Naming.placeholder m.column []) (m.stored v)).2.Reaches final ∧
      ⟨property, m, .parameter (mid.assign (Naming.placeholder m.column []) (m.stored v)).1⟩ ∈ made := by
  induction values generalizing ps made with
  | nil => cases listed
  | cons entry rest ih =>
    obtain ⟨name, value⟩ := entry
    cases mapped : r.schema.columns.get? name with
    | none =>
      rw [r.assignmentsOf_cons_unmapped purpose record mapped] at ran
      cases ran
    | some n =>
      let e : Entry := ⟨name, n, value⟩
      rw [r.assignmentsOf_cons purpose record mapped] at ran
      dsimp only at ran
      split at ran
      · rename_i others last done
        cases ran
        rcases List.mem_cons.1 listed with own | later
        -- The value is assigned here, and what the rest binds comes after it.
        · cases own
          cases mapped.symm.trans found
          have onward : (e.assign? purpose record ps).2.Reaches final := by
            rw [← Binding.left_of_ok done]
            exact r.binds_assignmentsOf purpose record rest _
          rcases e.assign?_cases purpose record ps with ⟨_, unbound, _⟩ | ⟨_, _, unbound, _⟩ |
            ⟨_, _, _, assigned⟩
          · exact absurd isBound (by simp [e, unbound])
          · exact absurd isBound (by simp [e, unbound])
          · rw [assigned] at onward ⊢
            exact ⟨ps, .refl ps, onward, by simp [e]⟩
        · obtain ⟨mid, reached, onward, member⟩ := ih later done
          have step := e.reaches_assign? purpose record ps
          exact ⟨mid, step.trans reached, onward, List.mem_append_right _ member⟩
      · cases ran

theorem compile_column {c : Comparison} (dotless : '.' ∉ c.property.toList) {m : Mapping}
    (resolved : r.schema.resolve c.property = .ok m) (notNull : c.value.isNull = false)
    (single : c.operator ≠ .member) (ps : Parameters) :
    let bound := ps.assign (Naming.placeholder m.column []) (m.stored c.value)
    c.compile r.schema ps =
      .ok (c.relation ⟨m, [], c.kind⟩ (.parameter bound.1 ((m.stored c.value).kind = .json))) bound.2 := by
  intro bound
  rw [c.compile_of_operand _ (Comparison.operand_of_dotless dotless resolved),
    c.condition_relation _ notNull single]
  rfl

/-- Filters and records bind values alike, and documents only meet documents. Where an operand is a
document, the arrays that it is compared with are bound as documents, the items of a list too, and their
placeholders are cast as the dialect demands it; elsewhere every value is bound as it is. A comparison of a
column that takes values binds what creating a record binds for it, under the same name: whichever comes
first, the second adds nothing and uses the first one's parameter, unless there is a NaN in the value. -/
theorem filters_bind_as_writes (d : Dialect) :
    (∀ (c : Comparison) (left : Operand), c.operand r.schema = .ok left →
      (left.isDocument = true ↔ c.MeetsDocuments left.mapping) ∧
      ∀ ps, ∃ condition final, c.compile r.schema ps = .ok condition final ∧
        c.KeepsDocuments left d ps final condition) ∧
    ∀ (c : Comparison) (m : Mapping), '.' ∉ c.property.toList → r.schema.resolve c.property = .ok m →
      m.isBound = true → c.value.isNull = false → c.operator ≠ .member →
      let base := Naming.placeholder m.column []
      let stored := m.stored c.value
      let condition (name : String) := c.relation ⟨m, [], c.kind⟩ (.parameter name (stored.kind = .json))
      (∀ ps, c.compile r.schema ps =
        .ok (condition (ps.assign base stored).1) (ps.assign base stored).2) ∧
      ∀ (record : Record) (ps : Parameters) (statement : Statement) (final : Parameters),
        (c.property, c.value) ∈ record.values → r.create record ps = .ok statement final →
        ∃ made mid, statement = .insert ⟨r.schema.table, made, none⟩ ∧
          ps.Reaches mid ∧ (mid.assign base stored).2.Reaches final ∧
          ⟨c.property, m, .parameter (mid.assign base stored).1⟩ ∈ made ∧
          ((c.value == c.value) = true →
            (∀ later, final.Reaches later →
              c.compile r.schema later = .ok (condition (mid.assign base stored).1) later) ∧
            ∀ before : Parameters, (before.assign base stored).2.Reaches ps →
              mid.assign base stored = ((before.assign base stored).1, mid)) := by
  constructor
  · intro c left resolved
    exact ⟨Comparison.isDocument_iff resolved, fun ps =>
      ⟨_, _, c.compile_of_operand left resolved ps, c.keepsDocuments_condition left d ps⟩⟩
  · intro c m dotless resolved isBound notNull single base stored condition
    have compiled := r.compile_column dotless resolved notNull single
    refine ⟨compiled, fun record ps statement final listed created => ?_⟩
    obtain ⟨made, _, ran, inserted⟩ := Binding.exists_of_bind_eq_ok created
    cases inserted
    obtain ⟨mid, reached, onward, member⟩ :=
      r.assigned_of_mem .insertion record (r.schema.get?_of_resolve resolved) isBound listed ran
    refine ⟨made, mid, rfl, reached, onward, member, fun self => ?_⟩
    -- The second search for the name passes what the first one passed.
    have storedSelf : (stored == stored) = true :=
      Operand.stored_beq_self ⟨m, [], c.kind⟩ ((Value.beq_self_iff _).1 self)
    constructor
    · intro later after
      have again := Parameters.assign_again storedSelf (onward.trans after)
      rw [compiled later, again]
    · intro before earlier
      exact Parameters.assign_again storedSelf (earlier.trans reached)

/-- A list with an array behind a null and a document, and an array that is written and then looked for. -/
theorem filters_bind_as_writes_attributes :
    let r : Repository := ⟨Sample.foos, "Foo"⟩
    let nested : Comparison :=
      ⟨.member, "Attributes.tags", .array [.null, .json .null, .array [.int 1]], false, false⟩
    let whole : Comparison := ⟨.eq, "Attributes", .array [.null], false, false⟩
    let m : Mapping := { Mapping.plain "Attributes" "attributes" with columnType := some .jsonb }
    (∃ left condition final, nested.operand r.schema = .ok left ∧ left.isDocument = true ∧
      nested.compile r.schema .empty = .ok condition final ∧
      final.entries = [("attributes_tags_1", .json .null),
        ("attributes_tags_2", .json (.array [.number (.integer 1)]))] ∧
      nested.KeepsDocuments left Dialect.postgres .empty final condition) ∧
    '.' ∉ whole.property.toList ∧ r.schema.resolve whole.property = .ok m ∧ m.isBound = true ∧
      whole.value.isNull = false ∧ whole.operator ≠ .member ∧
      (whole.property, whole.value) ∈ Sample.changes.values ∧ (whole.value == whole.value) = true ∧
      ∃ statement final condition, r.create Sample.changes .empty = .ok statement final ∧
        ∀ later, final.Reaches later → whole.compile r.schema later = .ok condition later := by
  intro r nested whole m
  obtain ⟨documents, alike⟩ := r.filters_bind_as_writes Dialect.postgres
  have dotless : '.' ∉ whole.property.toList := by decide
  have single : whole.operator ≠ .member := by decide
  have listed : (whole.property, whole.value) ∈ Sample.changes.values := by
    simp [whole, Sample.changes]
  constructor
  · have compiled : Comparison.compile Sample.foos ⟨.member, "Attributes.tags",
        .array [.null, .json .null, .array [.int 1]], false, false⟩ .empty = .ok _ _ := rfl
    have operand : Comparison.operand ⟨.member, "Attributes.tags",
        .array [.null, .json .null, .array [.int 1]], false, false⟩ Sample.foos = .ok _ := rfl
    obtain ⟨_, _, again, keeps⟩ := (documents nested _ operand).2 .empty
    cases compiled.symm.trans again
    exact ⟨_, _, _, operand, rfl, compiled, rfl, keeps⟩
  · have created : r.create Sample.changes .empty = .ok _ _ := rfl
    obtain ⟨_, _, _, _, _, _, shared⟩ :=
      (alike whole m dotless rfl rfl rfl single).2 Sample.changes .empty _ _ listed created
    exact ⟨dotless, rfl, rfl, rfl, single, listed, rfl, _, _, _, created, (shared rfl).1⟩

end Repository

end EntitySql
