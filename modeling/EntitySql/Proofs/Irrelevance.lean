import EntitySql.Proofs.Independence

/-! What belongs to reading: joins, the alias of the table, the ordering, and expressions that are selected in
place of columns. Writing has no use for any of it. Only the filter of updates and deletions is compiled as
one of selections is, and what it compares is the column that the key's path begins with. -/

set_option autoImplicit false

namespace EntitySql

def Mapping.WritesAs (m n : Mapping) : Prop :=
  ∃ computed, n = { m with computed := computed }

section

variable (m : Mapping) (computed : Option String)

@[simp] theorem Mapping.writing_computed (purpose : Purpose) :
    { m with computed := computed }.writing purpose = m.writing purpose :=
  rfl

@[simp] theorem Mapping.stored_computed : { m with computed := computed }.stored = m.stored :=
  rfl

@[simp] theorem Mapping.isInsertOnly_computed : { m with computed := computed }.isInsertOnly = m.isInsertOnly :=
  rfl

end

/-- The two have the same table, the same key and the same mappings, up to what is read in place of columns,
and the column that the key's path begins with is read in the same way too. -/
structure Schema.WritesAs (s t : Schema) : Prop where
  table : t.table = s.table
  key : t.key = s.key
  mappings : List.Forall₂ Mapping.WritesAs s.columns.mappings t.columns.mappings
  keyColumn : t.columns.get? (Path.ofText s.key).property = s.columns.get? (Path.ofText s.key).property

theorem Sample.foos_writesAs_viewed : foos.WritesAs viewed where
  table := rfl
  key := rfl
  mappings := .cons ⟨_, rfl⟩ (.cons ⟨_, rfl⟩ (.cons ⟨_, rfl⟩ (.cons ⟨_, rfl⟩ .nil)))
  keyColumn := rfl

theorem ColumnMap.get?_of_writesAs {columns others : ColumnMap}
    (alike : List.Forall₂ Mapping.WritesAs columns.mappings others.mappings) (property : String) :
    (columns.get? property = none ∧ others.get? property = none) ∨
      ∃ m computed, columns.get? property = some m ∧
        others.get? property = some { m with computed := computed } := by
  obtain ⟨mappings⟩ := columns
  obtain ⟨mappings'⟩ := others
  simp only [get?] at alike ⊢
  induction alike with
  | nil => exact .inl ⟨rfl, rfl⟩
  | @cons m n rest rest' first _ ih =>
    obtain ⟨computed, rfl⟩ := first
    by_cases same : m.property = property
    · exact .inr ⟨m, computed, by simp [same], by simp [same]⟩
    · simpa [same] using ih

theorem Schema.WritesAs.resolve {s t : Schema} (alike : s.WritesAs t) (property : String) :
    (∃ e, s.resolve property = .error e ∧ t.resolve property = .error e) ∨
      ∃ m computed, s.resolve property = .ok m ∧ t.resolve property = .ok { m with computed := computed } := by
  unfold Schema.resolve
  rcases ColumnMap.get?_of_writesAs alike.mappings property with ⟨missing, missing'⟩ |
    ⟨m, computed, found, found'⟩
  · exact .inl ⟨.unmapped property, by rw [missing], by rw [missing']⟩
  · exact .inr ⟨m, computed, by rw [found], by rw [found']⟩

/-- A comparison sees nothing of a schema but what its path begins with. -/
theorem Comparison.compile_of_resolve {c : Comparison} {s t : Schema}
    (same : t.resolve c.path.property = s.resolve c.path.property) : c.compile t = c.compile s := by
  rw [compile, compile, operand, operand, same]

namespace Repository

section

variable {s t : Schema} (alike : s.WritesAs t) (entity : String) (d : Dialect)

include alike

theorem writeAssignmentsOf_of_writesAs (purpose : Purpose) (record : Record)
    (values : List (String × Value)) :
    writeAssignmentsOf ⟨t, entity⟩ d purpose record values =
      writeAssignmentsOf ⟨s, entity⟩ d purpose record values := by
  induction values with
  | nil => rfl
  | cons entry rest ih =>
    obtain ⟨property, value⟩ := entry
    rw [writeAssignmentsOf, writeAssignmentsOf, ih, alike.key]
    dsimp only
    rcases alike.resolve property with ⟨e, failed, failed'⟩ | ⟨m, computed, found, found'⟩
    · rw [failed, failed']
    · rw [found, found']
      simp only [Binding.ofExcept, pure_bind, Mapping.writing_computed, Mapping.stored_computed,
        Mapping.isInsertOnly_computed]

theorem insertionText_of_writesAs (written : List WrittenAssignment) :
    insertionText ⟨t, entity⟩ d written = insertionText ⟨s, entity⟩ d written := by
  unfold insertionText
  dsimp only
  rw [alike.table]

theorem keyColumn_of_writesAs : t.keyMapping.column = s.keyMapping.column := by
  -- The two mappings of the key may differ in what is read, not in the column.
  have key : t.resolve s.key = .ok t.keyMapping := alike.key ▸ t.resolve_key
  rcases alike.resolve s.key with ⟨e, failed, _⟩ | ⟨m, computed, found, found'⟩
  · rw [s.resolve_key] at failed
    cases failed
  · rw [s.resolve_key] at found
    rw [key] at found'
    cases found
    rw [Except.ok.inj found']

theorem conflictText_of_writesAs (policy : OnConflict) (written : List WrittenAssignment) :
    conflictText ⟨t, entity⟩ d policy written = conflictText ⟨s, entity⟩ d policy written := by
  unfold conflictText
  dsimp only
  rw [keyColumn_of_writesAs alike]

theorem writeKeyFilter_of_writesAs (key : Value) :
    writeKeyFilter ⟨t, entity⟩ d key = writeKeyFilter ⟨s, entity⟩ d key := by
  have predicate : keyPredicate ⟨t, entity⟩ key = keyPredicate ⟨s, entity⟩ key := by
    simp only [keyPredicate, alike.key]
  -- The path of the key begins with a column that both read in the same way.
  have resolved : t.resolve (keyComparison ⟨s, entity⟩ key).path.property =
      s.resolve (keyComparison ⟨s, entity⟩ key).path.property := by
    have property : (keyComparison ⟨s, entity⟩ key).path = Path.ofText s.key := rfl
    rw [Schema.resolve, Schema.resolve, property, alike.keyColumn]
  have compiled : (keyPredicate ⟨s, entity⟩ key).compile t = (keyPredicate ⟨s, entity⟩ key).compile s :=
    Comparison.compile_of_resolve resolved
  rw [writeKeyFilter_eq, writeKeyFilter_eq, predicate, compiled]

/-- Two schemas that differ only in what belongs to reading write alike, whatever the dialect: insertions,
updates and deletions have the same texts, fail with the same errors, and leave the same parameters. -/
theorem writes_ignore_reading :
    (∀ record, (·.text d) <$> create ⟨t, entity⟩ record = (·.text d) <$> create ⟨s, entity⟩ record) ∧
    (∀ record policy,
      (·.text d) <$> upsert ⟨t, entity⟩ record policy = (·.text d) <$> upsert ⟨s, entity⟩ record policy) ∧
    (∀ record, (·.text d) <$> update ⟨t, entity⟩ record = (·.text d) <$> update ⟨s, entity⟩ record) ∧
    ∀ key, (·.text d) <$> delete ⟨t, entity⟩ key = (·.text d) <$> delete ⟨s, entity⟩ key := by
  -- Written in one pass, the operations are made of pieces that are equal for both schemas.
  have filter := writeKeyFilter_of_writesAs alike entity d
  have made := writeAssignmentsOf_of_writesAs alike entity d
  refine ⟨fun record => ?_, fun record policy => ?_, fun record => ?_, fun key => ?_⟩
  · rw [← writeCreate_eq, ← writeCreate_eq]
    simp only [writeCreate, made, insertionText_of_writesAs alike]
  · rw [← writeUpsert_eq, ← writeUpsert_eq]
    simp only [writeUpsert, made, insertionText_of_writesAs alike, conflictText_of_writesAs alike]
  · rw [← writeUpdate_eq, ← writeUpdate_eq]
    simp only [writeUpdate, made, filter, alike.key, alike.table]
  · rw [← writeDelete_eq, ← writeDelete_eq]
    simp only [writeDelete, filter, alike.table]

end

/-- The two schemas are told apart as soon as something is read. -/
theorem writes_ignore_reading_viewed :
    Sample.foos.WritesAs Sample.viewed ∧
    let s : Repository := ⟨Sample.foos, "Foo"⟩
    let t : Repository := ⟨Sample.viewed, "Foo"⟩
    let d := Sample.bracketed
    t.getAll ≠ s.getAll ∧
    (∀ record, (·.text d) <$> t.create record = (·.text d) <$> s.create record) ∧
    (∀ record policy, (·.text d) <$> t.upsert record policy = (·.text d) <$> s.upsert record policy) ∧
    (∀ record, (·.text d) <$> t.update record = (·.text d) <$> s.update record) ∧
    ∀ key, (·.text d) <$> t.delete key = (·.text d) <$> s.delete key := by
  refine ⟨Sample.foos_writesAs_viewed, fun same => ?_, writes_ignore_reading Sample.foos_writesAs_viewed "Foo" _⟩
  have outcomes := congrFun same .empty
  rw [getAll_eq, getAll_eq] at outcomes
  injection outcomes with statements
  injection statements with selections
  have scopes : some "x" = none := congrArg Selection.scope selections
  cases scopes

end Repository

end EntitySql
