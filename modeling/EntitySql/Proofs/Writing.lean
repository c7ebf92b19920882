import EntitySql.Proofs.Assignments
import EntitySql.Proofs.Gaps
import EntitySql.Proofs.KeyFilter

/-! Statements that write a record. Columns and what they are set to stay together from the record to the
text, in the order of the record, and every placeholder stands for the value it was made for. -/

set_option autoImplicit false

namespace EntitySql

namespace Entry

variable (e : Entry) (d : Dialect)

def Placed (ps : Parameters) (text : String) : Prop :=
  ∃ name, e.Held ps name ∧ text = e.mapping.placeholderText d name

/-- The text is what an insertion writes for the entry: the expression that is generated from the whole
record, if the column has one, or else a placeholder. -/
def Expressed (record : Record) (ps : Parameters) (text : String) : Prop :=
  match e.mapping.onInsert with
  | some generator => text = generator record
  | none => e.Placed d ps text

variable {record : Record} {ps : Parameters} {a : Assignment}

theorem Assigned.column (assigned : e.Assigned record ps a) :
    a.column d = d.quoteIdentifier e.mapping.column := by
  rw [Assignment.column, assigned.mapping]

theorem Assigned.isUpdatable_iff (key : String) (assigned : e.Assigned record ps a) :
    (e.property ≠ key && e.mapping.onInsert.isNone) = true ↔ a.isUpdatable key = true := by
  rw [Assignment.isUpdatable, assigned.property, assigned.mapping, Mapping.isInsertOnly, Option.not_isSome]

theorem Assigned.expressed (assigned : e.Assigned record ps a) : e.Expressed d record ps (a.value d) := by
  have source := assigned.source
  unfold Expressed
  cases generated : e.mapping.onInsert with
  | some generator =>
    rw [generated] at source
    rw [Assignment.value, source]
  | none =>
    rw [generated] at source
    obtain ⟨name, named, held⟩ := source
    refine ⟨name, held, ?_⟩
    rw [Assignment.value, named, assigned.mapping]
    rfl

theorem Expressed.placed {text : String} (expressed : e.Expressed d record ps text)
    (plain : e.mapping.onInsert = none) : e.Placed d ps text := by
  rwa [Expressed, plain] at expressed

end Entry

theorem Entry.columns_of_assigned {record : Record} {ps : Parameters} {entries : List Entry}
    {assignments : List Assignment}
    (assigned : List.Forall₂ (fun e a => Entry.Assigned e record ps a) entries assignments) :
    assignments.map (·.mapping.column) = entries.map (·.mapping.column) := by
  induction assigned with
  | nil => rfl
  | cons first _ ih => rw [List.map_cons, List.map_cons, ih, first.mapping]

theorem isEmpty_of_forall₂ {α β : Type} {R : α → β → Prop} {xs : List α} {ys : List β}
    (related : List.Forall₂ R xs ys) : xs.isEmpty = ys.isEmpty := by
  cases related <;> rfl

def Entry.isUpdatable (e : Entry) (key : String) : Bool :=
  e.property ≠ key && !e.mapping.readOnly && e.mapping.onInsert.isNone

theorem Entry.onInsert_of_isUpdatable {e : Entry} {key : String} (updatable : e.isUpdatable key = true) :
    e.mapping.onInsert = none := by
  simp only [isUpdatable, Bool.and_eq_true, Option.isNone_iff_eq_none] at updatable
  exact updatable.2

namespace Repository

variable (r : Repository) (record : Record)

def inserted : List Entry :=
  (r.schema.entries record.values).filter fun e => !e.mapping.readOnly

/-- A record is inserted unless one of its properties is not mapped, and then the first such property is
reported. Each value whose column is not read-only gives one column and one expression, at the same place
in their lists. Nothing is bound but the values of columns that are neither read-only nor generated. -/
theorem create_keeps_columns_and_values (ps : Parameters) :
    match r.schema.firstUnmapped? record.values with
    | some property => ∃ final, r.create record ps = .error (.unmapped property) final
    | none =>
      ∃ statement final, r.create record ps = .ok statement final ∧
        (∃ bound, List.Forall₂ Entry.Binds ((r.schema.entries record.values).filter (·.mapping.isBound)) bound ∧
          final = ps.assignAll bound) ∧
        ∀ d, ∃ pairs : List (String × String),
          List.Forall₂
            (fun e pair => pair.1 = d.quoteIdentifier e.mapping.column ∧ e.Expressed d record final pair.2)
            ((r.schema.entries record.values).filter fun e => !e.mapping.readOnly) pairs ∧
          Text.Respaced
            ("INSERT INTO " ++ d.quoteIdentifier r.schema.table ++
              " (" ++ String.intercalate "," (pairs.map (·.1)) ++ ")" ++
              " VALUES (" ++ String.intercalate "," (pairs.map (·.2)) ++ ")")
            (statement.text d) := by
  split
  · rename_i property unmapped
    obtain ⟨final, failed⟩ := r.assignmentsOf_unmapped .insertion record unmapped ps
    exact ⟨final, Binding.bind_of_error failed _⟩
  · rename_i mapped
    obtain ⟨assignments, bound, ran, binds, assigned⟩ :=
      r.assignmentsOf_mapped .insertion record mapped ps
    refine ⟨.insert ⟨r.schema.table, assignments, none⟩, _, Binding.bind_of_ok ran _, ⟨bound, binds, rfl⟩,
      fun d => ?_⟩
    refine ⟨assignments.map fun a => (a.column d, a.value d), ?_, ?_⟩
    · rw [List.forall₂_map_right_iff]
      exact (assigned _ (.refl _)).imp fun e a assigned => ⟨assigned.column e d, assigned.expressed e d⟩
    · refine Text.respaced_iff.2 (congrArg Text.normalizeSpaces ?_)
      rw [List.map_map, List.map_map]
      exact String.append_empty

theorem update_missing_key (missing : record.get? r.schema.key = none) (ps : Parameters) :
    r.update record ps = .error (.misconfigured (.missingKeyValue r.entity r.schema.key)) ps := by
  simp only [update, missing]
  rfl

theorem update_unmapped {key : Value} (found : record.get? r.schema.key = some key) {property : String}
    (unmapped : r.schema.firstUnmapped? record.values = some property) (ps : Parameters) :
    ∃ final, r.update record ps = .error (.unmapped property) final := by
  obtain ⟨final, failed⟩ := r.assignmentsOf_unmapped .update record unmapped ps
  refine ⟨final, ?_⟩
  simp only [update, found]
  exact Binding.bind_of_error failed _

theorem update_mapped (dotless : '.' ∉ r.schema.key.toList) {key : Value}
    (found : record.get? r.schema.key = some key) {ps mid : Parameters} {assignments : List Assignment}
    (ran : r.assignments .update record ps = .ok assignments mid) :
    r.update record ps =
      let updatable := assignments.filter (·.isUpdatable r.schema.key)
      if updatable.isEmpty then .error (.misconfigured (.nothingToUpdate r.entity)) mid
      else .ok (.update ⟨r.schema.table, updatable, (r.keyCondition key mid).1⟩)
        (r.keyCondition key mid).2 := by
  simp only [update, found]
  refine (Binding.bind_of_ok ran _).trans ?_
  -- Resolving the key cannot fail any more, so only an empty list of columns does.
  split
  · rfl
  · exact Binding.bind_of_ok (r.compile_keyPredicate key dotless mid) _

theorem forall₂_updatable {entries : List Entry} {assignments : List Assignment} {ps : Parameters}
    (assigned : List.Forall₂ (fun e a => Entry.Assigned e record ps a)
      (entries.filter (·.mapping.takesPart .update)) assignments) :
    List.Forall₂ (fun e a => Entry.Assigned e record ps a) (entries.filter (·.isUpdatable r.schema.key))
      (assignments.filter (·.isUpdatable r.schema.key)) := by
  have both : (fun e : Entry => (decide (e.property ≠ r.schema.key) && e.mapping.onInsert.isNone) &&
      e.mapping.takesPart .update) = (·.isUpdatable r.schema.key) := by
    funext e
    simp only [Entry.isUpdatable, Mapping.takesPart, Mapping.isBound]
    cases e.mapping.readOnly <;> cases e.mapping.onInsert.isNone <;> simp
  -- Two filters in a row: what takes part in an update, and what of it may be overwritten.
  rw [← both, ← List.filter_filter]
  exact List.rel_filter (fun e a assigned => assigned.isUpdatable_iff e r.schema.key) assigned

/-- Nothing that may be updated is generated, so all of it is written by placeholders. -/
theorem forall₂_placed {key : String} {entries : List Entry} {assignments : List Assignment}
    {ps : Parameters}
    (assigned : List.Forall₂ (fun e a => Entry.Assigned e record ps a)
      (entries.filter (·.isUpdatable key)) assignments) (d : Dialect) :
    List.Forall₂
      (fun e a => a.column d = d.quoteIdentifier e.mapping.column ∧ e.Placed d ps (a.value d))
      (entries.filter (·.isUpdatable key)) assignments := by
  have plain : ∀ e ∈ entries.filter (·.isUpdatable key), e.mapping.onInsert = none :=
    fun e member => Entry.onInsert_of_isUpdatable (List.mem_filter.1 member).2
  exact ((List.forall₂_and_left _ _).2 ⟨plain, assigned⟩).imp fun e a both =>
    ⟨both.2.column e d, (both.2.expressed e d).placed e d both.1⟩

/-- An update needs a value for the key, then a mapping for each property, then a column to write, and
reports the first of these that it lacks. With them it succeeds. Each value that is neither the key's nor
of a column left alone gives one assignment, in the order of the record: its column, and a placeholder
that stands for it. The filter compares the key's own column with the first value of the key. -/
theorem update_writes_row (dotless : '.' ∉ r.schema.key.toList) (ps : Parameters) :
    match record.values.lookup r.schema.key with
    | none =>
      ∃ final, r.update record ps = .error (.misconfigured (.missingKeyValue r.entity r.schema.key)) final
    | some key =>
      match r.schema.firstUnmapped? record.values with
      | some property => ∃ final, r.update record ps = .error (.unmapped property) final
      | none =>
        let updatable := (r.schema.entries record.values).filter (·.isUpdatable r.schema.key)
        if updatable.isEmpty then
          ∃ final, r.update record ps = .error (.misconfigured (.nothingToUpdate r.entity)) final
        else
          ∃ statement final, r.update record ps = .ok statement final ∧
            ∀ d, ∃ (pairs : List (String × String)) (name : Option String) (test : String),
              List.Forall₂
                (fun e pair => pair.1 = d.quoteIdentifier e.mapping.column ∧ e.Placed d final pair.2)
                updatable pairs ∧
              r.schema.KeyTest d none final key name test ∧
              Text.Respaced
                ("UPDATE " ++ d.quoteIdentifier r.schema.table ++
                  " SET " ++ String.intercalate "," (pairs.map fun pair => pair.1 ++ " = " ++ pair.2) ++
                  " WHERE " ++ test)
                (statement.text d) := by
  split
  · rename_i missing
    exact ⟨ps, r.update_missing_key record missing ps⟩
  · rename_i key found
    split
    · rename_i property unmapped
      exact r.update_unmapped record found unmapped ps
    · rename_i mapped
      obtain ⟨assignments, bound, ran, _, assigned⟩ := r.assignmentsOf_mapped .update record mapped ps
      let mid := ps.assignAll bound
      -- The key is bound last, which leaves what the assignments refer to as it is.
      have reached : mid.Reaches (r.keyCondition key mid).2 :=
        (r.keyComparison key).reaches_condition _ mid
      have updated := r.forall₂_updatable record (assigned _ reached)
      have empty : ((r.schema.entries record.values).filter (·.isUpdatable r.schema.key)).isEmpty =
          (assignments.filter (·.isUpdatable r.schema.key)).isEmpty := isEmpty_of_forall₂ updated
      have outcome := r.update_mapped record dotless found ran
      dsimp only at outcome ⊢
      rw [outcome, empty]
      split
      · exact ⟨_, rfl⟩
      · refine ⟨_, _, rfl, fun d => ?_⟩
        obtain ⟨name, test⟩ := r.exists_keyTest key (.refl (r.keyCondition key mid).2) d none
        refine ⟨(assignments.filter (·.isUpdatable r.schema.key)).map fun a => (a.column d, a.value d), name, _,
          ?_, test, ?_⟩
        · rw [List.forall₂_map_right_iff]
          exact forall₂_placed record updated d
        · refine Text.respaced_iff.2 (congrArg Text.normalizeSpaces ?_)
          simp only [Statement.rawText, Update.text, commaSeparated, List.map_map, Function.comp_def, mid]

/-- A column that is given twice is written twice, and its placeholder takes other names where its own is
in use. -/
theorem update_writes_row_twice :
    let r : Repository := ⟨Sample.foos, "Foo"⟩
    let ps : Parameters := ⟨[("size", .int 5)]⟩
    '.' ∉ r.schema.key.toList ∧
      ∃ statement final, r.update Sample.changes ps = .ok statement final ∧
        final.names = ["size", "size_2", "id", "size_3", "attributes"] ∧
        ∀ d, ∃ (pairs : List (String × String)) (name : Option String) (test : String),
          List.Forall₂
            (fun e pair => pair.1 = d.quoteIdentifier e.mapping.column ∧ e.Placed d final pair.2)
            ((r.schema.entries Sample.changes.values).filter (·.isUpdatable r.schema.key)) pairs ∧
          r.schema.KeyTest d none final (.int 9) name test ∧
          Text.Respaced
            ("UPDATE " ++ d.quoteIdentifier r.schema.table ++
              " SET " ++ String.intercalate "," (pairs.map fun pair => pair.1 ++ " = " ++ pair.2) ++
              " WHERE " ++ test)
            (statement.text d) := by
  have dotless : '.' ∉ Sample.foos.key.toList := by decide
  have ran : update ⟨Sample.foos, "Foo"⟩ Sample.changes ⟨[("size", .int 5)]⟩ = .ok _ _ := rfl
  obtain ⟨statement, final, outcome, written⟩ :=
    update_writes_row ⟨Sample.foos, "Foo"⟩ Sample.changes dotless ⟨[("size", .int 5)]⟩
  cases ran.symm.trans outcome
  exact ⟨dotless, _, _, ran, by decide, written⟩

end Repository

end EntitySql
