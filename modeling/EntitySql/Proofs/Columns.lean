import Mathlib.Data.List.Nodup
import EntitySql.Proofs.Sample
import EntitySql.Proofs.Writing

/-! The columns that a statement lists when it writes a record. They are those of the record's properties,
so a column is listed twice exactly when two properties lead to it: nothing keeps schemas from that. -/

set_option autoImplicit false

namespace EntitySql

inductive Write where
  | create
  | upsert (policy : OnConflict)
  | update

/-- The part of the text that lists the columns, each with what it is set to. -/
def Write.text (d : Dialect) (table : String) (pairs : List (String × String)) : Write → String
  | .create | .upsert _ =>
    "INSERT INTO " ++ d.quoteIdentifier table
      ++ " (" ++ String.intercalate "," (pairs.map (·.1)) ++ ")"
      ++ " VALUES (" ++ String.intercalate "," (pairs.map (·.2)) ++ ")"
  | .update =>
    "UPDATE " ++ d.quoteIdentifier table
      ++ " SET " ++ String.intercalate "," (pairs.map fun pair => pair.1 ++ " = " ++ pair.2)

theorem Insertion.text_lists (i : Insertion) (d : Dialect) :
    i.text d =
      Write.create.text d i.table (i.assignments.map fun a => (a.column d, a.value d)) ++
        (i.conflict.map (·.text d)).getD "" := by
  unfold Insertion.text Write.text
  dsimp only
  rw [List.map_map, List.map_map]
  rfl

theorem Update.text_lists (u : Update) (d : Dialect) :
    u.text d =
      Write.update.text d u.table (u.assignments.map fun a => (a.column d, a.value d)) ++
        (" WHERE " ++ u.filter.text d none) := by
  unfold Update.text Write.text
  dsimp only
  rw [List.map_map, ← String.append_assoc]
  rfl

namespace Schema

variable (s : Schema)

theorem entries_cons_unmapped {property : String} (missing : s.columns.get? property = none)
    (value : Value) (rest : List (String × Value)) :
    s.entries ((property, value) :: rest) = s.entries rest := by
  have absent : s.columns.mappings.find? (·.property = property) = none := missing
  simp [entries, absent]

theorem properties_sublist (values : List (String × Value)) :
    ((s.entries values).map (·.property)).Sublist (values.map (·.1)) := by
  induction values with
  | nil => exact .refl _
  | cons entry rest ih =>
    obtain ⟨property, value⟩ := entry
    cases found : s.columns.get? property with
    | none =>
      rw [s.entries_cons_unmapped found]
      exact ih.cons property
    | some m =>
      rw [s.entries_cons found]
      exact ih.cons_cons property

end Schema

/-- Of entries for different properties, the columns differ unless two properties have one column. -/
theorem Entry.nodup_columns_iff {entries : List Entry} (distinct : (entries.map (·.property)).Nodup) :
    (entries.map (·.mapping.column)).Nodup ↔
      ∀ e ∈ entries, ∀ f ∈ entries, e.mapping.column = f.mapping.column → e.property = f.property := by
  rw [List.nodup_map_iff_inj_on distinct.of_map]
  constructor
  · intro apart e member f other same
    exact congrArg Entry.property (apart e member f other same)
  · intro apart e member f other same
    exact List.inj_on_of_nodup_map distinct member other (apart e member f other same)

namespace Repository

variable (r : Repository) (record : Record)

def write : Write → Binding Statement
  | .create => r.create record
  | .upsert policy => r.upsert record policy
  | .update => r.update record

def listed : Write → List Entry
  | .create | .upsert _ => r.inserted record
  | .update => (r.schema.entries record.values).filter (·.isUpdatable r.schema.key)

theorem listed_sublist (w : Write) : (r.listed record w).Sublist (r.schema.entries record.values) := by
  cases w <;> exact List.filter_sublist

theorem listed_ne_nil {w : Write} (insertion : w ≠ .update)
    (writable : ∃ e ∈ r.schema.entries record.values, e.mapping.readOnly = false) :
    r.listed record w ≠ [] := by
  obtain ⟨e, member, free⟩ := writable
  have inserted : e ∈ r.inserted record := List.mem_filter.2 ⟨member, by simp [free]⟩
  cases w with
  | create => exact List.ne_nil_of_mem inserted
  | upsert policy => exact List.ne_nil_of_mem inserted
  | update => exact absurd rfl insertion

variable {ps final : Parameters} {statement : Statement}

theorem update_of_ok (updated : r.update record ps = .ok statement final) :
    ∃ assignments mid filter, r.assignments .update record ps = .ok assignments mid ∧
      assignments.filter (·.isUpdatable r.schema.key) ≠ [] ∧
      statement = .update ⟨r.schema.table, assignments.filter (·.isUpdatable r.schema.key), filter⟩ := by
  unfold update at updated
  cases found : record.get? r.schema.key with
  | none =>
    rw [found] at updated
    cases updated
  | some key =>
    simp only [found] at updated
    obtain ⟨assignments, mid, ran, onward⟩ := Binding.exists_of_bind_eq_ok updated
    -- An update without columns would have failed.
    split at onward
    · cases onward
    · rename_i filled
      obtain ⟨filter, last, compiled, made⟩ := Binding.exists_of_bind_eq_ok onward
      cases made
      exact ⟨assignments, mid, filter, ran, by simpa using filled, rfl⟩

theorem write_lists {w : Write} (written : r.write record w ps = .ok statement final) (d : Dialect) :
    ∃ (assignments : List Assignment) (mid : Parameters) (more : String),
      List.Forall₂ (fun e a => Entry.Assigned e record mid a) (r.listed record w) assignments ∧
      (w = .update → assignments ≠ []) ∧
      statement.rawText d =
        w.text d r.schema.table (assignments.map fun a => (a.column d, a.value d)) ++ more := by
  cases w with
  | create =>
    obtain ⟨assignments, _, ran, made⟩ := Binding.exists_of_bind_eq_ok written
    cases made
    exact ⟨assignments, _, _, r.assigned_of_assignments .insertion record ran, by simp,
      Insertion.text_lists _ d⟩
  | upsert policy =>
    obtain ⟨assignments, _, ran, made⟩ := Binding.exists_of_bind_eq_ok written
    cases made
    exact ⟨assignments, _, _, r.assigned_of_assignments .insertion record ran, by simp,
      Insertion.text_lists _ d⟩
  | update =>
    obtain ⟨assignments, mid, filter, ran, filled, rfl⟩ := r.update_of_ok record written
    have assigned := r.forall₂_updatable record (r.assigned_of_assignments .update record ran)
    exact ⟨_, _, _, assigned, fun _ => filled, Update.text_lists _ d⟩

/-- What a statement lists when it writes a record without repeated properties, in a dialect whose quoting
keeps names apart: the columns of the properties that it writes, in their order. An update always lists a
column, and so does an insertion of a record with a property that is not read-only. A column is listed
once, unless two of the properties have the same one. -/
theorem columns_listed_once (distinct : (record.values.map (·.1)).Nodup) {d : Dialect}
    (injective : Function.Injective d.quoteIdentifier) {w : Write}
    (written : r.write record w ps = .ok statement final) :
    ∃ (pairs : List (String × String)) (more : String),
      statement.rawText d = w.text d r.schema.table pairs ++ more ∧
      pairs.map (·.1) = (r.listed record w).map (d.quoteIdentifier ·.mapping.column) ∧
      (w = .update → pairs ≠ []) ∧
      ((∃ e ∈ r.schema.entries record.values, e.mapping.readOnly = false) → pairs ≠ []) ∧
      ((pairs.map (·.1)).Nodup ↔ ∀ e ∈ r.listed record w, ∀ f ∈ r.listed record w,
        e.mapping.column = f.mapping.column → e.property = f.property) := by
  obtain ⟨assignments, mid, more, assigned, filled, text⟩ := r.write_lists record written d
  let pairs := assignments.map fun a => (a.column d, a.value d)
  have columns : pairs.map (·.1) = (r.listed record w).map (d.quoteIdentifier ·.mapping.column) := by
    have own := congrArg (List.map d.quoteIdentifier) (Entry.columns_of_assigned assigned)
    rw [List.map_map, List.map_map] at own
    rw [List.map_map]
    exact own
  have properties : ((r.listed record w).map (·.property)).Nodup :=
    (((r.listed_sublist record w).map _).trans (r.schema.properties_sublist _)).nodup distinct
  have updated (update : w = .update) : pairs ≠ [] := by
    simpa [pairs] using filled update
  refine ⟨pairs, more, text, columns, updated, fun writable => ?_, ?_⟩
  · by_cases update : w = .update
    · exact updated update
    · intro empty
      rw [empty] at columns
      exact r.listed_ne_nil record update writable (List.map_eq_nil_iff.1 columns.symm)
  · -- Quoting keeps columns apart, so only equal columns are written alike.
    have quoted : (r.listed record w).map (d.quoteIdentifier ·.mapping.column) =
        ((r.listed record w).map (·.mapping.column)).map d.quoteIdentifier := by
      rw [List.map_map]
      rfl
    rw [columns, quoted, List.nodup_map_iff injective]
    exact Entry.nodup_columns_iff properties

/-- One of the two properties is left out, and the other is the only one of its column here. -/
theorem columns_listed_once_bracketed :
    let r : Repository := ⟨Sample.shared, "Row"⟩
    let record : Record := ⟨[("Id", .int 1), ("Width", .int 3)]⟩
    (record.values.map (·.1)).Nodup ∧ Function.Injective Sample.bracketed.quoteIdentifier ∧
    ∃ statement final, r.write record (.upsert .update) .empty = .ok statement final ∧
      ∃ (pairs : List (String × String)) (more : String),
        statement.rawText Sample.bracketed =
          Write.text Sample.bracketed r.schema.table pairs (.upsert .update) ++ more ∧
        pairs.map (·.1) = ["[size]"] ∧ pairs ≠ [] ∧ (pairs.map (·.1)).Nodup := by
  intro r record
  have distinct : (record.values.map (·.1)).Nodup := by decide
  have written : r.write record (.upsert .update) .empty = .ok _ _ := rfl
  have writable : ∃ e ∈ r.schema.entries record.values, e.mapping.readOnly = false :=
    ⟨⟨"Width", .plain "Width" "size", .int 3⟩, .tail _ (.head _), rfl⟩
  have apart : ∀ e ∈ r.listed record (.upsert .update), ∀ f ∈ r.listed record (.upsert .update),
      e.mapping.column = f.mapping.column → e.property = f.property := by decide
  obtain ⟨pairs, more, text, columns, -, filled, once⟩ :=
    r.columns_listed_once record distinct Sample.bracketed_injective written
  exact ⟨distinct, Sample.bracketed_injective, _, _, written, pairs, more, text, columns, filled writable,
    once.2 apart⟩

/-- Two properties lead to one column, which is then listed twice. A record whose properties are all
read-only is inserted without a column. -/
theorem columns_listed_twice :
    let r : Repository := ⟨Sample.shared, "Row"⟩
    let record : Record := ⟨[("Id", .int 1), ("Size", .int 2), ("Width", .int 3)]⟩
    Function.Injective Dialect.postgres.quoteIdentifier ∧ (record.values.map (·.1)).Nodup ∧
      (∃ statement final, r.create record .empty = .ok statement final ∧
        statement.text Dialect.postgres = "INSERT INTO foos (size,size) VALUES (@size,@size_2)") ∧
      (∃ statement final, r.update record .empty = .ok statement final ∧
        statement.text Dialect.postgres =
          "UPDATE foos SET size = @size,size = @size_2 WHERE id = @id") ∧
      ∃ statement final, r.create ⟨[("Id", .int 1)]⟩ .empty = .ok statement final ∧
        statement.text Dialect.postgres = "INSERT INTO foos () VALUES ()" :=
  ⟨fun _ _ same => same, by decide, ⟨_, _, rfl, by decide +kernel⟩, ⟨_, _, rfl, by decide +kernel⟩, _, _, rfl,
    by decide +kernel⟩

end Repository

end EntitySql
