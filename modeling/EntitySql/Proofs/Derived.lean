import EntitySql.Proofs.Bookkeeping
import EntitySql.Proofs.KeyChoice

/-! A schema inferred from a declaration fits the entities that are declared. Every property of theirs is
mapped, to a column that may be written and overwritten, and one of them is the key: so nothing can keep an
entity from being inserted, and only a lack of columns besides the key's can keep it from being updated. -/

set_option autoImplicit false

namespace EntitySql

/-! ## Records of declared entities -/

theorem Record.values_foldl_push {β : Type} (name : β → String) (value : β → Value) (pieces : List β)
    (record : Record) :
    (pieces.foldl (fun record b => record.push (name b) (value b)) record).values =
      record.values ++ pieces.map fun b => (name b, value b) := by
  induction pieces generalizing record with
  | nil => simp
  | cons b rest ih =>
    rw [List.foldl_cons, ih, Record.push, List.append_assoc, List.singleton_append, List.map_cons]

theorem Record.get?_eq_none_iff {record : Record} {property : String} :
    record.get? property = none ↔ property ∉ record.values.map (·.1) :=
  lookup_eq_none_iff

namespace Declaration

variable {α : Type}

def Description.record (d : Description α) (content : String → Value) : Record :=
  d.properties.foldl (fun record p => record.push p.name (content p.field)) .empty

theorem Description.properties_record (d : Description α) (content : String → Value) :
    (d.record content).values.map (·.1) = d.properties.map FieldProperty.name := by
  rw [record, Record.values_foldl_push, Record.empty, List.nil_append, List.map_map]
  rfl

theorem Description.properties_toEntity (d : Description α) (kind : α → Kind) :
    (d.toEntity kind).properties.map Property.name = d.properties.map FieldProperty.name := by
  rw [toEntity, List.map_map]
  rfl

end Declaration

/-! ## Columns that are inferred -/

namespace ColumnMap

theorem mem_insertInto {m n : Mapping} {mappings : List Mapping} (listed : m ∈ insertInto n mappings) :
    m = n ∨ m ∈ mappings := by
  induction mappings with
  | nil => exact .inl (List.mem_singleton.1 listed)
  | cons other rest ih =>
    rw [insertInto] at listed
    split at listed
    · exact (List.mem_cons.1 listed).imp_right (.tail other)
    · rcases List.mem_cons.1 listed with rfl | later
      · exact .inr (.head rest)
      · exact (ih later).imp_right (.tail other)

theorem mem_foldl_insert {m : Mapping} {added : List Mapping} {columns : ColumnMap}
    (listed : m ∈ (added.foldl insert columns).mappings) : m ∈ added ∨ m ∈ columns.mappings := by
  induction added generalizing columns with
  | nil => exact .inr listed
  | cons n rest ih =>
    rcases ih listed with later | earlier
    · exact .inl (.tail n later)
    · rcases mem_insertInto earlier with rfl | kept
      · exact .inl (.head rest)
      · exact .inr kept

end ColumnMap

namespace Schema

variable (s : Schema)

theorem firstUnmapped?_eq_none_iff {values : List (String × Value)} :
    s.firstUnmapped? values = none ↔ ∀ property ∈ values.map (·.1), property ∈ s.columns.properties := by
  simp [firstUnmapped?, ColumnMap.properties]

theorem properties_entries {values : List (String × Value)} (mapped : s.firstUnmapped? values = none) :
    (s.entries values).map (·.property) = values.map (·.1) := by
  induction values with
  | nil => rfl
  | cons entry rest ih =>
    obtain ⟨property, value⟩ := entry
    cases found : s.columns.get? property with
    | none =>
      rw [s.firstUnmapped?_cons_unmapped found] at mapped
      cases mapped
    | some m =>
      rw [s.firstUnmapped?_cons found] at mapped
      rw [s.entries_cons found, List.map_cons, List.map_cons, ih mapped]

def IsWritable : Prop :=
  ∀ m ∈ s.columns.mappings, m.readOnly = false ∧ m.onInsert = none

variable {s}

theorem IsWritable.isUpdatable_eq (writable : s.IsWritable) {values : List (String × Value)} {e : Entry}
    (inside : e ∈ s.entries values) (key : String) : e.isUpdatable key = decide (e.property ≠ key) := by
  obtain ⟨-, before, rest, shape, -⟩ := ColumnMap.exists_of_get? (s.mem_entries inside).2
  obtain ⟨written, overwritten⟩ := writable e.mapping (by simp [shape])
  simp [Entry.isUpdatable, written, overwritten]

theorem IsWritable.isEmpty_updatable_iff (writable : s.IsWritable) {values : List (String × Value)}
    (mapped : s.firstUnmapped? values = none) (key : String) :
    ((s.entries values).filter (·.isUpdatable key)).isEmpty = true ↔
      ∀ property ∈ values.map (·.1), property = key := by
  rw [List.isEmpty_iff, List.filter_eq_nil_iff, ← s.properties_entries mapped, List.forall_mem_map]
  refine forall₂_congr fun e inside => ?_
  rw [writable.isUpdatable_eq inside, decide_eq_true_iff, not_not]

end Schema

namespace Convention

variable {options : Options} {entity : Entity} {s : Schema}

theorem fits_of_schema (inferred : schema options entity [] = .ok s) :
    (∀ property, property ∈ s.columns.properties ↔ property ∈ entity.properties.map Property.name) ∧
      s.key ∈ entity.properties.map Property.name ∧ s.IsWritable := by
  obtain ⟨draft, ran, built⟩ := ok_of_bind inferred
  cases ran
  obtain ⟨-, columns, key⟩ := Draft.of_build built
  refine ⟨fun property => ?_, (keyProperty_eq_some_iff.1 key).mem, fun m listed => ?_⟩
  · rw [columns]
    exact mem_properties_infer
  · rw [columns] at listed
    rcases ColumnMap.mem_foldl_insert listed with added | absent
    · obtain ⟨p, -, rfl⟩ := List.mem_map.1 added
      exact ⟨rfl, rfl⟩
    · cases absent

end Convention

/-! ## Writing -/

namespace Repository

variable (r : Repository) (record : Record)

theorem create_of_mapped (mapped : r.schema.firstUnmapped? record.values = none) (ps : Parameters) :
    ∃ statement final, r.create record ps = .ok statement final := by
  obtain ⟨assignments, _, ran, -⟩ := r.assignmentsOf_mapped .insertion record mapped ps
  exact ⟨_, _, Binding.bind_of_ok ran _⟩

theorem upsert_of_mapped (mapped : r.schema.firstUnmapped? record.values = none) (policy : OnConflict)
    (ps : Parameters) : ∃ statement final, r.upsert record policy ps = .ok statement final := by
  obtain ⟨assignments, _, ran, -⟩ := r.assignmentsOf_mapped .insertion record mapped ps
  exact ⟨_, _, Binding.bind_of_ok ran _⟩

theorem update_cases (dotless : '.' ∉ r.schema.key.toList) {key : Value}
    (found : record.get? r.schema.key = some key) (mapped : r.schema.firstUnmapped? record.values = none)
    (ps : Parameters) :
    if ((r.schema.entries record.values).filter (·.isUpdatable r.schema.key)).isEmpty then
      ∃ final, r.update record ps = .error (.misconfigured (.nothingToUpdate r.entity)) final
    else ∃ statement final, r.update record ps = .ok statement final := by
  obtain ⟨assignments, _, ran, _, assigned⟩ := r.assignmentsOf_mapped .update record mapped ps
  have empty := isEmpty_of_forall₂ (r.forall₂_updatable record (assigned _ (.refl _)))
  have outcome := r.update_mapped record dotless found ran
  dsimp only at outcome
  rw [outcome, empty]
  split
  · exact ⟨_, rfl⟩
  · exact ⟨_, _, rfl⟩

end Repository

/-- Two fields have one name, with a dot in it, and one field is skipped. -/
def Sample.crowded : Declaration.Item FieldType :=
  ⟨"CrowdedEntity", "", [], .named
    [⟨"id", .scalar .int64, []⟩,
      ⟨"first", .scalar .text, [⟨"property", .arguments [⟨"rename", some (.text "Doc.Part")⟩]⟩]⟩,
      ⟨"cached", .scalar .text, [⟨"property", .arguments [⟨"skip", none⟩]⟩]⟩,
      ⟨"second", .scalar .text, [⟨"property", .arguments [⟨"rename", some (.text "Doc.Part")⟩]⟩]⟩]⟩

def Sample.crowdedDescription : Declaration.Description FieldType :=
  ⟨"CrowdedEntity", "CrowdedEntity", [⟨"Id", "id", .scalar .int64⟩, ⟨"Doc.Part", "first", .scalar .text⟩,
    ⟨"Doc.Part", "second", .scalar .text⟩]⟩

namespace Declaration

variable {α : Type}

/-- **A schema that is inferred fits.** Whatever a declaration skips or renames, if it is described and a
convention gives a schema for it, every entity can be inserted, whatever its fields contain and whatever
is bound, and whichever way a conflict is dealt with. It can be updated unless all the fields that are shown
have the name of the key, and then it is reported that there is nothing to update; this supposes that
there is no dot in the key's name, which could lead into a document. -/
theorem derived_entity_fits (kind : α → Kind) {item : Item α} {description : Description α}
    (described : describe item = .ok description) {options : Convention.Options} {s : Schema}
    (inferred : Convention.schema options (description.toEntity kind) [] = .ok s)
    (content : String → Value) (ps : Parameters) :
    let r : Repository := ⟨s, description.entity⟩
    let record := description.record content
    (∃ statement final, r.create record ps = .ok statement final) ∧
      (∀ policy, ∃ statement final, r.upsert record policy ps = .ok statement final) ∧
      ∃ fields, item.shape = .named fields ∧
        ('.' ∉ s.key.toList →
          if ∀ f ∈ shown fields, f.propertyName = s.key then
            ∃ final, r.update record ps = .error (.misconfigured (.nothingToUpdate description.entity)) final
          else ∃ statement final, r.update record ps = .ok statement final) := by
  intro r record
  obtain ⟨fields, shape, read⟩ := exists_fields_of_describe described
  obtain ⟨mappedIff, keyListed, writable⟩ := Convention.fits_of_schema inferred
  have names : record.values.map (·.1) = (description.toEntity kind).properties.map Property.name := by
    rw [description.properties_record, description.properties_toEntity]
  have mapped : s.firstUnmapped? record.values = none := by
    rw [s.firstUnmapped?_eq_none_iff, names]
    exact fun property => (mappedIff property).2
  refine ⟨r.create_of_mapped record mapped ps, fun policy => r.upsert_of_mapped record mapped policy ps,
    fields, shape, fun dotless => ?_⟩
  obtain ⟨key, found⟩ : ∃ key, record.get? s.key = some key := by
    rw [← Option.ne_none_iff_exists', Ne, Record.get?_eq_none_iff, not_not, names]
    exact keyListed
  -- All columns may be written, so only those of the key's name are left out.
  have bare : ((s.entries record.values).filter (·.isUpdatable s.key)).isEmpty = true ↔
      ∀ f ∈ shown fields, f.propertyName = s.key := by
    rw [writable.isEmpty_updatable_iff mapped, description.properties_record, eq_of_fieldProperties read,
      List.map_map, List.forall_mem_map]
    rfl
  exact (if_congr bare rfl rfl).mp (r.update_cases record dotless found mapped ps)

/-- Two fields share a column, whose property has a dot in its name, and both are written to it. -/
theorem derived_entity_fits_crowded :
    describe Sample.crowded = .ok Sample.crowdedDescription ∧
      ∃ s : Schema,
        Convention.schema {} (Sample.crowdedDescription.toEntity FieldType.kind) [] = .ok s ∧
          s.columns.mappings.map (fun m => (m.property, m.column)) = [("Id", "id"), ("Doc.Part", "doc._part")] ∧
          let r : Repository := ⟨s, "CrowdedEntity"⟩
          let record := Sample.crowdedDescription.record .text
          record.values = [("Id", .text "id"), ("Doc.Part", .text "first"), ("Doc.Part", .text "second")] ∧
            (∃ statement final, r.create record ⟨[]⟩ = .ok statement final) ∧
            (∃ statement final, r.upsert record .update ⟨[]⟩ = .ok statement final) ∧
            ∃ statement final, r.update record ⟨[]⟩ = .ok statement final := by
  have described : describe Sample.crowded = .ok Sample.crowdedDescription := rfl
  have inferred : Convention.schema {} (Sample.crowdedDescription.toEntity FieldType.kind) [] = .ok _ := rfl
  obtain ⟨created, upserted, fields, shape, updated⟩ :=
    derived_entity_fits FieldType.kind described inferred .text ⟨[]⟩
  cases shape
  refine ⟨described, _, inferred, by decide, rfl, created, upserted .update, ?_⟩
  have other := updated (by decide)
  rwa [if_neg (by decide)] at other

end Declaration

end EntitySql
