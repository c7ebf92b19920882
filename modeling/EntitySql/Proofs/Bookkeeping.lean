import Mathlib.Data.List.Nodup
import EntitySql.Proofs.Placeholders
import EntitySql.Proofs.Repetition
import EntitySql.Proofs.Writing

/-! What an update binds and what it prints. The value of the key is bound with the others although it is
not written, and once more for the filter. The second search ends at the name of the first, unless the
value is not recognised there, or not looked for. -/

set_option autoImplicit false

namespace EntitySql

namespace Parameters

/-- The name was chosen for the value, at some point on the way. -/
def Chosen (ps : Parameters) (base : String) (v : Value) (name : String) : Prop :=
  ∃ before : Parameters, (before.assign base v).1 = name ∧ (before.assign base v).2.Reaches ps

variable {ps qs : Parameters} {base name : String} {v : Value}

theorem chosen_assign (reached : (ps.assign base v).2.Reaches qs) : qs.Chosen base v (ps.assign base v).1 :=
  ⟨ps, rfl, reached⟩

theorem Chosen.holds (chosen : ps.Chosen base v name) : ps.Holds name v := by
  obtain ⟨before, rfl, reached⟩ := chosen
  exact reached.holds (before.get?_assign base v)

theorem Chosen.assign_again (chosen : ps.Chosen base v name) (self : (v == v) = true) :
    ps.assign base v = (name, ps) := by
  obtain ⟨before, rfl, reached⟩ := chosen
  exact Parameters.assign_again self reached

end Parameters

/-! ## What the assignments bind -/

namespace Entry

variable (e : Entry)

def setTo (name : String) : Assignment :=
  ⟨e.property, e.mapping, .parameter name⟩

def Chosen (ps : Parameters) (name : String) : Prop :=
  ps.Chosen (Naming.placeholder e.mapping.column []) (e.mapping.stored e.value) name

theorem assign?_update (record : Record) (ps : Parameters) :
    ∃ bound : List (Entry × String),
      bound.map (·.1) = [e].filter (·.mapping.isBound) ∧
      (e.assign? .update record ps).1.toList = bound.map (fun pair => pair.1.setTo pair.2) ∧
      (∀ name, name ∈ (e.assign? .update record ps).2.names ↔ name ∈ ps.names ∨ name ∈ bound.map (·.2)) ∧
      ∀ later, (e.assign? .update record ps).2.Reaches later →
        ∀ pair ∈ bound, pair.1.Chosen later pair.2 := by
  rcases e.assign?_cases .update record ps with ⟨_, unbound, same⟩ | ⟨_, taken, unbound, _, _⟩ |
    ⟨_, bound, _, same⟩
  · refine ⟨[], ?_⟩
    simp [unbound, same]
  · exact absurd taken (by simp [Mapping.takesPart, unbound])
  · let base := Naming.placeholder e.mapping.column []
    refine ⟨[(e, (ps.assign base (e.mapping.stored e.value)).1)], ?_, ?_, fun name => ?_, ?_⟩
    · simp [bound]
    · simp [same, setTo, base]
    · simpa [same] using ps.mem_names_assign base (e.mapping.stored e.value) name
    · intro later reached pair inside
      rw [same] at reached
      obtain rfl := List.mem_singleton.1 inside
      exact Parameters.chosen_assign reached

end Entry

namespace Repository

variable (r : Repository) (record : Record)

theorem assignmentsOf_update {values : List (String × Value)}
    (mapped : r.schema.firstUnmapped? values = none) (ps : Parameters) :
    ∃ (bound : List (Entry × String)) (final : Parameters),
      r.assignmentsOf .update record values ps =
        .ok (bound.map fun pair => pair.1.setTo pair.2) final ∧
      ps.Reaches final ∧
      bound.map (·.1) = (r.schema.entries values).filter (·.mapping.isBound) ∧
      (∀ name, name ∈ final.names ↔ name ∈ ps.names ∨ name ∈ bound.map (·.2)) ∧
      ∀ pair ∈ bound, pair.1.Chosen final pair.2 := by
  induction values generalizing ps with
  | nil => exact ⟨[], ps, rfl, .refl ps, rfl, by simp, by simp⟩
  | cons entry rest ih =>
    obtain ⟨property, value⟩ := entry
    cases found : r.schema.columns.get? property with
    | none =>
      rw [r.schema.firstUnmapped?_cons_unmapped found] at mapped
      cases mapped
    | some m =>
      rw [r.schema.firstUnmapped?_cons found] at mapped
      let e : Entry := ⟨property, m, value⟩
      obtain ⟨first, own, assigned, named, chosen⟩ := e.assign?_update record ps
      obtain ⟨others, final, ran, reached, entries, names, later⟩ :=
        ih mapped (e.assign? .update record ps).2
      -- A name that is chosen for the entry stays so, whatever the others bind.
      have onward := e.reaches_assign? .update record ps
      refine ⟨first ++ others, final, ?_, onward.trans reached, ?_, fun name => ?_, fun pair inside => ?_⟩
      · rw [r.assignmentsOf_cons .update record found]
        simp only [e] at ran assigned
        simp only [ran, assigned, List.map_append]
      · rw [r.schema.entries_cons found, List.map_append, own, entries, ← List.filter_append]
        rfl
      · rw [names, named, List.map_append, List.mem_append, or_assoc]
      · rcases List.mem_append.1 inside with early | late
        · exact chosen final reached pair early
        · exact later pair late

end Repository

/-! ## What the update prints -/

namespace Schema

variable (s : Schema)

theorem mem_entries {values : List (String × Value)} {e : Entry} (inside : e ∈ s.entries values) :
    (e.property, e.value) ∈ values ∧ s.columns.get? e.property = some e.mapping := by
  obtain ⟨⟨property, value⟩, listed, made⟩ := List.mem_filterMap.1 inside
  obtain ⟨m, found, rfl⟩ := Option.map_eq_some_iff.1 made
  exact ⟨listed, found⟩

/-- Where the properties are different, an entry of the key's is the one that the key is taken from. -/
theorem entry_of_key {record : Record} {key : Value} (distinct : (record.values.map (·.1)).Nodup)
    (found : record.get? s.key = some key) {e : Entry} (inside : e ∈ s.entries record.values)
    (own : e.property = s.key) : e.mapping = s.keyMapping ∧ e.value = key := by
  obtain ⟨listed, mapped⟩ := s.mem_entries inside
  rw [own] at listed mapped
  have keyMapped : s.columns.get? s.key = some s.keyMapping := (Option.some_get _).symm
  have first : (s.key, key) ∈ record.values := by
    obtain ⟨before, after, values, -⟩ := List.lookup_eq_some_iff.1 found
    simp [values]
  have same : (s.key, e.value) = (s.key, key) := List.inj_on_of_nodup_map distinct listed first rfl
  exact ⟨Option.some.inj (mapped.symm.trans keyMapped), congrArg Prod.snd same⟩

end Schema

namespace Repository

variable (r : Repository) (record : Record)

/-- All that was bound for an update is written, but for the key's own value. -/
theorem written_or_key {key : Value} (distinct : (record.values.map (·.1)).Nodup)
    (found : record.get? r.schema.key = some key) {bound : List (Entry × String)} {mid : Parameters}
    (entries : bound.map (·.1) = (r.schema.entries record.values).filter (·.mapping.isBound))
    (chosen : ∀ pair ∈ bound, pair.1.Chosen mid pair.2) {name : String} (inside : name ∈ bound.map (·.2)) :
    name ∈ (bound.filter (·.1.property ≠ r.schema.key)).map (·.2) ∨
      r.schema.keyMapping.isBound = true ∧
        mid.Chosen (Naming.placeholder r.schema.keyMapping.column []) (r.schema.keyMapping.stored key) name := by
  obtain ⟨pair, member, rfl⟩ := List.mem_map.1 inside
  by_cases own : pair.1.property = r.schema.key
  · have listed : pair.1 ∈ (r.schema.entries record.values).filter (·.mapping.isBound) := by
      rw [← entries]
      exact List.mem_map_of_mem member
    obtain ⟨entry, isBound⟩ := List.mem_filter.1 listed
    obtain ⟨mapping, value⟩ := r.schema.entry_of_key distinct found entry own
    have picked := chosen pair member
    rw [Entry.Chosen, mapping, value] at picked
    rw [mapping] at isBound
    exact .inr ⟨isBound, picked⟩
  · exact .inl (List.mem_map_of_mem (List.mem_filter.2 ⟨member, by simpa using own⟩))

/-- The filter finds the key's value again under the name that was chosen for it before, unless there is a
NaN in it. -/
theorem written_or_tested {key : Value} (distinct : (record.values.map (·.1)).Nodup)
    (found : record.get? r.schema.key = some key) {bound : List (Entry × String)} {mid : Parameters}
    (entries : bound.map (·.1) = (r.schema.entries record.values).filter (·.mapping.isBound))
    (chosen : ∀ pair ∈ bound, pair.1.Chosen mid pair.2)
    (fresh : ∀ name, name ∈ mid.names ↔ name ∈ bound.map (·.2)) {name : String} :
    let base := Naming.placeholder r.schema.keyMapping.column []
    let stored := r.schema.keyMapping.stored key
    name ∈ (mid.assign base stored).2.names →
      name ∈ (bound.filter (·.1.property ≠ r.schema.key)).map (·.2) ∨ name = (mid.assign base stored).1 ∨
      stored.hasNaN = true ∧ r.schema.keyMapping.isBound = true ∧
        (mid.assign base stored).2.Holds name stored := by
  intro base stored inside
  rcases (mid.mem_names_assign base stored name).1 inside with early | same
  · rcases r.written_or_key record distinct found entries chosen ((fresh name).1 early) with
      written | ⟨isBound, picked⟩
    · exact .inl written
    · cases plain : stored.hasNaN with
      | false =>
        have again := picked.assign_again ((Value.beq_self_iff _).2 plain)
        exact .inr (.inl (congrArg Prod.fst again).symm)
      | true => exact .inr (.inr ⟨rfl, isBound, (mid.reaches_assign base stored).holds picked.holds⟩)
  · exact .inr (.inl same)

theorem filter_isUpdatable_setTo {bound : List (Entry × String)} {entries : List Entry}
    (own : bound.map (·.1) = entries.filter (·.mapping.isBound)) (key : String) :
    (bound.map fun pair => pair.1.setTo pair.2).filter (·.isUpdatable key) =
      (bound.filter (·.1.property ≠ key)).map fun pair => pair.1.setTo pair.2 := by
  rw [List.filter_map]
  congr 1
  refine List.filter_congr fun pair member => ?_
  have listed : pair.1 ∈ entries.filter (·.mapping.isBound) := own ▸ List.mem_map_of_mem member
  have isBound := (List.mem_filter.1 listed).2
  simp only [Mapping.isBound, Bool.and_eq_true, Option.isNone_iff_eq_none] at isBound
  simp [Assignment.isUpdatable, Entry.setTo, Mapping.isInsertOnly, isBound.2]

theorem update_text_setTo (bound : List (Entry × String)) (filter : Condition) (d : Dialect) :
    (Statement.update ⟨r.schema.table, bound.map fun pair => pair.1.setTo pair.2, filter⟩).text d =
      Text.normalizeSpaces
        ("UPDATE " ++ d.quoteIdentifier r.schema.table ++
          " SET " ++ String.intercalate "," ((bound.map fun pair => (pair.1.mapping, pair.2)).map fun (m, name) =>
            d.quoteIdentifier m.column ++ " = " ++ m.placeholderText d name) ++
          " WHERE " ++ filter.text d none) := by
  have parts : (bound.map fun pair => pair.1.setTo pair.2).map (fun a => a.column d ++ " = " ++ a.value d) =
      (bound.map fun pair => (pair.1.mapping, pair.2)).map fun (m, name) =>
        d.quoteIdentifier m.column ++ " = " ++ m.placeholderText d name := by
    rw [List.map_map, List.map_map]
    rfl
  rw [← parts]
  rfl

theorem exists_bound_of_update (dotless : '.' ∉ r.schema.key.toList)
    (mapped : r.schema.firstUnmapped? record.values = none) {key : Value}
    (found : record.get? r.schema.key = some key) {statement : Statement} {final : Parameters}
    (updated : r.update record .empty = .ok statement final) :
    ∃ (bound : List (Entry × String)) (mid : Parameters),
      bound.map (·.1) = (r.schema.entries record.values).filter (·.mapping.isBound) ∧
      (∀ name, name ∈ mid.names ↔ name ∈ bound.map (·.2)) ∧
      (∀ pair ∈ bound, pair.1.Chosen mid pair.2) ∧
      statement = .update ⟨r.schema.table,
        (bound.filter (·.1.property ≠ r.schema.key)).map fun pair => pair.1.setTo pair.2,
        (r.keyCondition key mid).1⟩ ∧
      final = (r.keyCondition key mid).2 := by
  obtain ⟨bound, mid, ran, -, entries, names, chosen⟩ := r.assignmentsOf_update record mapped .empty
  have fresh : ∀ name, name ∈ mid.names ↔ name ∈ bound.map (·.2) := fun name => by
    simpa [Parameters.names, Parameters.empty] using names name
  rw [r.update_mapped record dotless found ran] at updated
  dsimp only at updated
  rw [filter_isUpdatable_setTo entries] at updated
  split at updated
  · cases updated
  · cases updated
    exact ⟨bound, mid, entries, fresh, chosen, rfl, rfl⟩

/-- An update binds what it prints. The text of an update from nothing consists of placeholders for
the columns written and of one for the key, unless the key is null. All of these are bound. All that is
bound is printed, except that a key which is null, or has a NaN in it, is bound under a name that need
not appear: the filter does not use a null, and does not recognise a NaN. -/
theorem update_binds_what_it_prints (dotless : '.' ∉ r.schema.key.toList)
    (distinct : (record.values.map (·.1)).Nodup) (mapped : r.schema.firstUnmapped? record.values = none)
    {statement : Statement} {final : Parameters} (updated : r.update record .empty = .ok statement final) :
    ∃ (key : Value) (written : List (Mapping × String)) (tested : Option String),
      record.get? r.schema.key = some key ∧
      (∀ d, ∃ test, r.schema.KeyTest d none final key tested test ∧
        statement.text d = Text.normalizeSpaces
          ("UPDATE " ++ d.quoteIdentifier r.schema.table ++
            " SET " ++ String.intercalate "," (written.map fun (m, name) =>
              d.quoteIdentifier m.column ++ " = " ++ m.placeholderText d name) ++
            " WHERE " ++ test)) ∧
      (∀ name ∈ written.map (·.2) ++ tested.toList, name ∈ final.names) ∧
      ∀ name ∈ final.names, name ∈ written.map (·.2) ++ tested.toList ∨
        r.schema.keyMapping.isBound = true ∧ ∃ stored, r.schema.keyMapping.Stores key stored ∧
          (key = .null ∨ stored.hasNaN = true) ∧ final.Holds name stored := by
  cases found : record.get? r.schema.key with
  | none =>
    rw [r.update_missing_key record found] at updated
    cases updated
  | some key =>
    obtain ⟨bound, mid, entries, fresh, chosen, rfl, rfl⟩ :=
      r.exists_bound_of_update record dotless mapped found updated
    let others := bound.filter (·.1.property ≠ r.schema.key)
    let written := others.map fun pair => (pair.1.mapping, pair.2)
    have printed : written.map (·.2) = others.map (·.2) := List.map_map
    have kept : ∀ name ∈ others.map (·.2), name ∈ mid.names := fun name inside =>
      (fresh name).2 (List.map_subset _ (List.filter_subset_self _) inside)
    have stores := r.schema.keyMapping.stores_stored key
    rcases r.keyCondition_cases key mid with ⟨null, same, test⟩ | ⟨given, same, test⟩
    -- The names in the filter: none, and the one that the key is bound under.
    · refine ⟨key, written, none, rfl, fun d => ⟨_, test _ d none, r.update_text_setTo ..⟩, ?_, ?_⟩
      · rw [same, printed, Option.toList_none, List.append_nil]
        exact kept
      · rw [same, printed, Option.toList_none, List.append_nil]
        intro name inside
        refine (r.written_or_key record distinct found entries chosen ((fresh name).1 inside)).imp_right ?_
        rintro ⟨isBound, picked⟩
        exact ⟨isBound, _, stores, .inl null, picked.holds⟩
    · let base := Naming.placeholder r.schema.keyMapping.column []
      let stored := r.schema.keyMapping.stored key
      refine ⟨key, written, some (mid.assign base stored).1, rfl, fun d => ?_, ?_, ?_⟩
      · rw [same]
        exact ⟨_, test _ (.refl _) d none, r.update_text_setTo ..⟩
      · rw [same, printed, Option.toList_some]
        intro name inside
        rw [List.mem_append, List.mem_singleton] at inside
        exact (mid.mem_names_assign base stored name).2 (inside.imp_left (kept name))
      · rw [same, printed, Option.toList_some]
        intro name inside
        rw [List.mem_append, List.mem_singleton]
        rcases r.written_or_tested record distinct found entries chosen fresh inside with
          written | tested | ⟨hasNaN, isBound, kept⟩
        · exact .inl (.inl written)
        · exact .inl (.inr tested)
        · exact .inr ⟨isBound, _, stores, .inr hasNaN, kept⟩

theorem update_binds_what_it_prints_twins :
    let r : Repository := ⟨Sample.twins, "Twin"⟩
    let record : Record := ⟨[("Other", .int 5), ("Id", .int 9)]⟩
    '.' ∉ r.schema.key.toList ∧ (record.values.map (·.1)).Nodup ∧
      r.schema.firstUnmapped? record.values = none ∧
      ∃ statement final, r.update record .empty = .ok statement final ∧
        statement.text Dialect.postgres = "UPDATE twins SET row id = @row_id WHERE row_id = @row_id_2" ∧
        final.names = ["row_id", "row_id_2"] ∧
        ∃ (key : Value) (written : List (Mapping × String)) (tested : Option String),
          record.get? r.schema.key = some key ∧
          (∀ d, ∃ test, r.schema.KeyTest d none final key tested test ∧
            statement.text d = Text.normalizeSpaces
              ("UPDATE " ++ d.quoteIdentifier r.schema.table ++
                " SET " ++ String.intercalate "," (written.map fun (m, name) =>
                  d.quoteIdentifier m.column ++ " = " ++ m.placeholderText d name) ++
                " WHERE " ++ test)) ∧
          (∀ name ∈ written.map (·.2) ++ tested.toList, name ∈ final.names) ∧
          ∀ name ∈ final.names, name ∈ written.map (·.2) ++ tested.toList ∨
            r.schema.keyMapping.isBound = true ∧ ∃ stored, r.schema.keyMapping.Stores key stored ∧
              (key = .null ∨ stored.hasNaN = true) ∧ final.Holds name stored := by
  intro r record
  have dotless : '.' ∉ r.schema.key.toList := by decide
  have distinct : (record.values.map (·.1)).Nodup := by decide
  have mapped : r.schema.firstUnmapped? record.values = none := by decide
  have updated : update ⟨Sample.twins, "Twin"⟩ ⟨[("Other", .int 5), ("Id", .int 9)]⟩ .empty = .ok _ _ := rfl
  exact ⟨dotless, distinct, mapped, _, _, updated, by decide +kernel, by decide +kernel,
    update_binds_what_it_prints ⟨Sample.twins, "Twin"⟩ record dotless distinct mapped updated⟩

/-- A key that is null is bound with the other values, and no placeholder is printed for it. -/
theorem update_binds_unprinted_key :
    ∃ statement final,
      update ⟨Sample.foos, "Foo"⟩ ⟨[("Id", .null), ("Size", .int 3)]⟩ .empty = .ok statement final ∧
        statement.text Dialect.postgres = "UPDATE foos SET size = @size WHERE id IS NULL" ∧
        final.names = ["id", "size"] :=
  ⟨_, _, rfl, by decide +kernel, by decide +kernel⟩

end Repository

end EntitySql
