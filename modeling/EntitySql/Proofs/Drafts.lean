import EntitySql.Proofs.Inference

/-! Which properties a schema under construction maps, and how its steps change that. A mapping that is added
takes the place of one for its property, but one that is changed where it stands may take the name of another
one: only then is a property mapped twice, and only the first of its mappings is found. -/

set_option autoImplicit false

namespace EntitySql

namespace ColumnMap

def properties (columns : ColumnMap) : List String :=
  columns.mappings.map Mapping.property

def IsDistinct (columns : ColumnMap) : Prop :=
  columns.properties.Nodup

variable {columns : ColumnMap} {property : String} {m : Mapping}

theorem get?_eq_none_iff : columns.get? property = none ↔ property ∉ columns.properties := by
  simp [get?, properties]

theorem isSome_get?_iff : (columns.get? property).isSome = true ↔ property ∈ columns.properties := by
  rw [Option.isSome_iff_ne_none, Ne, get?_eq_none_iff, not_not]

theorem exists_of_get? (found : columns.get? property = some m) :
    m.property = property ∧ ∃ before rest, columns.mappings = before ++ m :: rest ∧
      ∀ other ∈ before, other.property ≠ property := by
  obtain ⟨own, before, rest, shape, earlier⟩ := List.find?_eq_some_iff_append.1 found
  exact ⟨by simpa using own, before, rest, shape, by simpa using earlier⟩

theorem property_of_get? (found : columns.get? property = some m) : m.property = property :=
  (exists_of_get? found).1

theorem patchIn_append {before rest : List Mapping} (own : m.property = property)
    (earlier : ∀ other ∈ before, other.property ≠ property) (patch : Mapping → Mapping) :
    patchIn property patch (before ++ m :: rest) = before ++ patch m :: rest := by
  induction before with
  | nil => simp [patchIn, own]
  | cons other before ih =>
    obtain ⟨apart, further⟩ := List.forall_mem_cons.1 earlier
    simp [patchIn, apart, ih further]

theorem properties_patchIn (found : columns.get? property = some m) {change : Mapping → Mapping}
    (same : (change m).property = property) :
    (ColumnMap.mk (patchIn property change columns.mappings)).properties = columns.properties := by
  obtain ⟨own, before, rest, shape, earlier⟩ := exists_of_get? found
  unfold properties
  rw [shape, patchIn_append own earlier]
  simp [same, own]

/-- A mapping that is changed where it stands keeps the properties apart exactly if it keeps its own or takes
one that is not mapped. -/
theorem isDistinct_patchIn_iff (distinct : columns.IsDistinct) (found : columns.get? property = some m)
    (patch : Mapping → Mapping) :
    (ColumnMap.mk (patchIn property patch columns.mappings)).IsDistinct ↔
      (patch m).property = property ∨ (patch m).property ∉ columns.properties := by
  obtain ⟨own, before, rest, shape, earlier⟩ := exists_of_get? found
  unfold IsDistinct properties at distinct
  unfold IsDistinct properties
  rw [shape, List.map_append, List.map_cons, own, List.nodup_middle, List.nodup_cons] at distinct
  rw [shape, patchIn_append own earlier, List.map_append, List.map_append, List.map_cons, List.map_cons, own,
    List.nodup_middle, List.nodup_cons]
  by_cases same : (patch m).property = property
  · simpa [same] using distinct
  · simpa [same] using fun _ _ => distinct.2

theorem insertInto_eq_patchIn {mappings : List Mapping}
    (mapped : m.property ∈ mappings.map Mapping.property) :
    insertInto m mappings = patchIn m.property (fun _ => m) mappings := by
  induction mappings with
  | nil => cases mapped
  | cons other rest ih =>
    by_cases same : other.property = m.property
    · simp [insertInto, patchIn, same]
    · rw [List.map_cons, List.mem_cons] at mapped
      simp [insertInto, patchIn, same, ih (mapped.resolve_left (Ne.symm same))]

theorem properties_insert (columns : ColumnMap) (m : Mapping) :
    (columns.insert m).properties =
      if m.property ∈ columns.properties then columns.properties
      else columns.properties ++ [m.property] := by
  split
  · rename_i mapped
    obtain ⟨other, found⟩ := Option.isSome_iff_exists.1 (isSome_get?_iff.2 mapped)
    rw [insert, insertInto_eq_patchIn mapped]
    exact properties_patchIn found rfl
  · rename_i new
    have appended : (columns.insert m).mappings = columns.mappings ++ [m] := insertInto_new new
    simp [properties, appended]

theorem isDistinct_insert (distinct : columns.IsDistinct) (m : Mapping) :
    (columns.insert m).IsDistinct := by
  rw [IsDistinct, properties_insert]
  split
  · exact distinct
  · rename_i new
    rw [← List.concat_eq_append]
    exact (List.nodup_concat _ _).2 ⟨new, distinct⟩

theorem isDistinct_foldl_insert (distinct : columns.IsDistinct) (added : List Mapping) :
    (added.foldl insert columns).IsDistinct := by
  induction added generalizing columns with
  | nil => exact distinct
  | cons m rest ih => exact ih (isDistinct_insert distinct m)

theorem get?_of_mem (distinct : columns.IsDistinct) (member : m ∈ columns.mappings) :
    columns.get? m.property = some m := by
  cases found : columns.get? m.property with
  | none => exact absurd (List.mem_map_of_mem member) (get?_eq_none_iff.1 found)
  | some other =>
    obtain ⟨own, before, rest, shape, -⟩ := exists_of_get? found
    have listed : other ∈ columns.mappings := by simp [shape]
    rw [List.inj_on_of_nodup_map distinct listed member own]

end ColumnMap

def Sample.inferred : Draft :=
  Convention.infer {} (description.toEntity FieldType.kind)

def Sample.renaming : List Draft.Step :=
  [.configure "Missing" fun m => { m with property := "Id" },
    .configure "X2Y9" fun m => { m with property := "Notes" }, .map (.plain "TemplateKey" "key")]

namespace Draft

/-- A step that fails leaves the draft as it is. -/
def attempt (d : Draft) (step : Step) : Draft :=
  match d.apply step with
  | .ok next => next
  | .error _ => d

def attemptAll (d : Draft) (steps : List Step) : Draft :=
  steps.foldl attempt d

/-- The step gives a mapping the property of another one. -/
def Clashes (d : Draft) : Step → Prop
  | .configure property patch =>
    ∃ m ∈ d.columns.get? property, (patch m).property ≠ property ∧
      (patch m).property ∈ d.columns.properties
  | .map _ | .key _ | .table _ | .tableAlias _ | .join _ | .order _ | .reject _ => False

instance (d : Draft) : DecidablePred d.Clashes
  | .configure property patch =>
    inferInstanceAs (Decidable (∃ m ∈ d.columns.get? property, (patch m).property ≠ property ∧
      (patch m).property ∈ d.columns.properties))
  | .map _ | .key _ | .table _ | .tableAlias _ | .join _ | .order _ | .reject _ => instDecidableFalse

def KeepsApart (d : Draft) : List Step → Prop
  | [] => True
  | step :: rest => ¬ d.Clashes step ∧ (d.attempt step).KeepsApart rest

inductive IsInitial : Draft → Prop where
  | ofTable (table : String) : IsInitial (.ofTable table)
  | infer (options : Convention.Options) (entity : Entity) : IsInitial (Convention.infer options entity)

variable {d : Draft} {step : Step} {steps : List Step}

theorem IsInitial.isDistinct (initial : d.IsInitial) : d.columns.IsDistinct := by
  cases initial with
  | ofTable table => exact List.nodup_nil
  | infer options entity =>
    have empty : ColumnMap.empty.IsDistinct := List.nodup_nil
    exact ColumnMap.isDistinct_foldl_insert empty _

theorem attempt_configure_of_get? {property : String} {m : Mapping}
    (found : d.columns.get? property = some m) (patch : Mapping → Mapping) :
    (d.attempt (.configure property patch)).columns =
      ⟨ColumnMap.patchIn property patch d.columns.mappings⟩ := by
  simp [attempt, apply, ColumnMap.patch?, ColumnMap.contains, found]

theorem attempt_configure_of_unmapped {property : String} (missing : d.columns.get? property = none)
    (patch : Mapping → Mapping) : d.attempt (.configure property patch) = d := by
  simp [attempt, apply, ColumnMap.patch?, ColumnMap.contains, missing]

/-- After a step the properties are apart, as before, unless the step gives a mapping the property of
another one. -/
theorem isDistinct_attempt_iff (distinct : d.columns.IsDistinct) (step : Step) :
    (d.attempt step).columns.IsDistinct ↔ ¬ d.Clashes step := by
  -- Only a change to a mapping that is there can give it the property of another.
  cases step with
  | map m => exact iff_of_true (ColumnMap.isDistinct_insert distinct m) id
  | configure property patch =>
    cases found : d.columns.get? property with
    | none =>
      rw [attempt_configure_of_unmapped found]
      exact iff_of_true distinct (by simp [Clashes, found])
    | some m =>
      rw [attempt_configure_of_get? found, ColumnMap.isDistinct_patchIn_iff distinct found]
      simp [Clashes, found, or_iff_not_imp_left]
  | key | table | tableAlias | join | order | reject => exact iff_of_true distinct id

theorem isDistinct_attemptAll (distinct : d.columns.IsDistinct) (apart : d.KeepsApart steps) :
    (d.attemptAll steps).columns.IsDistinct := by
  induction steps generalizing d with
  | nil => exact distinct
  | cons step rest ih =>
    obtain ⟨first, further⟩ := apart
    exact ih ((isDistinct_attempt_iff distinct step).2 first) further

theorem attemptAll_of_run {last : Draft} (ran : d.run steps = .ok last) : d.attemptAll steps = last := by
  induction steps generalizing d with
  | nil =>
    cases ran
    rfl
  | cons step rest ih =>
    obtain ⟨next, applied, further⟩ := ok_of_bind ran
    have first : d.attempt step = next := by rw [attempt, applied]
    rw [attemptAll, List.foldl_cons, first]
    exact ih further

/-- In a schema that is built by steps, whether construction goes on after one that fails or stops there, no
property is mapped twice, and each mapping is the one that its property resolves to, if no step gives a
mapping the property of another one. After the first step that does, a property is mapped twice. -/
theorem properties_stay_distinct (initial : d.IsInitial) (apart : d.KeepsApart steps) :
    (∀ s, (d.attemptAll steps).build = .ok s ∨ (d.run steps >>= build) = .ok s →
      (s.columns.mappings.map Mapping.property).Nodup ∧
        ∀ m ∈ s.columns.mappings, s.resolve m.property = .ok m) ∧
    ∀ step, ((d.attemptAll steps).attempt step).columns.IsDistinct ↔
      ¬ (d.attemptAll steps).Clashes step := by
  have distinct := isDistinct_attemptAll initial.isDistinct apart
  refine ⟨fun s built => ?_, isDistinct_attempt_iff distinct⟩
  have columns : s.columns = (d.attemptAll steps).columns := by
    rcases built with built | ran
    · exact columns_of_build built
    · obtain ⟨last, taken, built⟩ := ok_of_bind ran
      rw [attemptAll_of_run taken]
      exact columns_of_build built
  rw [← columns] at distinct
  exact ⟨distinct, fun m member => by rw [Schema.resolve, ColumnMap.get?_of_mem distinct member]⟩

theorem properties_stay_distinct_renamed :
    Sample.inferred.IsInitial ∧ Sample.inferred.KeepsApart Sample.renaming ∧
      ∃ s, (Sample.inferred.attemptAll Sample.renaming).build = .ok s ∧
        s.columns.mappings.map Mapping.property = ["Id", "TemplateKey", "Notes"] ∧
        (s.columns.mappings.map Mapping.property).Nodup ∧
        ∀ m ∈ s.columns.mappings, s.resolve m.property = .ok m := by
  have initial : Sample.inferred.IsInitial := .infer _ _
  have apart : Sample.inferred.KeepsApart Sample.renaming := ⟨by decide, by decide, by decide, trivial⟩
  have built : (Sample.inferred.attemptAll Sample.renaming).build = .ok _ := rfl
  exact ⟨initial, apart, _, built, by decide, (properties_stay_distinct initial apart).1 _ (.inl built)⟩

/-- A mapping takes the property of another one. Both are selected, and only the first is found. -/
theorem properties_clash :
    let steps : List Step :=
      [.map (.plain "Id" "id"), .map (.plain "Size" "size"), .map (.plain "Width" "width"), .key "Id",
        .configure "Width" fun m => { m with property := "Size" }]
    (ofTable "foos").IsInitial ∧
      ∃ s, ((ofTable "foos").run steps >>= build) = .ok s ∧
        s.columns.mappings.map (fun m => (m.property, m.column)) =
          [("Id", "id"), ("Size", "size"), ("Size", "width")] ∧
        ¬ (s.columns.mappings.map Mapping.property).Nodup ∧
        ∃ m ∈ s.columns.mappings, ∃ found, s.resolve m.property = .ok found ∧
          m.column = "width" ∧ found.column = "size" := by
  intro steps
  have built : ((ofTable "foos").run steps >>= build) = .ok _ := rfl
  exact ⟨.ofTable _, _, built, by decide, by decide, ⟨_, .tail _ (.tail _ (.head _)), _, rfl, rfl, rfl⟩⟩

end Draft

end EntitySql
