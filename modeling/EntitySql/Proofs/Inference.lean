import EntitySql.Convention
import EntitySql.Proofs.Casing
import EntitySql.Proofs.Sample

/-! From the fields of a declaration to the columns of the schema that a convention infers. A field's name
becomes the name of a property, and that name the name of a column; where the fields are named in snake
case and keep their names, the column is called as the field is. -/

set_option autoImplicit false

namespace EntitySql

theorem ok_of_bind {ε α β : Type} {x : Except ε α} {f : α → Except ε β} {b : β}
    (ran : (x >>= f) = .ok b) : ∃ a, x = .ok a ∧ f a = .ok b := by
  cases x with
  | error e => cases ran
  | ok a => exact ⟨a, rfl, ran⟩

namespace Declaration

variable {α : Type}

/-! ## The attributes of a field -/

def Attribute.told (a : Attribute) : List Argument :=
  match a.body with
  | .arguments args => if a.path = "property" then args else []
  | .bare | .assigned => []

def Field.told (f : Field α) : List Argument :=
  f.attributes.flatMap Attribute.told

def Field.isSkipped (f : Field α) : Bool :=
  f.told.any (·.path = "skip")

def Field.isRenamed (f : Field α) : Bool :=
  f.told.any (·.path = "rename")

def Argument.newName? (a : Argument) : Option String :=
  if a.path = "rename" then a.text.toOption else none

def Field.newNames (f : Field α) : List String :=
  f.told.filterMap Argument.newName?

theorem Field.newNames_unrenamed {f : Field α} (unrenamed : f.isRenamed = false) : f.newNames = [] := by
  rw [Field.isRenamed, List.any_eq_false] at unrenamed
  rw [Field.newNames, List.filterMap_eq_nil_iff]
  intro a told
  have kept : a.path ≠ "rename" := by simpa using unrenamed a told
  exact if_neg kept

/-- The marks after arguments: they are the ones before, with what the arguments say. The last name stands. -/
structure Marks.Adds (before after : Marks) (args : List Argument) : Prop where
  skip : after.skip = (before.skip || args.any (·.path = "skip"))
  rename : after.rename = ((args.filterMap Argument.newName?).getLast?).or before.rename

theorem Marks.Adds.nil (marks : Marks) : marks.Adds marks [] where
  skip := by simp
  rename := rfl

theorem Marks.Adds.append {first mid last : Marks} {args more : List Argument}
    (start : first.Adds mid args) (next : mid.Adds last more) : first.Adds last (args ++ more) where
  skip := by rw [next.skip, start.skip, List.any_append, Bool.or_assoc]
  rename := by
    rw [next.rename, start.rename, List.filterMap_append, List.getLast?_append, Option.or_assoc]

theorem adds_of_readPropertyArgument {before after : Marks} {a : Argument}
    (read : readPropertyArgument before a = .ok after) : before.Adds after [a] := by
  unfold readPropertyArgument at read
  by_cases skips : a.path = "skip"
  · rw [if_pos skips] at read
    split at read
    · cases read
    · cases read
      exact ⟨by simp [skips], by simp [Argument.newName?, skips]⟩
  · rw [if_neg skips] at read
    by_cases renames : a.path = "rename"
    · rw [if_pos renames] at read
      obtain ⟨name, given, named⟩ := ok_of_bind read
      cases named
      have last : a.newName? = some name := by rw [Argument.newName?, if_pos renames, given]; rfl
      exact ⟨by simp [skips], by simp [last]⟩
    · rw [if_neg renames] at read
      cases read

theorem adds_of_foldlM {β : Type} (step : Marks → β → Except Fault Marks) (told : β → List Argument)
    (each : ∀ before after b, step before b = .ok after → Marks.Adds before after (told b))
    {pieces : List β} {before after : Marks} (ran : pieces.foldlM step before = .ok after) :
    before.Adds after (pieces.flatMap told) := by
  induction pieces generalizing before with
  | nil =>
    cases ran
    exact .nil _
  | cons b rest ih =>
    rw [List.foldlM_cons] at ran
    obtain ⟨mid, first, others⟩ := ok_of_bind ran
    exact (each _ mid b first).append (ih others)

theorem adds_of_readPropertyAttribute {before after : Marks} {a : Attribute}
    (read : readPropertyAttribute before a = .ok after) : before.Adds after a.told := by
  unfold readPropertyAttribute at read
  split at read
  · obtain ⟨args, given, ran⟩ := ok_of_bind read
    have own : a.path = "property" := by simp_all
    have told : a.told = args := by
      unfold Attribute.arguments at given
      split at given <;> cases given
      simp [Attribute.told, *]
    rw [told, ← List.flatMap_singleton' args]
    exact adds_of_foldlM readPropertyArgument (fun a => [a]) (fun _ _ _ => adds_of_readPropertyArgument) ran
  · have silent : a.told = [] := by
      unfold Attribute.told
      split <;> simp_all
    cases read
    rw [silent]
    exact .nil before

/-! ## The properties of a declaration -/

def Field.propertyName (f : Field α) : String :=
  f.newNames.getLast?.getD (Naming.pascalCase f.name)

def Field.toProperty (f : Field α) : FieldProperty α :=
  ⟨f.propertyName, f.name, f.type⟩

def Field.property (f : Field α) : FieldProperty α :=
  ⟨Naming.pascalCase f.name, f.name, f.type⟩

theorem Field.toProperty_unrenamed {f : Field α} (unrenamed : f.isRenamed = false) :
    f.toProperty = f.property := by
  rw [Field.toProperty, Field.propertyName, Field.newNames_unrenamed unrenamed]
  rfl

theorem eq_of_fieldProperty {f : Field α} {found : Option (FieldProperty α)}
    (read : fieldProperty f = .ok found) : found = if f.isSkipped then none else some f.toProperty := by
  obtain ⟨marks, ran, rest⟩ := ok_of_bind read
  have adds : Marks.Adds {} marks f.told :=
    adds_of_foldlM readPropertyAttribute Attribute.told (fun _ _ _ => adds_of_readPropertyAttribute) ran
  have skip : marks.skip = f.isSkipped := by simpa [Field.isSkipped] using adds.skip
  have rename : marks.rename = f.newNames.getLast? := by simpa [Field.newNames] using adds.rename
  rw [skip, rename] at rest
  split at rest <;> cases rest
  · rw [if_pos ‹_›]
  · rw [if_neg ‹_›]
    rfl

def shown (fields : List (Field α)) : List (Field α) :=
  fields.filter (!·.isSkipped)

theorem eq_of_fieldProperties {fields : List (Field α)} {properties : List (FieldProperty α)}
    (read : fieldProperties fields = .ok properties) :
    properties = (shown fields).map Field.toProperty := by
  induction fields generalizing properties with
  | nil =>
    cases read
    rfl
  | cons f rest ih =>
    obtain ⟨found, first, more⟩ := ok_of_bind read
    obtain ⟨others, ran, done⟩ := ok_of_bind more
    cases done
    rw [eq_of_fieldProperty first, ih ran]
    cases skipped : f.isSkipped <;> simp [shown, skipped]

theorem fieldProperties_unrenamed {fields : List (Field α)} {properties : List (FieldProperty α)}
    (unrenamed : ∀ f ∈ fields, f.isRenamed = false) (read : fieldProperties fields = .ok properties) :
    properties = (shown fields).map Field.property := by
  rw [eq_of_fieldProperties read]
  exact List.map_congr_left fun f mem => Field.toProperty_unrenamed (unrenamed f (List.mem_of_mem_filter mem))

theorem exists_fields_of_describe {item : Item α} {description : Description α}
    (described : describe item = .ok description) :
    ∃ fields, item.shape = .named fields ∧ fieldProperties fields = .ok description.properties := by
  unfold describe at described
  split at described
  · cases described
  · obtain ⟨entity, -, rest⟩ := ok_of_bind described
    obtain ⟨fields, named, rest⟩ := ok_of_bind rest
    obtain ⟨properties, read, done⟩ := ok_of_bind rest
    cases done
    refine ⟨fields, ?_, read⟩
    cases shape : item.shape with
    | named _ =>
      rw [shape] at named
      cases named
      rfl
    | positional | unit | enumeration | union =>
      rw [shape] at named
      cases named

theorem properties_of_describe {item : Item α} {fields : List (Field α)} {description : Description α}
    (shape : item.shape = .named fields) (described : describe item = .ok description) :
    fieldProperties fields = .ok description.properties := by
  obtain ⟨_, same, read⟩ := exists_fields_of_describe described
  cases shape.symm.trans same
  exact read

def Description.toEntity (kind : α → Kind) (d : Description α) : Entity :=
  ⟨d.entity, d.properties.map fun p => ⟨p.name, kind p.type⟩⟩

end Declaration

/-! ## Columns -/

namespace ColumnMap

theorem insertInto_new {m : Mapping} {mappings : List Mapping}
    (new : m.property ∉ mappings.map Mapping.property) : insertInto m mappings = mappings ++ [m] := by
  induction mappings with
  | nil => rfl
  | cons other rest ih =>
    simp only [List.map_cons, List.mem_cons, not_or] at new
    rw [insertInto, if_neg (Ne.symm new.1), ih new.2, List.cons_append]

theorem foldl_insert_of_nodup {added : List Mapping} {columns : ColumnMap}
    (distinct : ((columns.mappings ++ added).map Mapping.property).Nodup) :
    (added.foldl insert columns).mappings = columns.mappings ++ added := by
  induction added generalizing columns with
  | nil => simp
  | cons m rest ih =>
    have new : m.property ∉ columns.mappings.map Mapping.property := by
      rw [List.map_append, List.map_cons, List.nodup_append] at distinct
      exact fun mem => distinct.2.2 _ mem _ (.head _) rfl
    have first : (columns.insert m).mappings = columns.mappings ++ [m] := insertInto_new new
    rw [List.foldl_cons, ih (by simpa [first] using distinct), first, List.append_assoc,
      List.singleton_append]

end ColumnMap

theorem Draft.of_build {d : Draft} {s : Schema} (built : d.build = .ok s) :
    s.table = d.table ∧ s.columns = d.columns ∧ d.key = some s.key := by
  unfold Draft.build at built
  split at built
  · split at built
    · cases built
    · split at built
      · split at built
        · cases built
        · cases built
          exact ⟨rfl, rfl, ‹_›⟩
      · cases built
  · cases built

theorem Draft.columns_of_build {d : Draft} {s : Schema} (built : d.build = .ok s) :
    s.columns = d.columns :=
  (Draft.of_build built).2.1

theorem Convention.mappings_of_schema {options : Convention.Options} {entity : Entity} {s : Schema}
    (distinct : (entity.properties.map Property.name).Nodup)
    (inferred : Convention.schema options entity [] = .ok s) :
    s.columns.mappings = entity.properties.map Convention.mapping := by
  obtain ⟨draft, ran, built⟩ := ok_of_bind inferred
  cases ran
  have separate : ((entity.properties.map Convention.mapping).map Mapping.property).Nodup := by
    rw [List.map_map]
    exact distinct
  rw [Draft.columns_of_build built]
  exact ColumnMap.foldl_insert_of_nodup separate

theorem Convention.mapping_shows (p : Property) :
    ((Convention.mapping p).property, (Convention.mapping p).column, (Convention.mapping p).isDocument) =
      (p.name, Naming.snakeCase p.name, decide (p.kind = .json)) := by
  have document : (Convention.mapping p).isDocument = decide (p.kind = .json) := by
    unfold Mapping.isDocument Convention.mapping
    by_cases json : p.kind = .json <;> simp [json]
  rw [document]
  rfl

/-! ## Fields and columns -/

namespace Declaration

variable {α : Type}

/-- **Columns are called as their fields are.** Fields that keep their names, and have different names in
snake case, give rise to different properties, from whose names the fields' own come back. A schema
inferred from them has a column for each field that is shown, in the order of declaration and with the
name of the field, and it is a column of documents exactly if the field's type is of that kind. -/
theorem columns_named_as_fields (kind : α → Kind) {item : Item α} {fields : List (Field α)}
    {description : Description α} (shape : item.shape = .named fields)
    (described : describe item = .ok description) (unrenamed : ∀ f ∈ fields, f.isRenamed = false)
    (distinct : (fields.map Field.name).Nodup)
    (snake : ∀ f ∈ fields, Naming.isSnake f.name = true) :
    (fields.map fun f => Naming.pascalCase f.name).Nodup ∧
      (∀ f ∈ fields, Naming.snakeCase (Naming.pascalCase f.name) = f.name) ∧
      description.properties = (shown fields).map Field.property ∧
      ∀ (options : Convention.Options) (s : Schema),
        Convention.schema options (description.toEntity kind) [] = .ok s →
          s.columns.mappings.map (fun m => (m.property, m.column, m.isDocument)) =
            (shown fields).map fun f =>
              (Naming.pascalCase f.name, f.name, decide (kind f.type = .json)) := by
  have pascal : (fields.map fun f => Naming.pascalCase f.name).Nodup := by
    have names := Naming.nodup_map_pascalCase distinct (by simpa using snake)
    rwa [List.map_map] at names
  have back : ∀ f ∈ fields, Naming.snakeCase (Naming.pascalCase f.name) = f.name :=
    fun f mem => Naming.snakeCase_pascalCase (snake f mem)
  have properties : description.properties = (shown fields).map Field.property :=
    fieldProperties_unrenamed unrenamed (properties_of_describe shape described)
  refine ⟨pascal, back, properties, fun options s inferred => ?_⟩
  have names : ((description.toEntity kind).properties.map Property.name).Nodup := by
    have kept : (shown fields).Sublist fields := List.filter_sublist
    simpa [Description.toEntity, properties, Function.comp_def, Field.property] using
      pascal.sublist (kept.map _)
  rw [Convention.mappings_of_schema names inferred]
  simp only [Description.toEntity, properties, List.map_map]
  refine List.map_congr_left fun f mem => ?_
  have own : Naming.snakeCase (Naming.pascalCase f.name) = f.name := back f (List.mem_of_mem_filter mem)
  simp only [Function.comp_apply, Convention.mapping_shows, Field.property, own]

/-- Two words, a digit in a word, a field that is skipped, and one with documents. -/
theorem columns_named_as_fields_skipping :
    Sample.declared.shape = .named Sample.fields ∧
      describe Sample.declared = .ok Sample.description ∧
      (∀ f ∈ Sample.fields, f.isRenamed = false) ∧
      (Sample.fields.map Field.name).Nodup ∧
      (∀ f ∈ Sample.fields, Naming.isSnake f.name = true) ∧
      ∃ s : Schema,
        Convention.schema {} (Sample.description.toEntity FieldType.kind) [] = .ok s ∧
          s.columns.mappings.map (fun m => (m.property, m.column, m.isDocument)) =
            [("Id", "id", false), ("TemplateKey", "template_key", false), ("X2Y9", "x2_y9", true)] := by
  have shape : Sample.declared.shape = .named Sample.fields := rfl
  have described : describe Sample.declared = .ok Sample.description := rfl
  have unrenamed : ∀ f ∈ Sample.fields, f.isRenamed = false := by decide
  have distinct : (Sample.fields.map Field.name).Nodup := by decide
  have snake : ∀ f ∈ Sample.fields, Naming.isSnake f.name = true := by decide
  obtain ⟨s, inferred⟩ : ∃ s : Schema,
      Convention.schema {} (Sample.description.toEntity FieldType.kind) [] = .ok s := ⟨_, rfl⟩
  have named := columns_named_as_fields FieldType.kind shape described unrenamed distinct snake
  refine ⟨shape, described, unrenamed, distinct, snake, s, inferred, ?_⟩
  rw [named.2.2.2 {} s inferred]
  decide

end Declaration

end EntitySql
