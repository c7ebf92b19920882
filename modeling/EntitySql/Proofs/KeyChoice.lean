import EntitySql.Proofs.Drafts
import EntitySql.Proofs.Suffixes

/-! What a convention makes of an entity without further steps. The table is called as the entity is, in snake
case and without the suffix of entities. There is a schema exactly when this name is not blank and there is
a property for the key, and the key is found in two passes over the properties: for one that is a candidate,
then for one that ends in a candidate. -/

set_option autoImplicit false

namespace EntitySql

/-! ## Candidates -/

namespace Naming

def Alike (s t : String) : Prop :=
  List.Forall₂ SameLetter s.toList t.toList

def EndsAlike (s t : String) : Prop :=
  ∃ head tail, s.toList = head ++ tail ∧ List.Forall₂ SameLetter tail t.toList

theorem Alike.endsAlike {s t : String} (alike : Alike s t) : EndsAlike s t :=
  ⟨[], s.toList, rfl, alike⟩

theorem endsAlike_iff (s t : String) :
    EndsAlike s t ↔ (foldAscii t.toList).isSuffixOf (foldAscii s.toList) = true := by
  simp only [EndsAlike, ← foldAscii_eq_iff]
  rw [List.isSuffixOf_iff_suffix]
  constructor
  · rintro ⟨head, tail, shape, same⟩
    exact ⟨foldAscii head, by rw [shape, ← same, foldAscii, foldAscii, foldAscii, List.map_append]⟩
  · rintro ⟨front, joined⟩
    obtain ⟨head, tail, shape, -, same⟩ := List.map_eq_append_iff.1 joined.symm
    exact ⟨head, tail, shape, same⟩

end Naming

def IsFirst {α : Type} (P : α → Prop) (members : List α) (a : α) : Prop :=
  ∃ before rest, members = before ++ a :: rest ∧ P a ∧ ∀ b ∈ before, ¬ P b

theorem find?_eq_some_iff_isFirst {α : Type} {p : α → Bool} {P : α → Prop} (holds : ∀ a, p a = true ↔ P a)
    (members : List α) (a : α) : members.find? p = some a ↔ IsFirst P members a := by
  simp [List.find?_eq_some_iff_append, IsFirst, ← holds, exists_and_left, and_left_comm]

theorem IsFirst.mem {α : Type} {P : α → Prop} {members : List α} {a : α} (first : IsFirst P members a) :
    a ∈ members := by
  obtain ⟨before, rest, shape, -⟩ := first
  simp [shape]

/-! ## The table -/

namespace Naming

open EntitySql.Text

/-- The second text is the first in snake case. Capitals are in lower case there, each behind an underscore;
the gap is what stands before one at the very start. -/
inductive InSnakeCase : List Char → List Char → List Char → Prop where
  | nil {gap : List Char} : InSnakeCase gap [] []
  | capital {gap cs ds : List Char} {c : Char} : isUppercase c = true → InSnakeCase ['_'] cs ds →
      InSnakeCase gap (c :: cs) (gap ++ lowercase c ++ ds)
  | other {gap cs ds : List Char} {c : Char} : isUppercase c = false → InSnakeCase ['_'] cs ds →
      InSnakeCase gap (c :: cs) (c :: ds)

variable {gap cs ds : List Char}

theorem inSnakeCase_cons_iff {c : Char} :
    InSnakeCase gap (c :: cs) ds ↔
      ∃ rest, InSnakeCase ['_'] cs rest ∧
        ds = (if isUppercase c then gap ++ lowercase c else [c]) ++ rest := by
  constructor
  · rintro (_ | ⟨upper, rest⟩ | ⟨plain, rest⟩)
    · exact ⟨_, rest, by rw [if_pos upper]⟩
    · exact ⟨_, rest, by simp [plain]⟩
  · rintro ⟨rest, cased, rfl⟩
    cases upper : isUppercase c with
    | true => exact .capital upper cased
    | false => exact .other upper cased

theorem inSnakeCase_tail_iff : InSnakeCase ['_'] cs ds ↔ ds = snakeTail cs := by
  induction cs generalizing ds with
  | nil => exact ⟨fun cased => by cases cased; rfl, fun same => same ▸ .nil⟩
  | cons c cs ih =>
    rw [inSnakeCase_cons_iff]
    simp only [ih, exists_eq_left, snakeTail, List.flatMap_cons, lowered]
    cases upper : isUppercase c <;> simp

theorem inSnakeCase_iff : InSnakeCase [] cs ds ↔ ds = snakeChars cs := by
  cases cs with
  | nil => exact ⟨fun cased => by cases cased; rfl, fun same => same ▸ .nil⟩
  | cons c cs =>
    rw [inSnakeCase_cons_iff, snakeChars_cons]
    simp only [inSnakeCase_tail_iff, exists_eq_left, lowered, List.nil_append]

def IsStem (name suffix stem : String) : Prop :=
  Precedes stem name suffix ∨ (∀ head, ¬ Precedes head name suffix) ∧ stem = name

theorem isStem_iff {name suffix stem : String} : IsStem name suffix stem ↔ stem = stripSuffix name suffix := by
  constructor
  · rintro (precedes | ⟨absent, rfl⟩)
    · exact precedes.stripSuffix_eq.symm
    · exact ((stripSuffix_cases stem suffix).resolve_right (absent _)).symm
  · rintro rfl
    rcases stripSuffix_cases name suffix with whole | precedes
    · by_cases absent : ∀ head, ¬ Precedes head name suffix
      · exact .inr ⟨absent, whole⟩
      · push Not at absent
        obtain ⟨head, precedes⟩ := absent
        exact .inl (precedes.stripSuffix_eq.symm ▸ precedes)
    · exact .inl precedes

end Naming

/-- The table of an entity of that name: what is left of the name without the suffix, in snake case, and with an
`s` at the end if names of tables are plural. -/
def Convention.IsTable (options : Convention.Options) (entity table : String) : Prop :=
  ∃ stem snake, Naming.IsStem entity options.entitySuffix stem ∧ Naming.InSnakeCase [] stem.toList snake ∧
    table = String.ofList snake ++ (if options.pluralize then "s" else "")

theorem Convention.isTable_iff {options : Convention.Options} {entity table : String} :
    IsTable options entity table ↔ table = tableName options entity := by
  simp only [IsTable, Naming.isStem_iff, Naming.inSnakeCase_iff, exists_and_left, exists_eq_left]
  rw [tableName, Naming.snakeCase]
  cases options.pluralize <;> simp

/-! ## The key -/

namespace Convention

variable (options : Options)

def Named (p : Property) : Prop :=
  ∃ c ∈ options.keyCandidates, Naming.Alike p.name c

def Suffixed (p : Property) : Prop :=
  ∃ c ∈ options.keyCandidates, Naming.EndsAlike p.name c

/-- The key is the first property called like a candidate, or, if there is none, the first whose name ends
like one. -/
def IsKey (properties : List Property) (key : String) : Prop :=
  (∃ p, IsFirst (Named options) properties p ∧ p.name = key) ∨
    (∀ p ∈ properties, ¬ Named options p) ∧ ∃ p, IsFirst (Suffixed options) properties p ∧ p.name = key

variable {options : Options} {properties : List Property} {key : String}

theorem Named.suffixed {p : Property} (named : Named options p) : Suffixed options p := by
  obtain ⟨c, listed, alike⟩ := named
  exact ⟨c, listed, alike.endsAlike⟩

theorem isCandidate_iff (p : Property) : isCandidate options p.name = true ↔ Named options p := by
  simp [isCandidate, Named, Naming.Alike, Naming.foldAscii_eq_iff]

theorem endsInCandidate_iff (p : Property) :
    endsInCandidate options p.name = true ↔ Suffixed options p := by
  simp [endsInCandidate, Suffixed, Naming.endsAlike_iff]

theorem keyProperty_eq_some_iff :
    keyProperty options properties = some key ↔ IsKey options properties key := by
  unfold keyProperty IsKey
  simp only [← find?_eq_some_iff_isFirst isCandidate_iff, ← find?_eq_some_iff_isFirst endsInCandidate_iff,
    ← isCandidate_iff]
  -- The second search counts only where the first finds nothing.
  cases exact : properties.find? (isCandidate options ·.name) with
  | none =>
    have others : ∀ p ∈ properties, ¬ isCandidate options p.name = true := by
      simpa using List.find?_eq_none.1 exact
    simp only [Option.none_or, Option.map_eq_some_iff, reduceCtorEq, false_and, exists_false, false_or]
    exact (and_iff_right others).symm
  | some p =>
    have another : ¬ ∀ q ∈ properties, ¬ isCandidate options q.name = true := by
      intro others
      have candidate : isCandidate options p.name = true := by simpa using List.find?_some exact
      exact others p (List.mem_of_find?_eq_some exact) candidate
    simp only [Option.some_or, Option.map_some, Option.some.injEq, another, false_and, or_false,
      exists_eq_left']

/-- There is a key unless no property ends in a candidate: one that is a candidate ends in it, too. -/
theorem keyProperty_eq_none_iff :
    keyProperty options properties = none ↔ ∀ p ∈ properties, ¬ Suffixed options p := by
  simp only [keyProperty, Option.map_eq_none_iff, Option.or_eq_none_iff, List.find?_eq_none,
    isCandidate_iff, endsInCandidate_iff]
  exact and_iff_right_of_imp fun absent p listed named => absent p listed named.suffixed

theorem exists_keyProperty_iff :
    (∃ key, keyProperty options properties = some key) ↔ ∃ p ∈ properties, Suffixed options p := by
  rw [← Option.ne_none_iff_exists', Ne, keyProperty_eq_none_iff]
  push Not
  rfl

theorem IsKey.mem (chosen : IsKey options properties key) : key ∈ properties.map Property.name := by
  rcases chosen with ⟨p, first, rfl⟩ | ⟨-, p, first, rfl⟩
  · exact List.mem_map_of_mem first.mem
  · exact List.mem_map_of_mem first.mem

theorem keyProperty_congr {other : Options}
    (same : ∀ c, c ∈ other.keyCandidates ↔ c ∈ options.keyCandidates) (properties : List Property) :
    keyProperty other properties = keyProperty options properties := by
  have exact : isCandidate other = isCandidate options := by
    funext name
    rw [Bool.eq_iff_iff]
    simp [isCandidate, same]
  have suffix : endsInCandidate other = endsInCandidate options := by
    funext name
    rw [Bool.eq_iff_iff]
    simp [endsInCandidate, same]
  simp only [keyProperty, exact, suffix]

end Convention

/-! ## The schema -/

namespace ColumnMap

variable {columns : ColumnMap} {property : String}

theorem mem_properties_insert {m : Mapping} :
    property ∈ (columns.insert m).properties ↔ property = m.property ∨ property ∈ columns.properties := by
  rw [properties_insert]
  split
  · rename_i mapped
    exact (or_iff_right_of_imp fun own => own ▸ mapped).symm
  · rw [List.mem_append, List.mem_singleton, or_comm]

theorem mem_properties_foldl_insert {added : List Mapping} :
    property ∈ (added.foldl insert columns).properties ↔
      property ∈ added.map Mapping.property ∨ property ∈ columns.properties := by
  induction added generalizing columns with
  | nil => simp
  | cons m rest ih =>
    rw [List.foldl_cons, ih, mem_properties_insert, List.map_cons, List.mem_cons]
    tauto

end ColumnMap

theorem Draft.exists_build {d : Draft} (named : Text.allBlank d.table = false) {key : String}
    (chosen : d.key = some key) (mapped : (d.columns.get? key).isSome = true)
    (unordered : d.ordering = none) : ∃ s, d.build = .ok s := by
  obtain ⟨table, tableAlias, columns, _, joins, _⟩ := d
  cases chosen
  cases unordered
  exact ⟨_, by simp only [build, dif_pos named, dif_pos mapped]; rfl⟩

namespace Convention

variable {options : Options}

theorem mem_properties_infer {entity : Entity} {property : String} :
    property ∈ (infer options entity).columns.properties ↔
      property ∈ entity.properties.map Property.name := by
  have names : (entity.properties.map mapping).map Mapping.property =
      entity.properties.map Property.name := by
    rw [List.map_map]
    rfl
  have none_before : property ∉ ColumnMap.empty.properties := List.not_mem_nil
  rw [infer, ColumnMap.mem_properties_foldl_insert, names, or_iff_left none_before]

theorem infer_congr {candidates : List String}
    (same : ∀ c, c ∈ candidates ↔ c ∈ options.keyCandidates) (entity : Entity) :
    infer { options with keyCandidates := candidates } entity = infer options entity := by
  have key : keyProperty { options with keyCandidates := candidates } entity.properties =
      keyProperty options entity.properties := keyProperty_congr same _
  unfold infer
  rw [key]
  rfl

/-- **What is inferred of an entity.** The table is called as the entity is, but without the suffix of entities
and in snake case, and there is one such name. Without further steps a convention gives a schema exactly when
that name is not blank and some property's name ends like a candidate for the key. The key is the first
property called like a candidate or, failing that, the first whose name ends like one, and it is mapped. The
candidates count as a set. -/
theorem schema_inferred (options : Options) (entity : Entity) :
    ∃ table, (∀ other, IsTable options entity.name other ↔ other = table) ∧
      ((∃ s, schema options entity [] = .ok s) ↔
        (∃ c ∈ table.toList, Text.isBlank c = false) ∧ ∃ p ∈ entity.properties, Suffixed options p) ∧
      (∀ s, schema options entity [] = .ok s →
        s.table = table ∧ IsKey options entity.properties s.key ∧
          ∃ m ∈ s.columns.mappings, m.property = s.key ∧ s.resolve s.key = .ok m) ∧
      ∀ candidates, (∀ c, c ∈ candidates ↔ c ∈ options.keyCandidates) → ∀ steps,
        schema { options with keyCandidates := candidates } entity steps = schema options entity steps := by
  have unfolded : schema options entity [] = (infer options entity).build := rfl
  refine ⟨tableName options entity.name, fun _ => isTable_iff, ?_, fun s made => ?_,
    fun candidates same steps => ?_⟩
  · rw [unfolded, ← exists_keyProperty_iff, ← Naming.allBlank_eq_false_iff]
    constructor
    · rintro ⟨s, built⟩
      obtain ⟨table, -, key⟩ := Draft.of_build built
      have named : Text.allBlank (infer options entity).table = false := table ▸ s.table_not_blank
      exact ⟨named, s.key, key⟩
    · rintro ⟨named, key, chosen⟩
      have mapped : key ∈ (infer options entity).columns.properties :=
        mem_properties_infer.2 (keyProperty_eq_some_iff.1 chosen).mem
      exact Draft.exists_build named chosen (ColumnMap.isSome_get?_iff.2 mapped) rfl
  · obtain ⟨table, -, key⟩ := Draft.of_build (unfolded ▸ made)
    have found : s.columns.get? s.key = some s.keyMapping := s.get?_of_resolve s.resolve_key
    exact ⟨table, keyProperty_eq_some_iff.1 key, s.keyMapping, List.mem_of_find?_eq_some found,
      ColumnMap.property_of_get? found, s.resolve_key⟩
  · simp only [schema, infer_congr same]

/-- A property that is a candidate comes before one that ends in one, and a name that is left blank is refused. -/
theorem schema_inferred_foos :
    (∃ s, schema { pluralize := true } ⟨"FooEntity", [⟨"TemplateKey", .text⟩, ⟨"Id", .uuid⟩]⟩ [] = .ok s ∧
      s.table = "foos" ∧ s.key = "Id") ∧
    ∀ s, schema {} ⟨"\u3000Entity", [⟨"Id", .uuid⟩]⟩ [] ≠ .ok s := by
  have letters : List.Forall₂ Naming.SameLetter "Entity".toList "entity".toList := by decide
  have visible : ∃ c ∈ "entity".toList, Text.isBlank c = false := ⟨'e', by decide, by decide⟩
  constructor
  · obtain ⟨table, only, made, shown, -⟩ :=
      schema_inferred { pluralize := true } ⟨"FooEntity", [⟨"TemplateKey", .text⟩, ⟨"Id", .uuid⟩]⟩
    have stem : Naming.Precedes "Foo" "FooEntity" "entity" :=
      ⟨⟨'F', by decide, by decide⟩, visible, "Entity", by decide, letters⟩
    have foos : "foos" = table := (only "foos").1
      ⟨"Foo", "foo".toList, .inl stem, Naming.inSnakeCase_iff.2 (by decide +kernel), by decide⟩
    have id : Suffixed { pluralize := true } ⟨"Id", .uuid⟩ := ⟨"id", by decide, [], "Id".toList, rfl, by decide⟩
    obtain ⟨s, built⟩ := made.2 ⟨⟨'f', by rw [← foos]; decide, by decide⟩, ⟨"Id", .uuid⟩, by simp, id⟩
    obtain ⟨named, key, -⟩ := shown s built
    exact ⟨s, built, named.trans foos.symm, (Option.some.inj (keyProperty_eq_some_iff.2 key)).symm⟩
  · intro s built
    obtain ⟨table, only, made, -⟩ := schema_inferred {} ⟨"\u3000Entity", [⟨"Id", .uuid⟩]⟩
    have stem : Naming.Precedes "\u3000" "\u3000Entity" "entity" :=
      ⟨⟨'E', by decide, by decide⟩, visible, "Entity", by decide, letters⟩
    have blank : "\u3000" = table := (only "\u3000").1
      ⟨"\u3000", "\u3000".toList, .inl stem, Naming.inSnakeCase_iff.2 (by decide +kernel), by decide⟩
    obtain ⟨c, inside, seen⟩ := (made.1 ⟨s, built⟩).1
    obtain rfl : c = '\u3000' := by simpa [← blank] using inside
    exact absurd seen (by decide)

end Convention

end EntitySql
