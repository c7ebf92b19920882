import EntitySql.Proofs.Casing
import EntitySql.Proofs.Layout
import EntitySql.Proofs.Placeholders
import EntitySql.Proofs.Spelling

/-! Filters in selections. The text of a compiled predicate has single spaces only, outside of the literals
that hold paths, and those are closed whatever the paths are. So when the spacing of the whole statement
is normalised, the filter stays as it is, and so does what is selected and ordered around it. -/

set_option autoImplicit false

namespace EntitySql

open Grammar (isParameterChar)
open Text (IsUnbroken Solid Kept IsBalanced isBlank opensQuotation)

theorem toNat_lt_of_isParameterChar {c : Char} (own : isParameterChar c = true) : c.toNat < 128 := by
  rcases Bool.or_eq_true_iff.1 own with alphanumeric | underscore
  · rcases Bool.or_eq_true_iff.1 alphanumeric with letter | digit
    · rcases Bool.or_eq_true_iff.1 letter with upper | lower
      · exact Naming.toNat_lt_of_isUpper upper
      · exact Naming.toNat_lt_of_isLower lower
    · exact Naming.toNat_lt_of_isDigit digit
  · obtain rfl : c = '_' := of_decide_eq_true underscore
    decide

theorem isUnbroken_of_isParameterName {name : String} (own : IsParameterName name) : IsUnbroken name := by
  refine ⟨own.1, fun c inside => ?_⟩
  refine Naming.ascii_induction
    (P := fun c => isParameterChar c = true → isBlank c = false ∧ opensQuotation c = false)
    ?_ (toNat_lt_of_isParameterChar (own.2 c inside)) (own.2 c inside)
  decide +kernel

/-- All names can do without quotes, no column is computed, and the conditions of joins close what they
quote. -/
structure Schema.IsTidy (schema : Schema) : Prop where
  table : IsUnbroken schema.table
  tableAlias : IsUnbroken schema.tableAlias
  column : ∀ m ∈ schema.columns.mappings, IsUnbroken m.column
  stored : ∀ m ∈ schema.columns.mappings, m.computed = none
  joined : ∀ j ∈ schema.joins, IsUnbroken j.table ∧ IsUnbroken j.tableAlias ∧ IsBalanced j.on

/-! ## The filter -/

theorem Text.Solid.cast {expression type : String} (solid : Solid expression) (name : Solid type) :
    Solid (Dialect.Postgres.cast expression type) := by
  have colons : Kept "::" := ⟨rfl, rfl⟩
  have opening : Solid "(" := ⟨⟨rfl, rfl⟩, rfl⟩
  have closing : Kept ")::" := ⟨rfl, rfl⟩
  unfold Dialect.Postgres.cast
  split
  · exact (solid.append colons).append name.toKept
  · exact ((opening.append solid.toKept).append closing).append name.toKept

theorem solid_castType {kind : Kind} {type : String} (cast : Dialect.postgres.castType kind = some type) :
    Solid type := by
  cases kind <;> cases cast <;> exact ⟨⟨rfl, rfl⟩, rfl⟩

section

variable {scope : Option String}

theorem Mapping.solid_reference (qualified : ∀ tableAlias ∈ scope, IsUnbroken tableAlias) {m : Mapping}
    (column : IsUnbroken m.column) : Solid (m.reference scope) := by
  cases given : scope with
  | none => exact column.solid
  | some tableAlias =>
    have dot : Kept "." := ⟨rfl, rfl⟩
    exact ((qualified tableAlias given).solid.append dot).append column.solid.toKept

theorem Mapping.expression_of_stored {m : Mapping} (stored : m.computed = none) :
    m.expression Dialect.postgres scope = m.reference scope := by
  unfold expression
  rw [stored]
  cases scope <;> rfl

theorem Operand.solid_text {o : Operand} (base : Solid (o.mapping.expression Dialect.postgres scope)) :
    Solid (o.text Dialect.postgres scope) := by
  have sign : Kept "#>>" := ⟨rfl, rfl⟩
  have extracted : Solid (Dialect.postgres.jsonPath (o.mapping.expression Dialect.postgres scope) o.keys) :=
    (base.append sign).append (Text.solid_quoted _).toKept
  unfold Operand.text
  dsimp only
  split
  · exact base
  · split
    · rename_i type cast
      exact extracted.cast (solid_castType cast)
    · exact extracted

theorem Reference.solid_text {r : Reference} (named : ∀ name ∈ r.names, IsParameterName name) :
    Solid (r.text Dialect.postgres) := by
  cases r with
  | null => exact ⟨⟨rfl, rfl⟩, rfl⟩
  | parameter name document =>
    have own : IsParameterName name := named name (by simp [names])
    have sign : Solid "@" := ⟨⟨rfl, rfl⟩, rfl⟩
    have placeholder : Solid (Dialect.postgres.parameter name) :=
      sign.append (isUnbroken_of_isParameterName own).solid.toKept
    cases document with
    | false => exact placeholder
    | true => exact placeholder.cast ⟨⟨rfl, rfl⟩, rfl⟩

namespace Condition

theorem solid_comparison (operator : Operator) (negate : Bool) :
    Solid (Dialect.postgres.comparison operator negate) := by
  cases operator <;> cases negate <;> exact ⟨⟨rfl, rfl⟩, rfl⟩

theorem solid_truthText (b : Bool) : Solid (truthText b) := by
  cases b <;> exact ⟨⟨rfl, rfl⟩, rfl⟩

theorem solid_groupText (k : Connective) {texts : List String} (each : ∀ t ∈ texts, Solid t) :
    Solid (groupText Dialect.postgres k texts) := by
  have sign : Kept (" " ++ Dialect.postgres.connective k) := by
    cases k <;> exact ⟨rfl, rfl⟩
  have apart (t : String) (solid : Solid t) : Kept (" " ++ Dialect.postgres.connective k ++ " " ++ t) := by
    rw [String.append_assoc]
    exact sign.append solid.spaced
  cases texts with
  | nil => exact solid_truthText _
  | cons first rest =>
    have joined := Solid.intercalated apart each
    cases k with
    | and => exact joined
    | or =>
      have opening : Solid "(" := ⟨⟨rfl, rfl⟩, rfl⟩
      have closing : Kept ")" := ⟨rfl, rfl⟩
      exact (opening.append joined.toKept).append closing

mutual

theorem solid_text : ∀ c : Condition, (∀ o ∈ c.operands, Solid (o.text Dialect.postgres scope)) →
    (∀ name ∈ c.names, IsParameterName name) → Solid (c.text Dialect.postgres scope)
  | .compare left operator negate right, operand, named => by
    have compared := (operand left (by simp [operands])).beside (solid_comparison operator negate)
    rw [text]
    exact compared.beside (right.solid_text named)
  | .contains left right, operand, named => by
    have sign : Solid Dialect.postgres.containment := ⟨⟨rfl, rfl⟩, rfl⟩
    rw [text]
    exact ((operand left (by simp [operands])).beside sign).beside (right.solid_text named)
  | .member left negate items, operand, named => by
    have compared := (operand left (by simp [operands])).beside (solid_comparison .member negate)
    have opening : Kept " (" := ⟨rfl, rfl⟩
    have closing : Kept ")" := ⟨rfl, rfl⟩
    have comma : Kept "," := ⟨rfl, rfl⟩
    have each : ∀ t ∈ items.map (·.text Dialect.postgres), Solid t := by
      simp only [List.mem_map, forall_exists_index, and_imp, forall_apply_eq_imp_iff₂]
      exact fun r inside => r.solid_text fun name own => named name (List.mem_flatMap.2 ⟨r, inside, own⟩)
    have listed := Kept.intercalated (fun t solid => comma.append solid.toKept) each
    rw [text]
    exact ((compared.append opening).append listed).append closing
  | .isNull term negate, operand, named => by
    have tested : Solid (term.text Dialect.postgres scope) := by
      cases term with
      | operand o => exact operand o (by simp [operands, Term.operands])
      | reference r => exact r.solid_text named
    rw [text]
    cases negate <;> exact tested.append ⟨rfl, rfl⟩
  | .truth b, _, _ => by
    rw [text]
    exact solid_truthText b
  | .not c, operand, named => by
    have opening : Solid "NOT (" := ⟨⟨rfl, rfl⟩, rfl⟩
    have closing : Kept ")" := ⟨rfl, rfl⟩
    rw [text]
    exact (opening.append (solid_text c operand named).toKept).append closing
  | .group k children, operand, named => by
    rw [text]
    exact solid_groupText k (solid_texts children operand named)

theorem solid_texts : ∀ children : List Condition,
    (∀ o ∈ operandsOf children, Solid (o.text Dialect.postgres scope)) →
    (∀ name ∈ namesOf children, IsParameterName name) → ∀ t ∈ texts Dialect.postgres scope children, Solid t
  | [], _, _ => fun _ inside => absurd inside List.not_mem_nil
  | c :: rest, operand, named => by
    simp only [operandsOf, namesOf, List.forall_mem_append] at operand named
    exact List.forall_mem_cons.2
      ⟨solid_text c operand.1 named.1, solid_texts rest operand.2 named.2⟩

end

end Condition

theorem Predicate.solid_of_lowered {schema : Schema} (tidy : schema.IsTidy)
    (qualified : ∀ tableAlias ∈ scope, IsUnbroken tableAlias) {p : Predicate} {later : Parameters}
    {condition : Condition} (lowered : p.Lowered schema later condition) :
    Solid (condition.text Dialect.postgres scope) := by
  -- A column is solid wherever a condition names it, and the rest is the dialect's own.
  refine lowered.induct (motive := fun condition => Solid (condition.text Dialect.postgres scope))
    (fun (_ : True) lowered => ?_) (fun k conditions each => ?_) fun _ _ => trivial
  · obtain ⟨left, resolved, single⟩ := lowered
    have inside := Comparison.mapping_mem resolved
    have base : Solid (left.mapping.expression Dialect.postgres scope) := by
      rw [Mapping.expression_of_stored (tidy.stored _ inside)]
      exact Mapping.solid_reference qualified (tidy.column _ inside)
    refine Condition.solid_text _ (fun o own => ?_) fun name own => ?_
    · rw [single.operand_eq o own]
      exact Operand.solid_text base
    · exact (single.named name own).plain (tidy.column _ inside).1
  · rw [Condition.text, Condition.texts_eq_map]
    exact Condition.solid_groupText k (List.forall_mem_map.2 each)

end

/-! ## What stands around the filter -/

namespace Repository

variable (r : Repository)

def openingText (d : Dialect) : String :=
  "SELECT " ++ String.intercalate "," ((r.selection none).columns.map ((r.selection none).item d)) ++ " FROM " ++
    (r.selection none).source d

theorem selection_text (filter : Option Condition) (d : Dialect) :
    (r.selection filter).text d =
      r.openingText d ++ (r.selection filter).whereText d ++ (r.selection none).orderingText d :=
  rfl

theorem orderingText_none {d : Dialect} (unordered : r.schema.ordering = none) :
    (r.selection none).orderingText d = "" := by
  simp [Selection.orderingText, selection, Schema.orderingMapping_of_none unordered]

section

variable {r} (tidy : r.schema.IsTidy)

include tidy

theorem qualified : ∀ tableAlias ∈ r.schema.scope, IsUnbroken tableAlias := by
  intro tableAlias given
  unfold Schema.scope at given
  split at given
  · cases given
  · cases given
    exact tidy.tableAlias

theorem isBalanced_joinText {j : Join} (inside : j ∈ r.schema.joins) :
    IsBalanced (Selection.joinText Dialect.postgres j) := by
  obtain ⟨table, tableAlias, on⟩ := tidy.joined j inside
  have keyword : IsBalanced (" " ++ j.kind.keyword ++ " ") := by cases j.kind <;> rfl
  have space : IsBalanced " " := rfl
  have sign : IsBalanced " ON " := rfl
  exact ((((keyword.append table.solid.isBalanced).append space).append tableAlias.solid.isBalanced).append
    sign).append on

theorem isBalanced_source : IsBalanced ((r.selection none).source Dialect.postgres) := by
  have table : IsBalanced r.schema.table := tidy.table.solid.isBalanced
  have space : IsBalanced " " := rfl
  have scope : (r.selection none).scope = r.schema.scope := rfl
  unfold Selection.source
  rw [scope]
  cases given : r.schema.scope with
  | none => exact table
  | some tableAlias =>
    have qualifier := (qualified tidy tableAlias given).solid.isBalanced
    have joins : IsBalanced (String.join (r.schema.joins.map (Selection.joinText Dialect.postgres))) :=
      Text.isBalanced_join (List.forall_mem_map.2 fun j inside => isBalanced_joinText tidy inside)
    exact ((table.append space).append qualifier).append joins

theorem isBalanced_openingText : IsBalanced (r.openingText Dialect.postgres) := by
  have select : IsBalanced "SELECT " := rfl
  have comma : IsBalanced "," := rfl
  have sign : IsBalanced " FROM " := rfl
  have items : IsBalanced (String.intercalate ","
      ((r.selection none).columns.map ((r.selection none).item Dialect.postgres))) := by
    refine Text.isBalanced_intercalate comma (List.forall_mem_map.2 fun m inside => ?_)
    rw [Selection.item_of_stored (tidy.stored m inside)]
    exact (Mapping.solid_reference (qualified tidy) (tidy.column m inside)).isBalanced
  exact ((select.append items).append sign).append (isBalanced_source tidy)

theorem orderingText_some {o : SortOrder} (ordered : r.schema.ordering = some o) :
    ∃ m ∈ r.schema.columns.mappings, r.schema.columns.get? o.property = some m ∧
      (r.selection none).orderingText Dialect.postgres =
        " ORDER BY " ++ m.reference r.schema.scope ++ " " ++ o.direction.keyword := by
  obtain ⟨m, found⟩ := Option.isSome_iff_exists.1 (r.schema.ordering_mapped o ordered)
  have inside : m ∈ r.schema.columns.mappings := List.mem_of_find?_eq_some found
  exact ⟨m, inside, found, Selection.orderingText_of_stored (tidy.stored m inside) Dialect.postgres
    (Schema.orderingMapping_of_get? ordered found)⟩

theorem orderingText_cases :
    (r.selection none).orderingText Dialect.postgres = "" ∨
      ∃ t, Solid t ∧ (r.selection none).orderingText Dialect.postgres = " " ++ t := by
  cases ordered : r.schema.ordering with
  | none => exact .inl (r.orderingText_none ordered)
  | some o =>
    obtain ⟨m, inside, _, written⟩ := orderingText_some tidy ordered
    have sign : Solid "ORDER BY" := ⟨⟨rfl, rfl⟩, rfl⟩
    have keyword : Solid o.direction.keyword := by cases o.direction <;> exact ⟨⟨rfl, rfl⟩, rfl⟩
    have column : Solid (m.reference r.schema.scope) :=
      Mapping.solid_reference (qualified tidy) (tidy.column m inside)
    refine .inr ⟨_, (sign.beside column).beside keyword, ?_⟩
    rw [written]
    simp only [← String.append_assoc]
    rfl

theorem normalizeSpaces_openingText {t : String} (solid : Solid t) :
    Text.normalizeSpaces (r.openingText Dialect.postgres ++ (" " ++ t)) =
      Text.normalizeSpaces (r.openingText Dialect.postgres) ++ (" " ++ t) := by
  have visible : (r.openingText Dialect.postgres).toList.head?.any (!isBlank ·) = true := by
    simp [openingText, isBlank, Text.blankRanges]
  exact Text.normalizeSpaces_append_spaced visible (isBalanced_openingText tidy) solid

theorem text_selection_none :
    Statement.text (.select (r.selection none)) Dialect.postgres =
      Text.normalizeSpaces (r.openingText Dialect.postgres) ++
        (r.selection none).orderingText Dialect.postgres := by
  have unfiltered : (r.selection none).whereText Dialect.postgres = "" := rfl
  rw [Statement.text, Statement.rawText, selection_text, unfiltered, String.append_empty]
  rcases orderingText_cases tidy with nothing | ⟨t, solid, ending⟩
  · rw [nothing, String.append_empty, String.append_empty]
  · rw [ending, normalizeSpaces_openingText tidy solid]

theorem text_selection_some {condition : Condition}
    (solid : Solid (condition.text Dialect.postgres r.schema.scope)) :
    Statement.text (.select (r.selection (some condition))) Dialect.postgres =
      Text.normalizeSpaces (r.openingText Dialect.postgres) ++ " WHERE " ++
        condition.text Dialect.postgres r.schema.scope ++ (r.selection none).orderingText Dialect.postgres := by
  have filtered : (r.selection (some condition)).whereText Dialect.postgres =
      " WHERE " ++ condition.text Dialect.postgres r.schema.scope :=
    Selection.whereText_of_filter rfl solid.ne_empty
  have keyword : " WHERE " = " " ++ "WHERE" ++ " " := rfl
  have clause : Solid ("WHERE" ++ " " ++ condition.text Dialect.postgres r.schema.scope) :=
    Solid.beside ⟨⟨rfl, rfl⟩, rfl⟩ solid
  have closing : Kept ((r.selection none).orderingText Dialect.postgres) := by
    rcases orderingText_cases tidy with nothing | ⟨t, even, ending⟩
    · rw [nothing]
      exact ⟨rfl, rfl⟩
    · rw [ending]
      exact even.spaced
  -- The clause and the ordering are one text behind the opening.
  have whole := normalizeSpaces_openingText tidy (clause.append closing)
  rw [Statement.text, Statement.rawText, selection_text, filtered, keyword]
  simpa only [String.append_assoc] using whole

/-- The text of a compiled predicate stands in a selection as it is, whatever its paths are: between what
stands before the ordering when everything is selected, and the ordering, if there is one. The parameters
are those that the predicate alone leaves. -/
theorem find_embeds_filter (p : Predicate) {ps final : Parameters} {condition : Condition}
    (compiled : p.compile r.schema ps = .ok condition final) :
    ∃ found all opening closing, r.find (some p) ps = .ok found final ∧ (∀ qs, r.getAll qs = .ok all qs) ∧
      all.text Dialect.postgres = opening ++ closing ∧
      found.text Dialect.postgres =
        opening ++ " WHERE " ++ condition.text Dialect.postgres r.schema.scope ++ closing ∧
      (r.schema.ordering = none → closing = "") ∧
      ∀ o, r.schema.ordering = some o → ∃ m, r.schema.columns.get? o.property = some m ∧
        closing = " ORDER BY " ++ m.reference r.schema.scope ++ " " ++ o.direction.keyword := by
  have lowered := Predicate.compile_lowered r.schema p compiled (.refl final)
  have solid := Predicate.solid_of_lowered tidy (qualified tidy) lowered
  refine ⟨_, _, _, _, r.find_of_compile compiled, r.getAll_eq, text_selection_none tidy,
    text_selection_some tidy solid, r.orderingText_none, fun o ordered => ?_⟩
  obtain ⟨m, _, found, written⟩ := orderingText_some tidy ordered
  exact ⟨m, found, written⟩

end

/-- Spaces and quotes stand in a path, and in the condition of a join, which is not evenly spaced. -/
theorem find_embeds_filter_quoted :
    let r : Repository :=
      ⟨{ Sample.joined with joins := [⟨.left, "bars", "b", "b.note =  'it''s   here' AND b.foo_id = f.id "⟩] },
        "Foo"⟩
    let p := Predicate.eq "Attributes.it's  \"odd\" . x" (.int 3)
    r.schema.IsTidy ∧ ∃ condition final, p.compile r.schema .empty = .ok condition final ∧
      ∃ found all opening closing, r.find (some p) .empty = .ok found final ∧
        (∀ qs, r.getAll qs = .ok all qs) ∧ all.text Dialect.postgres = opening ++ closing ∧
        found.text Dialect.postgres =
          opening ++ " WHERE " ++ condition.text Dialect.postgres r.schema.scope ++ closing ∧
        closing = " ORDER BY f.size ASC" := by
  intro r p
  have tidy : r.schema.IsTidy := by
    have plain {s : String} (nonempty : s ≠ "")
        (even : s.toList.all (fun c => !isBlank c && !opensQuotation c) = true) : IsUnbroken s :=
      ⟨nonempty, by simpa using even⟩
    refine ⟨plain (by decide) (by decide), plain (by decide) (by decide), fun m inside => ?_, by decide,
      fun j inside => ?_⟩
    · simp only [r, Sample.joined, Sample.foos, List.mem_cons, List.not_mem_nil, or_false] at inside
      rcases inside with rfl | rfl | rfl | rfl <;> exact plain (by decide) (by decide)
    · obtain rfl := List.mem_singleton.1 inside
      exact ⟨plain (by decide) (by decide), plain (by decide) (by decide), rfl⟩
  have compiled : p.compile r.schema .empty = .ok _ _ := rfl
  obtain ⟨found, all, opening, closing, ran, read, whole, text, _, ordered⟩ := find_embeds_filter tidy p compiled
  obtain ⟨m, mapped, written⟩ := ordered ⟨"Size", .ascending⟩ rfl
  cases mapped
  exact ⟨tidy, _, _, compiled, found, all, opening, closing, ran, read, whole, text, written⟩

end Repository

end EntitySql
