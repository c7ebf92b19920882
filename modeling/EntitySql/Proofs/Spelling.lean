import EntitySql.Proofs.Assignments
import EntitySql.Proofs.KeyFilter

/-! How a selection spells its columns. The list of what is selected and the ordering quote a column
together with what qualifies it, and so does a filter while nothing qualifies it. Beside joined tables
the filter does not quote at all, so there the spellings agree only if quoting changes nothing. -/

set_option autoImplicit false

namespace EntitySql

theorem Schema.orderingMapping_of_none {s : Schema} (unordered : s.ordering = none) :
    s.orderingMapping = none := by
  unfold orderingMapping
  split
  · rfl
  · rename_i o found
    rw [unordered] at found
    cases found

theorem Schema.orderingMapping_of_get? {s : Schema} {o : SortOrder} {m : Mapping}
    (ordered : s.ordering = some o) (found : s.columns.get? o.property = some m) :
    s.orderingMapping = some (m, o.direction) := by
  unfold orderingMapping
  split
  · rename_i none
    rw [none] at ordered
    cases ordered
  · rename_i other same
    obtain rfl : other = o := Option.some.inj (same.symm.trans ordered)
    simp [found]

theorem Schema.scope_eq_none_iff (s : Schema) : s.scope = none ↔ s.joins = [] := by
  simp [scope]

section

variable {m : Mapping} (stored : m.computed = none) (d : Dialect)

include stored

theorem Selection.item_of_stored (s : Selection) :
    s.item d m = d.quoteIdentifier (m.reference s.scope) := by
  rw [item, stored]

theorem Selection.orderingText_of_stored {s : Selection} {direction : Direction}
    (ordered : s.ordering = some (m, direction)) :
    s.orderingText d =
      " ORDER BY " ++ d.quoteIdentifier (m.reference s.scope) ++ " " ++ direction.keyword := by
  simp [orderingText, ordered, stored]

theorem Selection.text_of_stored {s : Selection} (member : m ∈ s.columns) :
    ∃ before after, s.text d =
      "SELECT " ++ String.intercalate "," (before ++ d.quoteIdentifier (m.reference s.scope) :: after) ++
        " FROM " ++ s.source d ++ s.whereText d ++ s.orderingText d := by
  obtain ⟨before, after, split⟩ := List.append_of_mem member
  refine ⟨before.map (s.item d), after.map (s.item d), ?_⟩
  rw [text, split, List.map_append, List.map_cons, s.item_of_stored stored, commaSeparated]

theorem Operand.text_of_stored (kind : Kind) (scope : Option String) :
    Operand.text ⟨m, [], kind⟩ d scope =
      if scope = none then d.quoteIdentifier (m.reference scope) else m.reference scope := by
  cases scope <;> simp [text, Mapping.expression, stored, Mapping.reference]

end

namespace Repository

variable (r : Repository)

theorem find_of_ok {p : Predicate} {ps final : Parameters} {statement : Statement}
    (found : r.find (some p) ps = .ok statement final) :
    ∃ condition, p.compile r.schema ps = .ok condition final ∧
      statement = .select (r.selection (some condition)) := by
  cases compiled : p.compile r.schema ps with
  | error e left =>
    have failed : Predicate.compileFilter r.schema (some p) ps = .error e left :=
      Binding.bind_of_error compiled _
    have none : r.find (some p) ps = .error e left := Binding.bind_of_error failed _
    rw [none] at found
    cases found
  | ok condition left =>
    rw [r.find_of_compile compiled] at found
    cases found
    exact ⟨condition, rfl, rfl⟩

/-- Where a search names the column of a property that is not computed and has no dot in its name: once
among the items that are selected, in the ordering if it is the default one, and as the operand of each
comparison of the property in the filter. The first two are spelled alike. The third is spelled as they
are exactly when no tables are joined or the dialect leaves the qualified column as it is. -/
theorem find_spells_column {property : String} {m : Mapping}
    (mapped : r.schema.columns.get? property = some m) (stored : m.computed = none)
    (dotless : '.' ∉ property.toList) (d : Dialect) {p : Predicate} {ps final : Parameters}
    {statement : Statement} (found : r.find (some p) ps = .ok statement final) :
    let spelled := d.quoteIdentifier (m.reference r.schema.scope)
    ∃ s condition, statement = .select s ∧ s.filter = some condition ∧
      p.Lowered r.schema final condition ∧
      (∃ before after, s.text d =
        "SELECT " ++ String.intercalate "," (before ++ spelled :: after) ++ " FROM " ++ s.source d ++
          s.whereText d ++ s.orderingText d) ∧
      (∀ direction, r.schema.ordering = some ⟨property, direction⟩ →
        s.orderingText d = " ORDER BY " ++ spelled ++ " " ++ direction.keyword) ∧
      ∀ c : Comparison, c.property = property → ∃ left, c.operand r.schema = .ok left ∧
        (left.text d s.scope = spelled ↔
          r.schema.joins = [] ∨ spelled = m.reference r.schema.scope) := by
  intro spelled
  obtain ⟨condition, compiled, rfl⟩ := r.find_of_ok found
  have member : m ∈ (r.selection (some condition)).columns := List.mem_of_find?_eq_some mapped
  refine ⟨_, condition, rfl, rfl, Predicate.compile_lowered r.schema p compiled (.refl final),
    Selection.text_of_stored stored d member, fun direction ordered => ?_, fun c named => ?_⟩
  · exact Selection.orderingText_of_stored stored d (r.schema.orderingMapping_of_get? ordered mapped)
  · subst named
    refine ⟨_, Comparison.operand_of_dotless dotless (r.schema.resolve_of_get? mapped), ?_⟩
    have text := Operand.text_of_stored stored d c.kind r.schema.scope
    rw [← r.schema.scope_eq_none_iff]
    change Operand.text _ d r.schema.scope = spelled ↔ _
    rw [text]
    -- Without an alias a filter quotes the column, and beside joined tables it does not.
    by_cases bare : r.schema.scope = none
    · simp [bare, spelled]
    · simp [bare, spelled, eq_comm]

theorem find_spells_column_alone :
    let r : Repository := ⟨{ Sample.joined with joins := [] }, "Foo"⟩
    let p : Predicate := .any [.eq "Size" (.int 3), .memberOf "Size" [.null, .int 4]]
    ∃ m, r.schema.columns.get? "Size" = some m ∧ m.computed = none ∧ '.' ∉ "Size".toList ∧
      ∃ statement final, r.find (some p) .empty = .ok statement final ∧
        let spelled := Sample.bracketed.quoteIdentifier (m.reference r.schema.scope)
        spelled = "[size]" ∧
        ∃ s condition, statement = .select s ∧ s.filter = some condition ∧
          p.Lowered r.schema final condition ∧
          s.orderingText Sample.bracketed = " ORDER BY " ++ spelled ++ " " ++ "ASC" ∧
          ∀ c : Comparison, c.property = "Size" → ∃ left, c.operand r.schema = .ok left ∧
            left.text Sample.bracketed s.scope = spelled := by
  intro r p
  have mapped : r.schema.columns.get? "Size" = some (.plain "Size" "size") := rfl
  have dotless : '.' ∉ "Size".toList := by decide
  have found : r.find (some p) .empty = .ok _ _ := rfl
  obtain ⟨s, condition, selected, filtered, lowered, _, ordered, compared⟩ :=
    r.find_spells_column mapped rfl dotless Sample.bracketed found
  refine ⟨_, mapped, rfl, dotless, _, _, found, by decide, s, condition, selected, filtered, lowered,
    ordered .ascending rfl, fun c named => ?_⟩
  obtain ⟨left, resolved, same⟩ := compared c named
  exact ⟨left, resolved, same.2 (.inl rfl)⟩

/-- Beside a joined table the filter has a spelling of its own. -/
theorem find_spells_column_joined :
    ∃ s final, find ⟨Sample.joined, "Foo"⟩ (some (.gt "Size" (.int 3))) .empty = .ok (.select s) final ∧
      "[f.size]" ∈ s.columns.map (s.item Sample.bracketed) ∧
      s.orderingText Sample.bracketed = " ORDER BY [f.size] ASC" ∧
      s.whereText Sample.bracketed = " WHERE f.size > @size" :=
  ⟨_, _, rfl, by decide, by decide, by decide⟩

end Repository

end EntitySql
