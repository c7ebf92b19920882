import Mathlib.Data.List.Induction
import EntitySql.Proofs.KeyChoice

/-! Column maps as ordered dictionaries. A mapping that goes in takes the place of the one for its property, or
the next free one, and a mapping that is changed where it stands stays there. So a property has the place
that it got first, and the mapping that it got last, with the changes made since. -/

set_option autoImplicit false

namespace EntitySql

namespace ColumnMap

inductive Edit where
  | insert (m : Mapping)
  | patch (property : String) (change : Mapping → Mapping)

namespace Edit

def property : Edit → String
  | .insert m => m.property
  | .patch property _ => property

def inserted? : Edit → Option String
  | .insert m => some m.property
  | .patch _ _ => none

def changeOf? (property : String) : Edit → Option (Mapping → Mapping)
  | .insert _ => none
  | .patch own change => if own = property then some change else none

/-- What a property is mapped to after an edit, by what it was mapped to before. -/
def entry (property : String) (before : Option Mapping) : Edit → Option Mapping
  | .insert m => if m.property = property then some m else before
  | .patch own change => if own = property then before.map change else before

theorem entry_of_ne {e : Edit} {other : String} (apart : other ≠ e.property) (before : Option Mapping) :
    e.entry other before = before := by
  cases e with
  | insert m => exact if_neg (Ne.symm apart)
  | patch own change => exact if_neg (Ne.symm apart)

end Edit

def inserted (edits : List Edit) : List String :=
  edits.filterMap Edit.inserted?

def changesOf (property : String) (edits : List Edit) : List (Mapping → Mapping) :=
  edits.filterMap (Edit.changeOf? property)

def edit (columns : ColumnMap) : Edit → ColumnMap
  | .insert m => columns.insert m
  | .patch property change => (columns.patch? property change).getD columns

def editAll (columns : ColumnMap) (edits : List Edit) : ColumnMap :=
  edits.foldl edit columns

/-- A mapping that is changed stays the one of its property. -/
def KeepsName (columns : ColumnMap) : Edit → Prop
  | .insert _ => True
  | .patch property change => ∀ m ∈ columns.get? property, (change m).property = property

def KeepsNames (columns : ColumnMap) : List Edit → Prop
  | [] => True
  | e :: rest => columns.KeepsName e ∧ (columns.edit e).KeepsNames rest

instance (columns : ColumnMap) : DecidablePred columns.KeepsName
  | .insert _ => instDecidableTrue
  | .patch property change =>
    inferInstanceAs (Decidable (∀ m ∈ columns.get? property, (change m).property = property))

instance decidableKeepsNames (columns : ColumnMap) : DecidablePred columns.KeepsNames
  | [] => instDecidableTrue
  | e :: rest =>
    have := decidableKeepsNames (columns.edit e) rest
    inferInstanceAs (Decidable (columns.KeepsName e ∧ (columns.edit e).KeepsNames rest))

variable {columns : ColumnMap} {edits : List Edit} {e : Edit} {property : String} {m : Mapping}

theorem editAll_append_singleton : columns.editAll (edits ++ [e]) = (columns.editAll edits).edit e := by
  simp [editAll]

theorem keepsNames_append_singleton :
    columns.KeepsNames (edits ++ [e]) ↔ columns.KeepsNames edits ∧ (columns.editAll edits).KeepsName e := by
  induction edits generalizing columns with
  | nil => simp [KeepsNames, editAll]
  | cons first rest ih =>
    rw [List.cons_append, KeepsNames, KeepsNames, ih, and_assoc]
    rfl

/-! ## One edit -/

theorem edit_patch_of_get? (found : columns.get? property = some m) (change : Mapping → Mapping) :
    columns.edit (.patch property change) = ⟨patchIn property change columns.mappings⟩ := by
  simp [edit, patch?, contains, found]

theorem edit_patch_of_unmapped (missing : columns.get? property = none) (change : Mapping → Mapping) :
    columns.edit (.patch property change) = columns := by
  simp [edit, patch?, contains, missing]

theorem patch?_eq_none_iff {change : Mapping → Mapping} :
    columns.patch? property change = none ↔ property ∉ columns.properties := by
  rw [← isSome_get?_iff, patch?, contains, ite_eq_right_iff]
  simp only [reduceCtorEq, imp_false]

theorem get?_patchIn_self (found : columns.get? property = some m) {change : Mapping → Mapping}
    (same : (change m).property = property) :
    (ColumnMap.mk (patchIn property change columns.mappings)).get? property = some (change m) := by
  obtain ⟨own, before, rest, shape, earlier⟩ := exists_of_get? found
  have passed : before.find? (·.property = property) = none := by simpa using earlier
  rw [get?, shape, patchIn_append own earlier, List.find?_append, passed]
  simp [same]

theorem get?_patchIn_of_ne (found : columns.get? property = some m) {change : Mapping → Mapping}
    (same : (change m).property = property) {other : String} (apart : property ≠ other) :
    (ColumnMap.mk (patchIn property change columns.mappings)).get? other = columns.get? other := by
  obtain ⟨own, before, rest, shape, earlier⟩ := exists_of_get? found
  rw [get?, get?, shape, patchIn_append own earlier, List.find?_append, List.find?_append]
  simp [same, own, apart]

/-- An edit acts on the properties one by one. -/
theorem get?_edit (kept : columns.KeepsName e) (property : String) :
    (columns.edit e).get? property = e.entry property (columns.get? property) := by
  cases e with
  | insert m =>
    by_cases own : m.property = property
    · subst own
      rw [Edit.entry, if_pos rfl]
      exact get?_insert_self columns m
    · rw [Edit.entry, if_neg own]
      exact get?_insert_of_ne columns m own
  | patch own change =>
    cases found : columns.get? own with
    | none =>
      rw [edit_patch_of_unmapped found]
      by_cases same : own = property
      · subst same
        simp [Edit.entry, found]
      · simp [Edit.entry, same]
    | some m =>
      -- Only a mapping that keeps its property is found again under it.
      have named : (change m).property = own := kept m found
      rw [edit_patch_of_get? found]
      by_cases same : own = property
      · subst same
        simpa [Edit.entry, found] using get?_patchIn_self found named
      · simpa [Edit.entry, same] using get?_patchIn_of_ne found named same

theorem properties_edit_patch {change : Mapping → Mapping}
    (kept : columns.KeepsName (.patch property change)) :
    (columns.edit (.patch property change)).properties = columns.properties := by
  cases found : columns.get? property with
  | none => rw [edit_patch_of_unmapped found]
  | some m => rw [edit_patch_of_get? found, properties_patchIn found (kept m found)]

theorem getElem?_properties_edit (kept : columns.KeepsName e) {other : String} (apart : other ≠ e.property)
    (i : Nat) : (columns.edit e).properties[i]? = some other ↔ columns.properties[i]? = some other := by
  cases e with
  | insert m =>
    have inserted : (columns.edit (.insert m)).properties = _ := properties_insert columns m
    rw [inserted]
    split
    · rfl
    · by_cases within : i < columns.properties.length
      · rw [List.getElem?_append_left within]
      · have beyond : columns.properties.length ≤ i := Nat.le_of_not_lt within
        rw [List.getElem?_append_right beyond, List.getElem?_eq_none beyond]
        refine iff_of_false (fun found => ?_) (by simp)
        exact apart (List.mem_singleton.1 (List.mem_of_getElem? found))
  | patch own change => rw [properties_edit_patch kept]

/-! ## Edits one after the other -/

theorem eraseDups_append_singleton (names : List String) (name : String) :
    (names ++ [name]).eraseDups =
      if name ∈ names then names.eraseDups else names.eraseDups ++ [name] := by
  by_cases known : name ∈ names
  · simp [List.eraseDups_append, List.removeAll, known]
  · simp [List.eraseDups_append, List.removeAll, known, List.eraseDups_cons]

theorem nodup_eraseDups (names : List String) : names.eraseDups.Nodup := by
  induction names using List.reverseRecOn with
  | nil => exact List.nodup_nil
  | append_singleton names name ih =>
    rw [eraseDups_append_singleton]
    split
    · exact ih
    · rename_i new
      rw [← List.concat_eq_append, List.nodup_concat]
      exact ⟨by simpa using new, ih⟩

theorem properties_editAll (kept : empty.KeepsNames edits) :
    (empty.editAll edits).properties = (inserted edits).eraseDups := by
  -- From the end, since an insertion is a first one or not by all that was inserted before it.
  induction edits using List.reverseRecOn with
  | nil => rfl
  | append_singleton edits e ih =>
    obtain ⟨before, last⟩ := keepsNames_append_singleton.1 kept
    rw [editAll_append_singleton]
    cases e with
    | insert m =>
      have grown : inserted (edits ++ [.insert m]) = inserted edits ++ [m.property] := by
        simp [inserted, Edit.inserted?]
      rw [edit, properties_insert, ih before, grown, eraseDups_append_singleton]
      simp only [List.mem_eraseDups]
    | patch own change =>
      have same : inserted (edits ++ [.patch own change]) = inserted edits := by
        simp [inserted, Edit.inserted?]
      rw [properties_edit_patch last, ih before, same]

/-- What a property is mapped to in the end is made step by step of what it was mapped to at first. -/
theorem get?_editAll (kept : columns.KeepsNames edits) (property : String) :
    (columns.editAll edits).get? property = edits.foldl (Edit.entry property) (columns.get? property) := by
  induction edits generalizing columns with
  | nil => rfl
  | cons e rest ih =>
    rw [editAll, List.foldl_cons, List.foldl_cons, ← get?_edit kept.1]
    exact ih kept.2

theorem foldl_entry_of_not_inserted (absent : property ∉ inserted edits) (m : Mapping) :
    edits.foldl (Edit.entry property) (some m) =
      some ((changesOf property edits).foldl (fun m change => change m) m) := by
  induction edits generalizing m with
  | nil => rfl
  | cons e rest ih =>
    cases e with
    | insert other =>
      obtain ⟨apart, further⟩ : property ≠ other.property ∧ property ∉ inserted rest := by
        simpa [inserted, Edit.inserted?] using absent
      have none_more : changesOf property (.insert other :: rest) = changesOf property rest := rfl
      rw [none_more, List.foldl_cons, Edit.entry, if_neg (Ne.symm apart)]
      exact ih further m
    | patch own change =>
      have further : property ∉ inserted rest := by simpa [inserted, Edit.inserted?] using absent
      by_cases same : own = property
      · simpa [Edit.entry, changesOf, Edit.changeOf?, same] using ih further (change m)
      · simpa [Edit.entry, changesOf, Edit.changeOf?, same] using ih further m

end ColumnMap

/-! ## Drafts -/

namespace Draft

def Step.edit? : Step → Option ColumnMap.Edit
  | .map m => some (.insert m)
  | .configure property change => some (.patch property change)
  | .key _ | .table _ | .tableAlias _ | .join _ | .order _ | .reject _ => none

variable {d : Draft}

theorem columns_attempt (d : Draft) (step : Step) :
    (d.attempt step).columns = d.columns.editAll step.edit?.toList := by
  cases step with
  | configure property change =>
    cases found : d.columns.get? property with
    | none =>
      rw [attempt_configure_of_unmapped found]
      exact (ColumnMap.edit_patch_of_unmapped found change).symm
    | some m =>
      rw [attempt_configure_of_get? found]
      exact (ColumnMap.edit_patch_of_get? found change).symm
  | map | key | table | tableAlias | join | order | reject => rfl

theorem columns_attemptAll (d : Draft) (steps : List Step) :
    (d.attemptAll steps).columns = d.columns.editAll (steps.filterMap Step.edit?) := by
  induction steps generalizing d with
  | nil => rfl
  | cons step rest ih =>
    have first : d.attemptAll (step :: rest) = (d.attempt step).attemptAll rest := rfl
    rw [first, ih, columns_attempt]
    cases edit? : step.edit? with
    | none => simp [edit?, ColumnMap.editAll]
    | some e => simp [edit?, ColumnMap.editAll]

theorem configure_eq_error_iff {property : String} {change : Mapping → Mapping} :
    d.apply (.configure property change) = .error (.unmapped property) ↔
      d.columns.patch? property change = none := by
  rw [apply]
  cases d.columns.patch? property change <;> simp

end Draft

/-! ## Ordered dictionaries -/

namespace ColumnMap

/-- A map that starts empty lists each property that was ever inserted, once and in the order of the first
insertions, and with the mapping that is found for it. That is the mapping inserted last, with all later
changes to it in their order, and there is none if nothing was inserted. Only then does a change, in the
map or in a draft, come upon a property that is not mapped. A further edit leaves what is found for
the other properties, and where they stand. -/
theorem editAll_keeps_places (edits : List Edit) (kept : empty.KeepsNames edits) :
    let columns := empty.editAll edits
    (columns.properties = (inserted edits).eraseDups ∧ columns.properties.Nodup ∧
      columns.mappings.map some = columns.properties.map columns.get?) ∧
    (∀ before m later, edits = before ++ .insert m :: later → m.property ∉ inserted later →
      columns.get? m.property =
        some ((changesOf m.property later).foldl (fun m change => change m) m)) ∧
    (∀ property, columns.get? property = none ↔ property ∉ inserted edits) ∧
    (∀ property change, columns.patch? property change = none ↔ property ∉ inserted edits) ∧
    (∀ e : Edit, columns.KeepsName e → ∀ other : String, other ≠ e.property →
      (columns.edit e).get? other = columns.get? other ∧
        ∀ i : Nat, (columns.edit e).properties[i]? = some other ↔ columns.properties[i]? = some other) ∧
    ∀ table steps, steps.filterMap Draft.Step.edit? = edits →
      let d := (Draft.ofTable table).attemptAll steps
      d.columns = columns ∧ ∀ property change,
        d.apply (.configure property change) = .error (.unmapped property) ↔
          property ∉ inserted edits := by
  intro columns
  have listed : columns.properties = (inserted edits).eraseDups := properties_editAll kept
  have distinct : columns.properties.Nodup := listed ▸ nodup_eraseDups _
  have unmapped (property : String) : property ∉ columns.properties ↔ property ∉ inserted edits := by
    rw [listed, List.mem_eraseDups]
  refine ⟨⟨listed, distinct, ?_⟩, ?_, ?_, ?_, ?_, ?_⟩
  · rw [properties, List.map_map]
    exact List.map_congr_left fun m member => (get?_of_mem distinct member).symm
  · rintro before m later rfl last
    rw [get?_editAll kept, List.foldl_append, List.foldl_cons, Edit.entry, if_pos rfl]
    exact foldl_entry_of_not_inserted last m
  · intro property
    rw [get?_eq_none_iff, unmapped]
  · intro property change
    rw [patch?_eq_none_iff, unmapped]
  · intro e named other apart
    refine ⟨?_, getElem?_properties_edit named apart⟩
    rw [get?_edit named, Edit.entry_of_ne apart]
  · -- In a draft, only the steps that edit the columns count.
    intro table steps made d
    have same : d.columns = columns := by
      rw [Draft.columns_attemptAll, made]
      rfl
    refine ⟨same, fun property change => ?_⟩
    rw [Draft.configure_eq_error_iff, same, patch?_eq_none_iff, unmapped]

end ColumnMap

def Sample.edits : List ColumnMap.Edit :=
  [.insert (.plain "Id" "id"), .patch "Name" fun m => { m with property := "Id" },
    .patch "Id" fun m => { m with computed := some "0" }, .insert (.plain "Name" "name"),
    .insert (.plain "Id" "foo_id"), .patch "Id" fun m => { m with readOnly := true },
    .patch "Name" fun m => { m with column := "title" },
    .patch "Id" fun m => { m with column := m.column ++ "s" }]

namespace ColumnMap

theorem editAll_keeps_places_replaced :
    empty.KeepsNames Sample.edits ∧
      let columns := empty.editAll Sample.edits
      columns.properties = ["Id", "Name"] ∧
        columns.get? "Id" = some { Mapping.plain "Id" "foo_ids" with readOnly := true } ∧
        (∀ change, columns.patch? "Size" change = none) ∧
        (columns.edit (.insert (.plain "Size" "size"))).get? "Name" = columns.get? "Name" := by
  have kept : empty.KeepsNames Sample.edits := by decide
  have places := editAll_keeps_places Sample.edits kept
  refine ⟨kept, places.1.1.trans (by decide), ?_, ?_, ?_⟩
  · exact places.2.1 (Sample.edits.take 4) (.plain "Id" "foo_id") (Sample.edits.drop 5) rfl (by decide)
  · exact fun change => (places.2.2.2.1 "Size" change).2 (by decide)
  · exact (places.2.2.2.2.1 (.insert (.plain "Size" "size")) trivial "Name" (by decide)).1

end ColumnMap

end EntitySql
