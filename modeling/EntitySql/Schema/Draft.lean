import EntitySql.Schema

/-! Schemas under construction. -/

set_option autoImplicit false

namespace EntitySql

structure Draft where
  table : String
  tableAlias : Option String
  columns : ColumnMap
  key : Option String
  joins : List Join
  ordering : Option SortOrder

namespace Draft

def ofTable (table : String) : Draft :=
  ⟨table, none, .empty, none, [], none⟩

inductive Step where
  | map (m : Mapping)
  /-- Change a mapping that is there. -/
  | configure (property : String) (patch : Mapping → Mapping)
  | key (property : String)
  | table (name : String)
  | tableAlias (name : String)
  | join (j : Join)
  | order (o : SortOrder)
  /-- Give up for a reason. -/
  | reject (reason : String)

def apply (d : Draft) : Step → Except Error Draft
  | .map m => .ok { d with columns := d.columns.insert m }
  | .configure property patch =>
    match d.columns.patch? property patch with
    | some columns => .ok { d with columns }
    | none => .error (.unmapped property)
  | .key property => .ok { d with key := some property }
  | .table name => .ok { d with table := name }
  | .tableAlias name => .ok { d with tableAlias := some name }
  | .join j => .ok { d with joins := d.joins ++ [j] }
  | .order o => .ok { d with ordering := some o }
  | .reject reason => .error (.misconfigured (.rejected reason))

/-- Take steps up to the first that fails. -/
def run (d : Draft) (steps : List Step) : Except Error Draft :=
  steps.foldlM apply d

def unmappedOrdering (d : Draft) : Option String :=
  d.ordering.bind fun o => if (d.columns.get? o.property).isSome then none else some o.property

theorem isSome_of_unmappedOrdering_eq_none {d : Draft} (none_left : d.unmappedOrdering = none)
    {o : SortOrder} (ordered : d.ordering = some o) : (d.columns.get? o.property).isSome = true := by
  simpa [unmappedOrdering, ordered, Option.isSome_iff_ne_none] using none_left

/-- The finished schema. The alias defaults to the initials of the table's name. -/
def build (d : Draft) : Except Error Schema :=
  if named : Text.allBlank d.table = false then
    match d.key with
    | none => .error (.misconfigured (.noKey d.table))
    | some key =>
      if mapped : (d.columns.get? key).isSome = true then
        match complete : d.unmappedOrdering with
        | some property => .error (.unmapped property)
        | none =>
          .ok {
            table := d.table
            tableAlias := d.tableAlias.getD (Naming.initials d.table)
            columns := d.columns
            key := key
            joins := d.joins
            ordering := d.ordering
            table_not_blank := named
            key_mapped := mapped
            ordering_mapped := fun _ ordered => isSome_of_unmappedOrdering_eq_none complete ordered }
      else .error (.misconfigured (.unmappedKey key d.table))
  else .error (.misconfigured .blankTable)

end Draft

end EntitySql
