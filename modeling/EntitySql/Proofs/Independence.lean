import EntitySql.Statement.Printer
import EntitySql.Proofs.Calls
import EntitySql.Proofs.KeyFilter
import EntitySql.Proofs.OnePass
import EntitySql.Proofs.Spelling

/-! Statements written in one pass, in two dialects. Each value is quoted and cast as soon as it is bound,
and clauses are joined as they come, so there are many places where what a dialect answers could get into
what is bound. It does not: whatever the dialects are, and whether or not columns are qualified, the same
values are bound under the same names in the same order, and the same calls fail, with the same errors. -/

set_option autoImplicit false

namespace EntitySql

/-- The two leave the same parameters, and they fail with the same error or not at all. -/
def Binding.Alike {α β : Type} (x : Binding α) (y : Binding β) : Prop :=
  ∀ ps, (x.outcome ps).2 = (y.outcome ps).2 ∧
    ∀ e, (x.outcome ps).1 = .error e ↔ (y.outcome ps).1 = .error e

theorem Binding.Alike.map {α β γ : Type} (f : α → β) (g : α → γ) (x : Binding α) :
    Alike (f <$> x) (g <$> x) := by
  intro ps
  rw [outcome_map, outcome_map]
  refine ⟨rfl, fun e => ?_⟩
  cases (x.outcome ps).1 with
  | ok a => simp [Except.map]
  | error other => simp [Except.map]

structure WrittenAssignment where
  column : String
  value : String
  isUpdatable : Bool

def Assignment.written (d : Dialect) (key : String) (a : Assignment) : WrittenAssignment :=
  ⟨a.column d, a.value d, a.isUpdatable key⟩

namespace Repository

def writeAssignmentsOf (r : Repository) (d : Dialect) (purpose : Purpose) (record : Record) :
    List (String × Value) → Binding (List WrittenAssignment)
  | [] => return []
  | (property, value) :: rest => do
    let mapping ← Binding.ofExcept (r.schema.resolve property)
    let column := d.quoteIdentifier mapping.column
    let updatable := property ≠ r.schema.key && !mapping.isInsertOnly
    match mapping.writing purpose with
    | .omit => r.writeAssignmentsOf d purpose record rest
    | .generate generator =>
      let others ← r.writeAssignmentsOf d purpose record rest
      return ⟨column, generator record, updatable⟩ :: others
    | .bind =>
      let name ← Binding.assign (Naming.placeholder mapping.column []) (mapping.stored value)
      let written := match mapping.columnType with
        | some type => d.cast (d.parameter name) (d.columnTypeName type)
        | none => d.parameter name
      let others ← r.writeAssignmentsOf d purpose record rest
      return ⟨column, written, updatable⟩ :: others

variable (r : Repository) (d : Dialect)

def insertionText (written : List WrittenAssignment) : String :=
  "INSERT INTO " ++ d.quoteIdentifier r.schema.table
    ++ " (" ++ String.intercalate "," (written.map (·.column)) ++ ")"
    ++ " VALUES (" ++ String.intercalate "," (written.map (·.value)) ++ ")"

def writeCreate (record : Record) : Binding String := do
  let written ← r.writeAssignmentsOf d .insertion record record.values
  return Text.normalizeSpaces (r.insertionText d written)

/-- Columns are quoted already when it is decided which of them are overwritten. -/
def conflictText (policy : OnConflict) (written : List WrittenAssignment) : String :=
  let overwritten := match policy with
    | .update => (written.filter (·.isUpdatable)).map fun a => a.column ++ " = EXCLUDED." ++ a.column
    | .nothing => []
  " ON CONFLICT(" ++ d.quoteIdentifier r.schema.keyMapping.column ++ ")"
    ++ if overwritten.isEmpty then " DO NOTHING" else " DO UPDATE SET " ++ String.intercalate "," overwritten

def writeUpsert (record : Record) (policy : OnConflict) : Binding String := do
  let written ← r.writeAssignmentsOf d .insertion record record.values
  return Text.normalizeSpaces (r.insertionText d written ++ r.conflictText d policy written)

def writeKeyFilter (key : Value) : Binding String :=
  (r.keyPredicate key).write d none r.schema

def writeUpdate (record : Record) : Binding String := do
  let some key := record.get? r.schema.key
    | throw (.misconfigured (.missingKeyValue r.entity r.schema.key))
  let written ← r.writeAssignmentsOf d .update record record.values
  let changes := (written.filter (·.isUpdatable)).map fun a => a.column ++ " = " ++ a.value
  if changes.isEmpty then throw (.misconfigured (.nothingToUpdate r.entity))
  let filter ← r.writeKeyFilter d key
  return Text.normalizeSpaces ("UPDATE " ++ d.quoteIdentifier r.schema.table
    ++ " SET " ++ String.intercalate "," changes ++ " WHERE " ++ filter)

def writeDelete (key : Value) : Binding String := do
  let filter ← r.writeKeyFilter d key
  return Text.normalizeSpaces ("DELETE FROM " ++ d.quoteIdentifier r.schema.table ++ " WHERE " ++ filter)

def writeOrdering : Except Error String :=
  match r.schema.ordering with
  | none => return ""
  | some o => do
    let mapping ← r.schema.resolve o.property
    let target := if mapping.computed.isSome then mapping.column else mapping.reference r.schema.scope
    return " ORDER BY " ++ d.quoteIdentifier target ++ " " ++ o.direction.keyword

def writeFind (p : Option Predicate) : Binding String := do
  let all := r.selection none
  let start := "SELECT " ++ String.intercalate "," (all.columns.map (all.item d)) ++ " FROM " ++ all.source d
  let filter ← Predicate.writeFilter d r.schema.scope r.schema p
  let ordering ← Binding.ofExcept (r.writeOrdering d)
  return Text.normalizeSpaces
    (start ++ (if filter.isEmpty then "" else " WHERE " ++ filter) ++ ordering)

variable (purpose : Purpose) (record : Record)

theorem writeAssignmentsOf_eq (values : List (String × Value)) :
    r.writeAssignmentsOf d purpose record values =
      List.map (·.written d r.schema.key) <$> r.assignmentsOf purpose record values := by
  induction values with
  | nil => rfl
  | cons entry rest ih =>
    obtain ⟨property, value⟩ := entry
    rw [writeAssignmentsOf, assignmentsOf, map_bind]
    refine congrArg (Binding.ofExcept (r.schema.resolve property) >>= ·) (funext fun mapping => ?_)
    cases mapping.writing purpose
    -- Omitted, generated and bound, in this order.
    · exact ih
    · dsimp only
      refine Binding.bind_of_map ih fun others => ?_
      rw [map_pure]
      rfl
    · dsimp only
      rw [map_bind]
      refine congrArg (Binding.assign _ _ >>= ·) (funext fun name => ?_)
      refine Binding.bind_of_map ih fun others => ?_
      rw [map_pure]
      rfl

theorem map_written {β : Type} (f : String → String → β) (assignments : List Assignment) (key : String) :
    (assignments.map (·.written d key)).map (fun a => f a.column a.value) =
      assignments.map fun a => f (a.column d) (a.value d) := by
  rw [List.map_map]
  rfl

theorem filter_written (assignments : List Assignment) (key : String) :
    (assignments.map (·.written d key)).filter (·.isUpdatable) =
      (assignments.filter (·.isUpdatable key)).map (·.written d key) := by
  rw [List.filter_map]
  rfl

theorem insertionText_eq (assignments : List Assignment) (conflict : Option Conflict) :
    Insertion.text ⟨r.schema.table, assignments, conflict⟩ d =
      r.insertionText d (assignments.map (·.written d r.schema.key)) ++
        (conflict.map (·.text d)).getD "" := by
  unfold Insertion.text insertionText commaSeparated
  rw [map_written d fun column _ => column, map_written d fun _ value => value]

theorem writeCreate_eq : r.writeCreate d record = (·.text d) <$> r.create record := by
  unfold writeCreate create assignments
  refine Binding.bind_of_map (r.writeAssignmentsOf_eq d .insertion record _) fun assignments => ?_
  rw [map_pure, Statement.text, Statement.rawText, insertionText_eq, Option.map_none, Option.getD_none,
    String.append_empty]

theorem conflict_eq (policy : OnConflict) (assignments : List Assignment) :
    (r.conflict policy assignments).text d =
      r.conflictText d policy (assignments.map (·.written d r.schema.key)) := by
  cases policy with
  | update =>
    let overwrite (column : String) : String :=
      d.quoteIdentifier column ++ " = EXCLUDED." ++ d.quoteIdentifier column
    have overwritten : ((assignments.map (·.written d r.schema.key)).filter (·.isUpdatable)).map
        (fun a => a.column ++ " = EXCLUDED." ++ a.column) =
        ((assignments.filter (·.isUpdatable r.schema.key)).map (·.mapping.column)).map overwrite := by
      rw [filter_written, map_written d fun column _ => column ++ " = EXCLUDED." ++ column, List.map_map]
      rfl
    delta conflictText Conflict.text
    dsimp only [conflict]
    rw [overwritten]
    simp only [List.isEmpty_map]
    rfl
  | nothing =>
    delta conflictText Conflict.text
    rfl

theorem writeUpsert_eq (policy : OnConflict) :
    r.writeUpsert d record policy = (·.text d) <$> r.upsert record policy := by
  unfold writeUpsert upsert assignments
  refine Binding.bind_of_map (r.writeAssignmentsOf_eq d .insertion record _) fun assignments => ?_
  rw [map_pure, Statement.text, Statement.rawText, insertionText_eq, Option.map_some, Option.getD_some,
    conflict_eq]

theorem writeKeyFilter_eq (key : Value) :
    r.writeKeyFilter d key = Condition.text d none <$> (r.keyPredicate key).compile r.schema :=
  Predicate.write_eq d none r.schema _

theorem writeDelete_eq (key : Value) : r.writeDelete d key = (·.text d) <$> r.delete key := by
  unfold writeDelete delete
  refine Binding.bind_of_map (r.writeKeyFilter_eq d key) fun filter => ?_
  rw [map_pure, Statement.text, Statement.rawText, Deletion.text]

theorem writeUpdate_eq : r.writeUpdate d record = (·.text d) <$> r.update record := by
  unfold writeUpdate update assignments
  cases record.get? r.schema.key with
  | none => rfl
  | some key =>
    dsimp only
    refine Binding.bind_of_map (r.writeAssignmentsOf_eq d .update record _) fun assignments => ?_
    rw [filter_written, map_written d fun column value => column ++ " = " ++ value, List.isEmpty_map]
    split
    · rfl
    · refine Binding.bind_of_map (r.writeKeyFilter_eq d key) fun filter => ?_
      rw [map_pure, Statement.text, Statement.rawText, Update.text, commaSeparated]

theorem writeOrdering_eq (filter : Option Condition) :
    r.writeOrdering d = .ok ((r.selection filter).orderingText d) := by
  unfold writeOrdering Selection.orderingText selection
  cases ordered : r.schema.ordering with
  | none =>
    simp only [Schema.orderingMapping_of_none ordered]
    rfl
  | some o =>
    obtain ⟨m, found⟩ := Option.isSome_iff_exists.1 (r.schema.ordering_mapped o ordered)
    simp only [r.schema.orderingMapping_of_get? ordered found, r.schema.resolve_of_get? found]
    rfl

theorem writeFind_eq (p : Option Predicate) : r.writeFind d p = (·.text d) <$> r.find p := by
  unfold writeFind find
  refine Binding.bind_of_map (Predicate.writeFilter_eq d r.schema.scope r.schema p) fun filter => ?_
  rw [r.writeOrdering_eq d filter, map_pure]
  rfl

end Repository

namespace Call

variable (d : Dialect) (qualified : Bool)

def filterScope (schema : Schema) : Option String :=
  if qualified then schema.scope else none

def answer : Call → Binding String
  | .bind name v => Binding.assign name v
  | .compile schema p =>
    Condition.filterText d (filterScope qualified schema) <$> Predicate.compileFilter schema p
  | .find r p => (·.text d) <$> r.find p
  | .get r key => (·.text d) <$> r.get key
  | .getAll r => (·.text d) <$> r.getAll
  | .create r record => (·.text d) <$> r.create record
  | .upsert r record policy => (·.text d) <$> r.upsert record policy
  | .update r record => (·.text d) <$> r.update record
  | .delete r key => (·.text d) <$> r.delete key

def write : Call → Binding String
  | .bind name v => Binding.assign name v
  | .compile schema p => Predicate.writeFilter d (filterScope qualified schema) schema p
  | .find r p => r.writeFind d p
  | .get r key => r.writeFind d (some (r.keyPredicate key))
  | .getAll r => r.writeFind d none
  | .create r record => r.writeCreate d record
  | .upsert r record policy => r.writeUpsert d record policy
  | .update r record => r.writeUpdate d record
  | .delete r key => r.writeDelete d key

theorem write_eq_answer (call : Call) : call.write d qualified = call.answer d qualified := by
  cases call with
  | bind name v => rfl
  | compile schema p => exact Predicate.writeFilter_eq d _ schema p
  | find r p => exact r.writeFind_eq d p
  | get r key => exact r.writeFind_eq d _
  | getAll r => exact r.writeFind_eq d none
  | create r record => exact r.writeCreate_eq d record
  | upsert r record policy => exact r.writeUpsert_eq d record policy
  | update r record => exact r.writeUpdate_eq d record
  | delete r key => exact r.writeDelete_eq d key

theorem answer_alike (call : Call) (d e : Dialect) (qualified qualified' : Bool) :
    Binding.Alike (call.answer d qualified) (call.answer e qualified') := by
  cases call with
  | bind name v => exact fun ps => ⟨rfl, fun _ => Iff.rfl⟩
  | compile schema p => exact .map _ _ (Predicate.compileFilter schema p)
  | find r p => exact .map _ _ (r.find p)
  | get r key => exact .map _ _ (r.get key)
  | getAll r => exact .map _ _ r.getAll
  | create r record => exact .map _ _ (r.create record)
  | upsert r record policy => exact .map _ _ (r.upsert record policy)
  | update r record => exact .map _ _ (r.update record)
  | delete r key => exact .map _ _ (r.delete key)

/-- A call that is written while it binds gives the text that is otherwise written afterwards. With any two
dialects, and with or without qualified columns, it binds the same values under the same names in the same
order, also when it fails, and it fails with the same error or not at all. -/
theorem dialects_bind_alike (call : Call) (d e : Dialect) (qualified qualified' : Bool) :
    call.write d qualified = call.answer d qualified ∧
      Binding.Alike (call.write d qualified) (call.write e qualified') := by
  refine ⟨call.write_eq_answer d qualified, ?_⟩
  rw [write_eq_answer, write_eq_answer]
  exact call.answer_alike d e qualified qualified'

end Call

end EntitySql
