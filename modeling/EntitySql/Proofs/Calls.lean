import EntitySql.Repository
import EntitySql.Proofs.Carriers
import EntitySql.Proofs.Sample

/-! Calls that share one parameter set. None of them does more to it than bind, so what a placeholder of
one statement stands for is not disturbed by the statements made after it, nor by calls that fail. -/

set_option autoImplicit false

namespace EntitySql

theorem Predicate.binds_compileFilter (schema : Schema) (p : Option Predicate) :
    Binding.Binds (compileFilter schema p) := by
  cases p with
  | none => exact .pure _
  | some p => exact .bind (p.binds_compile schema) fun _ => .pure _

namespace Repository

variable (r : Repository)

theorem binds_assignmentsOf (purpose : Purpose) (record : Record) (entries : List (String × Value)) :
    Binding.Binds (r.assignmentsOf purpose record entries) := by
  induction entries with
  | nil => exact .pure _
  | cons entry rest ih =>
    refine .bind (.ofExcept _) fun mapping => ?_
    cases mapping.writing purpose
    -- Omitted, generated and bound, in this order.
    · exact ih
    · exact .bind ih fun _ => .pure _
    · exact .bind (.assign _ _) fun _ => .bind ih fun _ => .pure _

theorem binds_find (p : Option Predicate) : Binding.Binds (r.find p) :=
  .bind (Predicate.binds_compileFilter _ p) fun _ => .pure _

theorem binds_create (record : Record) : Binding.Binds (r.create record) :=
  .bind (r.binds_assignmentsOf .insertion record _) fun _ => .pure _

theorem binds_upsert (record : Record) (policy : OnConflict) : Binding.Binds (r.upsert record policy) :=
  .bind (r.binds_assignmentsOf .insertion record _) fun _ => .pure _

theorem binds_update (record : Record) : Binding.Binds (r.update record) := by
  unfold update
  cases record.get? r.schema.key with
  | none => exact .throw _
  | some key =>
    refine .bind (r.binds_assignmentsOf .update record _) fun assignments => ?_
    dsimp only
    split
    · exact .bind (.throw _) fun _ => .bind (Predicate.binds_compile _ _) fun _ => .pure _
    · exact .bind (Predicate.binds_compile _ _) fun _ => .pure _

theorem binds_delete (key : Value) : Binding.Binds (r.delete key) :=
  .bind (Predicate.binds_compile _ _) fun _ => .pure _

end Repository

inductive Call where
  | bind (name : String) (v : Value)
  | compile (schema : Schema) (p : Option Predicate)
  | find (r : Repository) (p : Option Predicate)
  | get (r : Repository) (key : Value)
  | getAll (r : Repository)
  | create (r : Repository) (record : Record)
  | upsert (r : Repository) (record : Record) (policy : OnConflict)
  | update (r : Repository) (record : Record)
  | delete (r : Repository) (key : Value)

namespace Call

/-- The parameters after a call, whether or not it succeeds. -/
def run : Call → Parameters → Parameters
  | .bind name v, ps => (ps.assign name v).2
  | .compile schema p, ps => (Predicate.compileFilter schema p).left ps
  | .find r p, ps => (r.find p).left ps
  | .get r key, ps => (r.get key).left ps
  | .getAll r, ps => r.getAll.left ps
  | .create r record, ps => (r.create record).left ps
  | .upsert r record policy, ps => (r.upsert record policy).left ps
  | .update r record, ps => (r.update record).left ps
  | .delete r key, ps => (r.delete key).left ps

def runAll (calls : List Call) (ps : Parameters) : Parameters :=
  calls.foldl (fun ps call => call.run ps) ps

theorem reaches_run (call : Call) (ps : Parameters) : ps.Reaches (call.run ps) := by
  cases call with
  | bind name v => exact ps.reaches_assign name v
  | compile schema p => exact Predicate.binds_compileFilter schema p ps
  | find r p => exact r.binds_find p ps
  | get r key => exact r.binds_find _ ps
  | getAll r => exact r.binds_find none ps
  | create r record => exact r.binds_create record ps
  | upsert r record policy => exact r.binds_upsert record policy ps
  | update r record => exact r.binds_update record ps
  | delete r key => exact r.binds_delete key ps

theorem reaches_runAll (calls : List Call) (ps : Parameters) : ps.Reaches (runAll calls ps) := by
  induction calls generalizing ps with
  | nil => exact .refl ps
  | cons call rest ih => exact (call.reaches_run ps).trans (ih (call.run ps))

theorem runAll_append (before after : List Call) (ps : Parameters) :
    runAll (before ++ after) ps = runAll after (runAll before ps) :=
  List.foldl_append

theorem nodup_runAll (calls : List Call) : (runAll calls .empty).names.Nodup :=
  (reaches_runAll calls .empty).nodup List.nodup_nil

/-- Any two moments of a run that starts with nothing bound, whichever of the calls fail: the later
entries begin with the earlier ones, at both moments no name is bound twice, and a name that was bound
at the first still has its value at the second. -/
theorem bindings_only_grow (before after : List Call) :
    let earlier := runAll before .empty
    let later := runAll (before ++ after) .empty
    earlier.entries <+: later.entries ∧ earlier.names.Nodup ∧ later.names.Nodup ∧
      ∀ name v, earlier.get? name = some v → later.get? name = some v := by
  intro earlier later
  have reached : earlier.Reaches later := by
    have onward := reaches_runAll after earlier
    rwa [← runAll_append] at onward
  exact ⟨reached.initial, nodup_runAll before, nodup_runAll (before ++ after),
    fun _ _ found => reached.get? found⟩

end Call

namespace Predicate

/-- Each reference in a compiled condition stands for the value of the comparison it comes from, after the
compilation and after any further calls: the one value that is compared, or the items of a list in their
order, null for null. What is bound is the value, or the document that it denotes where documents are
compared. -/
theorem placeholders_keep_meaning (schema : Schema) (p : Predicate) {ps final : Parameters}
    {condition : Condition} (compiled : p.compile schema ps = .ok condition final) (calls : List Call)
    (d : Dialect) : p.Refers schema d (Call.runAll calls final) condition :=
  (compile_lowered schema p compiled (Call.reaches_runAll calls final)).refers d

/-- Names collide here in three ways: two values of one column, an item of a list with such a second
value, and all of them with what is bound already. -/
theorem placeholders_keep_meaning_colliding :
    let p := all [memberOf "Size" [.int 1, .null, .int 2], eq "Size" (.int 3), eq "Size" (.int 4),
      eq "Attributes.tags" (.array [.null])]
    let ps : Parameters := ⟨[("size_2", .int 5)]⟩
    let calls : List Call := [.bind "size" (.int 6), .delete ⟨Sample.foos, "Foo"⟩ (.int 7)]
    ∃ condition final, p.compile Sample.foos ps = .ok condition final ∧
      final.names = ["size_2", "size_0", "size_2_2", "size", "size_3", "attributes_tags"] ∧
      condition.references.map (·.text Dialect.postgres) = ["@size_0", "NULL", "@size_2_2", "@size", "@size",
        "@size_3", "@size_3", "@attributes_tags::jsonb", "@attributes_tags::jsonb"] ∧
      p.Refers Sample.foos Dialect.postgres (Call.runAll calls final) condition := by
  intro p ps calls
  have compiled : p.compile Sample.foos ps = .ok _ _ := rfl
  exact ⟨_, _, compiled, by decide, by decide,
    placeholders_keep_meaning Sample.foos p compiled calls Dialect.postgres⟩

end Predicate

end EntitySql
