import Mathlib.Data.List.Forall2
import EntitySql.Statement.Printer
import EntitySql.Proofs.Binding
import EntitySql.Proofs.Stored

/-! What writing a record comes to. Its values are taken in their order: some are left out, some give way
to a generated expression, and the others are bound, each under the name of its column or the first
name after that which can take it. -/

set_option autoImplicit false

namespace EntitySql

structure Entry where
  property : String
  mapping : Mapping
  value : Value

namespace Schema

variable (s : Schema)

def entries (values : List (String × Value)) : List Entry :=
  values.filterMap fun (property, value) =>
    (s.columns.mappings.find? (·.property = property)).map (⟨property, ·, value⟩)

def firstUnmapped? (values : List (String × Value)) : Option String :=
  (values.map (·.1)).find? fun property => s.columns.mappings.all (·.property ≠ property)

theorem resolve_of_get? {property : String} {m : Mapping} (found : s.columns.get? property = some m) :
    s.resolve property = .ok m := by
  simp [resolve, found]

theorem entries_cons {property : String} {m : Mapping} (found : s.columns.get? property = some m)
    (value : Value) (rest : List (String × Value)) :
    s.entries ((property, value) :: rest) = ⟨property, m, value⟩ :: s.entries rest := by
  have first : s.columns.mappings.find? (·.property = property) = some m := found
  simp [entries, first]

theorem firstUnmapped?_cons {property : String} {m : Mapping} (found : s.columns.get? property = some m)
    (value : Value) (rest : List (String × Value)) :
    s.firstUnmapped? ((property, value) :: rest) = s.firstUnmapped? rest := by
  have member : m ∈ s.columns.mappings := List.mem_of_find?_eq_some found
  have own : m.property = property := by simpa using List.find?_some found
  have mapped : s.columns.mappings.all (·.property ≠ property) = false :=
    List.all_eq_false.2 ⟨m, member, by simp [own]⟩
  rw [firstUnmapped?, List.map_cons, List.find?_cons, mapped]
  rfl

theorem firstUnmapped?_cons_unmapped {property : String} (missing : s.columns.get? property = none)
    (value : Value) (rest : List (String × Value)) :
    s.firstUnmapped? ((property, value) :: rest) = some property := by
  have unmapped : s.columns.mappings.all (·.property ≠ property) = true := by
    simpa [ColumnMap.get?] using missing
  rw [firstUnmapped?, List.map_cons, List.find?_cons, unmapped]

end Schema

namespace Mapping

def isBound (m : Mapping) : Bool :=
  !m.readOnly && m.onInsert.isNone

def takesPart (m : Mapping) : Purpose → Bool
  | .insertion => !m.readOnly
  | .update => m.isBound

def placeholderText (m : Mapping) (d : Dialect) (name : String) : String :=
  match m.columnType with
  | some type => d.cast (d.parameter name) (d.columnTypeName type)
  | none => d.parameter name

end Mapping

namespace Entry

variable (e : Entry)

/-- The binding is the one that is made on behalf of the entry, before its name is numbered. -/
structure Binds (binding : String × Value) : Prop where
  name : binding.1 = Naming.placeholder e.mapping.column []
  value : e.mapping.Stores e.value binding.2

/-- A parameter stands for the value of the entry. -/
def Held (ps : Parameters) (name : String) : Prop :=
  ∃ stored, e.mapping.Stores e.value stored ∧ ps.Holds name stored

structure Assigned (record : Record) (ps : Parameters) (a : Assignment) : Prop where
  property : a.property = e.property
  mapping : a.mapping = e.mapping
  source : match e.mapping.onInsert with
    | some generator => a.source = .generated (generator record)
    | none => ∃ name, a.source = .parameter name ∧ e.Held ps name

def assign? (purpose : Purpose) (record : Record) (ps : Parameters) : Option Assignment × Parameters :=
  match e.mapping.writing purpose with
  | .omit => (none, ps)
  | .generate generator => (some ⟨e.property, e.mapping, .generated (generator record)⟩, ps)
  | .bind =>
    let (name, ps) := ps.assign (Naming.placeholder e.mapping.column []) (e.mapping.stored e.value)
    (some ⟨e.property, e.mapping, .parameter name⟩, ps)

theorem assign?_cases (purpose : Purpose) (record : Record) (ps : Parameters) :
    (e.mapping.takesPart purpose = false ∧ e.mapping.isBound = false ∧
      e.assign? purpose record ps = (none, ps)) ∨
    (∃ generator, e.mapping.takesPart purpose = true ∧ e.mapping.isBound = false ∧
      e.mapping.onInsert = some generator ∧
      e.assign? purpose record ps = (some ⟨e.property, e.mapping, .generated (generator record)⟩, ps)) ∨
    (e.mapping.takesPart purpose = true ∧ e.mapping.isBound = true ∧ e.mapping.onInsert = none ∧
      let bound := ps.assign (Naming.placeholder e.mapping.column []) (e.mapping.stored e.value)
      e.assign? purpose record ps = (some ⟨e.property, e.mapping, .parameter bound.1⟩, bound.2)) := by
  cases readOnly : e.mapping.readOnly with
  | true =>
    refine .inl ⟨?_, by simp [Mapping.isBound, readOnly], by simp [assign?, Mapping.writing, readOnly]⟩
    cases purpose <;> simp [Mapping.takesPart, Mapping.isBound, readOnly]
  | false =>
    cases generated : e.mapping.onInsert with
    | none =>
      have bound : e.mapping.isBound = true := by
        simp [Mapping.isBound, readOnly, generated]
      refine .inr (.inr ⟨?_, bound, rfl, by simp [assign?, Mapping.writing, readOnly, generated]⟩)
      cases purpose <;> simp [Mapping.takesPart, bound, readOnly]
    | some generator =>
      have unbound : e.mapping.isBound = false := by
        simp [Mapping.isBound, generated]
      -- Only here does the purpose matter: an insertion generates what an update leaves out.
      cases purpose with
      | insertion =>
        exact .inr (.inl ⟨generator, by simp [Mapping.takesPart, readOnly], unbound, rfl,
          by simp [assign?, Mapping.writing, readOnly, generated]⟩)
      | update =>
        exact .inl ⟨unbound, unbound, by simp [assign?, Mapping.writing, readOnly, generated]⟩

theorem parameters_assign? (purpose : Purpose) (record : Record) (ps : Parameters) :
    ∃ bound, (e.assign? purpose record ps).2 = ps.assignAll bound ∧
      List.Forall₂ Binds ([e].filter (·.mapping.isBound)) bound := by
  rcases e.assign?_cases purpose record ps with ⟨_, unbound, same⟩ | ⟨_, _, unbound, _, same⟩ |
    ⟨_, isBound, _, same⟩
  · exact ⟨[], by simp [same, Parameters.assignAll], by simp [unbound]⟩
  · exact ⟨[], by simp [same, Parameters.assignAll], by simp [unbound]⟩
  · refine ⟨[(Naming.placeholder e.mapping.column [], e.mapping.stored e.value)], ?_, ?_⟩
    · simp [same, Parameters.assignAll]
    · simpa [isBound] using ⟨rfl, e.mapping.stores_stored e.value⟩

theorem reaches_assign? (purpose : Purpose) (record : Record) (ps : Parameters) :
    ps.Reaches (e.assign? purpose record ps).2 := by
  obtain ⟨bound, same, _⟩ := e.parameters_assign? purpose record ps
  exact ⟨bound, same⟩

theorem assigned_assign? (purpose : Purpose) (record : Record) {ps later : Parameters}
    (reached : (e.assign? purpose record ps).2.Reaches later) :
    List.Forall₂ (fun e a => Assigned e record later a) ([e].filter (·.mapping.takesPart purpose))
      (e.assign? purpose record ps).1.toList := by
  rcases e.assign?_cases purpose record ps with ⟨omitted, _, same⟩ | ⟨generator, taken, _, generated, same⟩ |
    ⟨taken, _, plain, same⟩
  · simp [same, omitted]
  · have assigned : Assigned e record later ⟨e.property, e.mapping, .generated (generator record)⟩ :=
      ⟨rfl, rfl, by simp [generated]⟩
    simpa [same, taken] using assigned
  · rw [same] at reached ⊢
    have held := reached.holds (ps.get?_assign (Naming.placeholder e.mapping.column [])
      (e.mapping.stored e.value))
    have assigned : Assigned e record later ⟨e.property, e.mapping, .parameter _⟩ :=
      ⟨rfl, rfl, by simpa [plain] using ⟨_, e.mapping.stores_stored e.value, held⟩⟩
    simpa [taken] using assigned

end Entry

namespace Repository

variable (r : Repository) (purpose : Purpose) (record : Record)

theorem assignmentsOf_cons_unmapped {property : String} (missing : r.schema.columns.get? property = none)
    (value : Value) (rest : List (String × Value)) (ps : Parameters) :
    r.assignmentsOf purpose record ((property, value) :: rest) ps = .error (.unmapped property) ps := by
  have unresolved : Binding.ofExcept (r.schema.resolve property) ps = .error (.unmapped property) ps := by
    simp [Schema.resolve, missing, Binding.ofExcept]
    rfl
  exact Binding.bind_of_error unresolved _

theorem assignmentsOf_cons {property : String} {m : Mapping}
    (found : r.schema.columns.get? property = some m) (value : Value) (rest : List (String × Value))
    (ps : Parameters) :
    r.assignmentsOf purpose record ((property, value) :: rest) ps =
      let first := Entry.assign? ⟨property, m, value⟩ purpose record ps
      match r.assignmentsOf purpose record rest first.2 with
      | .ok others final => .ok (first.1.toList ++ others) final
      | .error e final => .error e final := by
  have resolved : Binding.ofExcept (r.schema.resolve property) ps = .ok m ps := by
    rw [r.schema.resolve_of_get? found]
    rfl
  refine (Binding.bind_of_ok resolved _).trans ?_
  dsimp only
  unfold Entry.assign?
  dsimp only
  cases m.writing purpose
  -- Omitted, generated and bound, in this order.
  · dsimp only
    cases r.assignmentsOf purpose record rest ps <;> rfl
  · dsimp only
    cases others : r.assignmentsOf purpose record rest ps with
    | ok assignments final => exact Binding.bind_of_ok others _
    | error e final => exact Binding.bind_of_error others _
  · let bound := ps.assign (Naming.placeholder m.column []) (m.stored value)
    have named : Binding.assign (Naming.placeholder m.column []) (m.stored value) ps =
      .ok bound.1 bound.2 := rfl
    refine (Binding.bind_of_ok named _).trans ?_
    dsimp only
    cases others : r.assignmentsOf purpose record rest bound.2 with
    | ok assignments final => exact Binding.bind_of_ok others _
    | error e final => exact Binding.bind_of_error others _

theorem assignmentsOf_unmapped {values : List (String × Value)} {property : String}
    (unmapped : r.schema.firstUnmapped? values = some property) (ps : Parameters) :
    ∃ final, r.assignmentsOf purpose record values ps = .error (.unmapped property) final := by
  induction values generalizing ps with
  | nil => cases unmapped
  | cons entry rest ih =>
    obtain ⟨name, value⟩ := entry
    cases found : r.schema.columns.get? name with
    | none =>
      rw [r.schema.firstUnmapped?_cons_unmapped found] at unmapped
      cases unmapped
      exact ⟨ps, r.assignmentsOf_cons_unmapped purpose record found value rest ps⟩
    | some m =>
      rw [r.schema.firstUnmapped?_cons found] at unmapped
      obtain ⟨final, failed⟩ := ih unmapped (Entry.assign? ⟨name, m, value⟩ purpose record ps).2
      exact ⟨final, by rw [r.assignmentsOf_cons purpose record found]; simp only [failed]⟩

/-- When all properties are mapped, the entries that take part are assigned in their order. All that is
bound is bound on behalf of entries, one after the other. -/
theorem assignmentsOf_mapped {values : List (String × Value)}
    (mapped : r.schema.firstUnmapped? values = none) (ps : Parameters) :
    ∃ assignments bound,
      r.assignmentsOf purpose record values ps = .ok assignments (ps.assignAll bound) ∧
      List.Forall₂ Entry.Binds ((r.schema.entries values).filter (·.mapping.isBound)) bound ∧
      ∀ later, (ps.assignAll bound).Reaches later →
        List.Forall₂ (fun e a => Entry.Assigned e record later a)
          ((r.schema.entries values).filter (·.mapping.takesPart purpose)) assignments := by
  induction values generalizing ps with
  | nil => exact ⟨[], [], rfl, .nil, fun _ _ => .nil⟩
  | cons entry rest ih =>
    obtain ⟨name, value⟩ := entry
    cases found : r.schema.columns.get? name with
    | none =>
      rw [r.schema.firstUnmapped?_cons_unmapped found] at mapped
      cases mapped
    | some m =>
      rw [r.schema.firstUnmapped?_cons found] at mapped
      let e : Entry := ⟨name, m, value⟩
      obtain ⟨others, more, ran, bindsMore, assigned⟩ := ih mapped (e.assign? purpose record ps).2
      obtain ⟨own, first, bindsOwn⟩ := e.parameters_assign? purpose record ps
      -- What the entry binds comes before what the others bind.
      have whole : (e.assign? purpose record ps).2.assignAll more = ps.assignAll (own ++ more) := by
        rw [first, Parameters.assignAll, Parameters.assignAll, Parameters.assignAll, List.foldl_append]
      have entries : r.schema.entries ((name, value) :: rest) = [e] ++ r.schema.entries rest :=
        r.schema.entries_cons found value rest
      rw [entries, List.filter_append, List.filter_append]
      refine ⟨(e.assign? purpose record ps).1.toList ++ others, own ++ more, ?_,
        List.rel_append bindsOwn bindsMore, fun later reached => ?_⟩
      · rw [r.assignmentsOf_cons purpose record found, ← whole]
        simp only [e, ran]
      · rw [← whole] at reached
        have onward : (e.assign? purpose record ps).2.Reaches later :=
          Parameters.Reaches.trans ⟨_, rfl⟩ reached
        exact List.rel_append (e.assigned_assign? purpose record onward) (assigned later reached)

theorem assigned_of_assignments {ps final : Parameters} {made : List Assignment}
    (ran : r.assignments purpose record ps = .ok made final) :
    List.Forall₂ (fun e a => Entry.Assigned e record final a)
      ((r.schema.entries record.values).filter (·.mapping.takesPart purpose)) made := by
  unfold assignments at ran
  cases unmapped : r.schema.firstUnmapped? record.values with
  | some property =>
    obtain ⟨_, failed⟩ := r.assignmentsOf_unmapped purpose record unmapped ps
    rw [failed] at ran
    cases ran
  | none =>
    obtain ⟨_, _, done, _, assigned⟩ := r.assignmentsOf_mapped purpose record unmapped ps
    rw [done] at ran
    cases ran
    exact assigned _ (.refl _)

end Repository

end EntitySql
