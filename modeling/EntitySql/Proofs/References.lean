import EntitySql.Proofs.Lowering

/-! The references in a condition. They stand for the values of the comparison that the condition comes from,
and every value that is bound is referred to. -/

set_option autoImplicit false

namespace EntitySql

theorem Value.exists_of_kind_array {v : Value} (array : v.kind = .array) : ∃ items, v = .array items := by
  cases v with
  | array items => exact ⟨items, rfl⟩
  | _ => cases array

def Term.references : Term → List Reference
  | .operand _ => []
  | .reference r => [r]

namespace Condition

mutual

def references : Condition → List Reference
  | .compare _ _ _ right => [right]
  | .contains _ right => [right]
  | .member _ _ items => items
  | .isNull term _ => term.references
  | .truth _ => []
  | .not c => references c
  | .group _ children => referencesOf children

def referencesOf : List Condition → List Reference
  | [] => []
  | c :: rest => references c ++ referencesOf rest

end

end Condition

namespace Comparison

/-- What the operand is compared with: the items of a list, or the one value. -/
def compared (c : Comparison) : List Value :=
  match c.value, c.operator with
  | .array items, .member => items
  | v, _ => [v]

def IsWhole (c : Comparison) : Prop :=
  c.operator = .member → c.value.kind ≠ .array

variable {c : Comparison}

theorem compared_items (operator : c.operator = .member) {items : List Value}
    (value : c.value = .array items) : c.compared = items := by
  simp [compared, operator, value]

theorem compared_whole (whole : c.IsWhole) : c.compared = [c.value] := by
  unfold compared
  split
  · rename_i value operator
    exact absurd (by rw [value]; rfl) (whole operator)
  · rfl

theorem isWhole_of_single (single : c.operator ≠ .member) : c.IsWhole :=
  fun operator => absurd operator single

theorem isWhole_of_null (null : c.value.isNull = true) : c.IsWhole := by
  intro _ array
  obtain ⟨items, value⟩ := Value.exists_of_kind_array array
  rw [value] at null
  cases null

end Comparison

theorem exists_of_forall₂ {α β : Type} {R : α → β → Prop} {first : List α} {second : List β}
    (related : List.Forall₂ R first second) {a : α} (inside : a ∈ first) : ∃ b ∈ second, R a b := by
  induction related with
  | nil => cases inside
  | cons here _ ih =>
    rcases List.mem_cons.1 inside with rfl | later
    · exact ⟨_, List.mem_cons_self, here⟩
    · obtain ⟨b, member, found⟩ := ih later
      exact ⟨b, List.mem_cons_of_mem _ member, found⟩

namespace Comparison

variable (c : Comparison) (left : Operand)

theorem mem_references_withNull {r : Reference} (inside : r ∈ (c.withNull left).references) : r = .null := by
  unfold withNull at inside
  split at inside
  · simp [Condition.references, Term.references] at inside
  · simpa [Condition.references] using inside
  · simpa [Condition.references] using inside

theorem mem_references_relation (r other : Reference) :
    other ∈ (c.relation left r).references ↔ other = r := by
  unfold relation
  split
  · cases negated : c.negate <;> simp [containment, Condition.references]
  · split
    · cases negated : c.negate <;>
        simp [Condition.nullSafe, Condition.references, Condition.referencesOf, Term.references]
    · simp [Condition.references]

/-- The references in a condition stand for what the comparison compares, and all of that is referred to,
except that a comparison with null may be without a reference. -/
theorem Lowered.references_denote {c : Comparison} {left : Operand} {later : Parameters}
    {condition : Condition} (lowered : c.Lowered left later condition) :
    (∀ r ∈ condition.references, ∃ v ∈ c.compared, r.Denotes later left v) ∧
      ∀ v ∈ c.compared, v.isNull = false → ∃ r ∈ condition.references, r.Denotes later left v := by
  cases lowered with
  | withNull null tested =>
    rw [testsNull_iff.1 tested, compared_whole (isWhole_of_null null)]
    constructor
    · intro r inside
      obtain rfl := c.mem_references_withNull left inside
      exact ⟨c.value, List.mem_singleton_self _, null⟩
    · intro v member notNull
      rw [List.mem_singleton.1 member, null] at notNull
      cases notNull
  | noItems operator value => simp [compared_items operator value, Condition.references]
  | items operator value denote =>
    rw [compared_items operator value]
    exact ⟨fun r inside => exists_of_forall₂ denote inside,
      fun v member _ => exists_of_forall₂ denote.flip member⟩
  | item _ _ scalar denotes =>
    rw [compared_whole fun _ => scalar]
    simp [Condition.references, denotes]
  | relation single _ denotes related =>
    rw [relates_iff.1 related, compared_whole (isWhole_of_single single)]
    simp [c.mem_references_relation left, denotes]

end Comparison

end EntitySql
