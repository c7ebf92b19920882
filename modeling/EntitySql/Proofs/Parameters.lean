import Mathlib.Tactic.ByContra
import Std.Data.String.ToNat
import EntitySql.Parameters

/-! The search for a name, and what binding does to a parameter set. The search always ends: the
candidates are pairwise distinct, so among the first `size + 1` of them there is one that is free. -/

set_option autoImplicit false

namespace EntitySql

theorem lookup_eq_none_iff {listed : List (String × Value)} {name : String} :
    listed.lookup name = none ↔ name ∉ listed.map (·.1) := by
  simp only [List.lookup_eq_none_iff, List.mem_map, not_exists, not_and, bne_iff_ne]
  exact forall₂_congr fun _ _ => ne_comm

namespace Parameters

theorem candidate_succ_toList (name : String) (k : Nat) :
    (candidate name (k + 1)).toList = name.toList ++ '_' :: (Nat.repr (k + 2)).toList := by
  simp [candidate]

theorem candidate_injective (name : String) {i j : Nat}
    (same : candidate name i = candidate name j) : i = j := by
  have lists := congrArg String.toList same
  cases i with
  | zero =>
    cases j with
    | zero => rfl
    | succ j =>
      have lengths := congrArg List.length lists
      rw [candidate_succ_toList] at lengths
      simp [candidate] at lengths
  | succ i =>
    cases j with
    | zero =>
      have lengths := congrArg List.length lists
      rw [candidate_succ_toList] at lengths
      simp [candidate] at lengths
    | succ j =>
      -- Behind the same name and underscore the numerals are equal.
      rw [candidate_succ_toList, candidate_succ_toList, List.append_cancel_left_eq,
        List.cons.injEq, String.toList_inj] at lists
      have numbers := Nat.repr_injective lists.2
      omega

theorem get?_eq_none_iff (ps : Parameters) (name : String) : ps.get? name = none ↔ name ∉ ps.names :=
  lookup_eq_none_iff

/-- Were the first `size + 1` candidates all bound, there would be more names than entries. -/
theorem exists_free_candidate (ps : Parameters) (name : String) :
    ∃ k ≤ ps.size, ps.get? (candidate name k) = none := by
  by_contra taken
  have bound : (List.range (ps.size + 1)).map (candidate name) ⊆ ps.names := by
    intro tried member
    obtain ⟨k, within, rfl⟩ := List.mem_map.1 member
    by_contra free
    have atMost : k ≤ ps.size := Nat.le_of_lt_succ (List.mem_range.1 within)
    exact taken ⟨k, atMost, (ps.get?_eq_none_iff _).2 free⟩
  have distinct : ((List.range (ps.size + 1)).map (candidate name)).Nodup :=
    List.Pairwise.map _ (fun _ _ apart same => apart (candidate_injective name same)) List.nodup_range
  have counted := List.Nodup.length_le_of_subset distinct bound
  simp only [List.length_map, List.length_range, names, size] at counted
  omega

theorem admits_of_free {ps : Parameters} {name : String} (free : ps.get? name = none) (v : Value) :
    ps.admits v name = true := by
  simp [admits, free]

theorem admits_eq_false_iff {ps : Parameters} {v : Value} {name : String} :
    ps.admits v name = false ↔ ∃ w, ps.get? name = some w ∧ (w == v) = false := by
  cases held : ps.get? name <;> simp [admits, held]

/-- The chosen name is the first candidate that admits the value. -/
theorem nameFor_first (ps : Parameters) (name : String) (v : Value) :
    ∃ k ≤ ps.size, ps.nameFor name v = candidate name k ∧ ps.admits v (candidate name k) = true ∧
      ∀ i < k, ps.admits v (candidate name i) = false := by
  obtain ⟨free, within, unbound⟩ := ps.exists_free_candidate name
  cases found : (List.range (ps.size + 1)).find? fun k => ps.admits v (candidate name k) with
  | none =>
    have refused := List.find?_eq_none.1 found free (List.mem_range.2 (Nat.lt_succ_of_le within))
    exact absurd (admits_of_free unbound v) refused
  | some k =>
    obtain ⟨admitted, member, before⟩ := List.find?_range_eq_some.1 found
    refine ⟨k, Nat.le_of_lt_succ (List.mem_range.1 member), by simp [nameFor, found], admitted, ?_⟩
    intro i earlier
    simpa using before i earlier

theorem nameFor_eq_candidate {ps : Parameters} {name : String} {v : Value} {k : Nat}
    (admitted : ps.admits v (candidate name k) = true)
    (before : ∀ i < k, ps.admits v (candidate name i) = false) : ps.nameFor name v = candidate name k := by
  obtain ⟨j, _, chosen, admits, first⟩ := ps.nameFor_first name v
  rcases Nat.lt_trichotomy j k with earlier | rfl | later
  · rw [before j earlier] at admits
    cases admits
  · exact chosen
  · rw [first k later] at admitted
    cases admitted

/-- Binding a value shares a name that holds an equal value, or adds one entry under a name that is free. -/
theorem assign_cases (ps : Parameters) (name : String) (v : Value) :
    (∃ w, ps.get? (ps.nameFor name v) = some w ∧ (w == v) = true ∧
      ps.assign name v = (ps.nameFor name v, ps)) ∨
    (ps.get? (ps.nameFor name v) = none ∧
      ps.assign name v = (ps.nameFor name v, ⟨ps.entries ++ [(ps.nameFor name v, v)]⟩)) := by
  obtain ⟨k, _, chosen, admitted, _⟩ := ps.nameFor_first name v
  rw [← chosen] at admitted
  cases held : ps.get? (ps.nameFor name v) with
  | none => exact .inr ⟨rfl, by simp [assign, contains, held]⟩
  | some w =>
    refine .inl ⟨w, rfl, ?_, by simp [assign, contains, held]⟩
    simpa [admits, held] using admitted

/-- The name stands for a value: it is bound to it, or to a value equal to it. -/
def Holds (ps : Parameters) (name : String) (v : Value) : Prop :=
  ∃ w, ps.get? name = some w ∧ (w = v ∨ (w == v) = true)

theorem get?_assign (ps : Parameters) (name : String) (v : Value) :
    ∃ w, (ps.assign name v).2.get? (ps.assign name v).1 = some w ∧ (w = v ∨ (w == v) = true) := by
  rcases ps.assign_cases name v with ⟨w, held, same, shared⟩ | ⟨free, added⟩
  · exact ⟨w, by rw [shared]; exact held, .inr same⟩
  · refine ⟨v, ?_, .inl rfl⟩
    rw [added, get?, List.lookup_append, ← get?, free]
    simp

theorem mem_names_assign (ps : Parameters) (name : String) (v : Value) (n : String) :
    n ∈ (ps.assign name v).2.names ↔ n ∈ ps.names ∨ n = (ps.assign name v).1 := by
  rcases ps.assign_cases name v with ⟨w, held, _, shared⟩ | ⟨_, added⟩
  · have known : ps.nameFor name v ∈ ps.names := by
      by_contra absent
      rw [(ps.get?_eq_none_iff _).2 absent] at held
      cases held
    rw [shared]
    constructor
    · exact .inl
    · rintro (member | rfl)
      · exact member
      · exact known
  · rw [added]
    simp [names]

/-- The second set comes from the first by binding values one after the other. -/
def Reaches (ps qs : Parameters) : Prop :=
  ∃ entries, qs = ps.assignAll entries

theorem Reaches.refl (ps : Parameters) : ps.Reaches ps :=
  ⟨[], rfl⟩

theorem Reaches.trans {ps qs rs : Parameters} (first : ps.Reaches qs) (second : qs.Reaches rs) :
    ps.Reaches rs := by
  obtain ⟨entries, rfl⟩ := first
  obtain ⟨others, rfl⟩ := second
  exact ⟨entries ++ others, by simp [assignAll]⟩

theorem reaches_assign (ps : Parameters) (name : String) (v : Value) :
    ps.Reaches (ps.assign name v).2 :=
  ⟨[(name, v)], rfl⟩

/-- What binding one value keeps is kept on the way from one set to another. -/
theorem Reaches.induct {ps qs : Parameters} (reached : ps.Reaches qs) {motive : Parameters → Prop}
    (start : motive ps)
    (step : ∀ (mid : Parameters) (name : String) (v : Value), motive mid → motive (mid.assign name v).2) :
    motive qs := by
  obtain ⟨entries, rfl⟩ := reached
  induction entries generalizing ps with
  | nil => exact start
  | cons entry rest ih => exact ih (step ps entry.1 entry.2 start)

theorem Reaches.get? {ps qs : Parameters} (reached : ps.Reaches qs) {name : String} {w : Value}
    (found : ps.get? name = some w) : qs.get? name = some w :=
  reached.induct (motive := fun rs => rs.get? name = some w) found
    fun _ other v kept => get?_assign_of_get? kept other v

theorem Reaches.initial {ps qs : Parameters} (reached : ps.Reaches qs) : ps.entries <+: qs.entries :=
  reached.induct (motive := fun rs => ps.entries <+: rs.entries) (List.prefix_refl _)
    fun mid name v kept => kept.trans (mid.entries_initial_of_assign name v)

theorem nodup_assign {ps : Parameters} (distinct : ps.names.Nodup) (name : String) (v : Value) :
    (ps.assign name v).2.names.Nodup := by
  rcases ps.assign_cases name v with ⟨_, _, _, shared⟩ | ⟨free, added⟩
  · rw [shared]
    exact distinct
  · have fresh : ps.nameFor name v ∉ ps.names := (ps.get?_eq_none_iff _).1 free
    have longer : (ps.assign name v).2.names = ps.names ++ [ps.nameFor name v] := by
      rw [added]
      simp [names]
    rw [longer, List.nodup_append]
    refine ⟨distinct, by simp, ?_⟩
    intro n member m single same
    obtain rfl : m = ps.nameFor name v := List.mem_singleton.1 single
    exact fresh (same ▸ member)

theorem Reaches.nodup {ps qs : Parameters} (reached : ps.Reaches qs) (distinct : ps.names.Nodup) :
    qs.names.Nodup :=
  reached.induct (motive := fun rs => rs.names.Nodup) distinct
    fun _ name v kept => nodup_assign kept name v

theorem Reaches.admits_eq_false {ps qs : Parameters} (reached : ps.Reaches qs) {name : String} {v : Value}
    (refused : ps.admits v name = false) : qs.admits v name = false := by
  obtain ⟨w, held, unequal⟩ := admits_eq_false_iff.1 refused
  exact admits_eq_false_iff.2 ⟨w, reached.get? held, unequal⟩

/-- The search for a name goes the same way again, however many names were bound in between: what it
passed is as it was, and the name it ended at now holds the value. Only a value that is not equal to
itself would not be recognised. -/
theorem assign_again {ps qs : Parameters} {name : String} {v : Value} (self : (v == v) = true)
    (reached : (ps.assign name v).2.Reaches qs) : qs.assign name v = ((ps.assign name v).1, qs) := by
  obtain ⟨k, _, chosen, _, before⟩ := ps.nameFor_first name v
  obtain ⟨w, bound, same⟩ := ps.get?_assign name v
  have given : (ps.assign name v).1 = candidate name k := chosen
  have held : qs.get? (candidate name k) = some w := by
    rw [← given]
    exact reached.get? bound
  have equal : (w == v) = true := by
    rcases same with rfl | same
    · exact self
    · exact same
  -- The search passes what it passed before, and ends where the value is bound now.
  have passed : ∀ i < k, qs.admits v (candidate name i) = false := fun i earlier =>
    ((ps.reaches_assign name v).trans reached).admits_eq_false (before i earlier)
  have found : qs.nameFor name v = candidate name k :=
    nameFor_eq_candidate (by simp only [admits, held, equal]) passed
  simp [assign, found, chosen, contains, held]

theorem Reaches.holds {ps qs : Parameters} (reached : ps.Reaches qs) {name : String} {v : Value}
    (held : ps.Holds name v) : qs.Holds name v := by
  obtain ⟨w, found, same⟩ := held
  exact ⟨w, reached.get? found, same⟩

end Parameters

end EntitySql
