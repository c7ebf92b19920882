import EntitySql.Proofs.Equality
import EntitySql.Proofs.Parameters

/-! The search for a name, look-up by look-up. Nothing in it bounds the number of its look-ups, and yet it ends:
it refuses only names that are bound, it never tries a name twice, and there are only so many bound names.
What it gives is the first candidate that is free or holds an equal value, so two values that are not equal
never share a name that was asked for alike. -/

set_option autoImplicit false

namespace EntitySql.Parameters

structure Search where
  counter : Nat
  tried : String

inductive Progress where
  | continues (search : Search)
  /-- The name that is given, and the set that is left. -/
  | ends (given : String) (after : Parameters)

variable (ps : Parameters) (base : String) (v : Value)

/-- One look-up. A name that is free is bound, one that holds an equal value is shared, and from any other
the search moves on to the next number. -/
def Search.step (s : Search) : Progress :=
  match ps.get? s.tried with
  | none => .ends s.tried ⟨ps.entries ++ [(s.tried, v)]⟩
  | some bound =>
    if bound == v then .ends s.tried ps
    else .continues ⟨s.counter + 1, base ++ "_" ++ toString (s.counter + 1)⟩

/-- The search after so many look-ups; once it has ended it stays so. -/
def search : Nat → Progress
  | 0 => .continues ⟨1, base⟩
  | n + 1 =>
    match search n with
    | .continues s => s.step ps base v
    | .ends given after => .ends given after

variable {ps base v}

theorem search_succ {n : Nat} {s : Search} (sofar : ps.search base v n = .continues s) :
    ps.search base v (n + 1) = s.step ps base v := by
  rw [search, sofar]

/-- While candidates are refused, the counter is one ahead of them, and numbers the next. -/
theorem search_of_refused {n : Nat} (refused : ∀ i < n, ps.admits v (candidate base i) = false) :
    ps.search base v n = .continues ⟨n + 1, candidate base n⟩ := by
  induction n with
  | zero => rfl
  | succ n ih =>
    have before := ih fun i earlier => refused i (Nat.lt_succ_of_lt earlier)
    obtain ⟨w, held, unequal⟩ := admits_eq_false_iff.1 (refused n (Nat.lt_succ_self n))
    simp only [search_succ before, Search.step, held, unequal, Bool.false_eq_true, if_false]
    rfl

theorem search_of_admitted {n : Nat} (refused : ∀ i < n, ps.admits v (candidate base i) = false)
    (admitted : ps.admits v (candidate base n) = true) :
    ps.search base v (n + 1) = .ends (ps.assign base v).1 (ps.assign base v).2 := by
  have given : ps.nameFor base v = candidate base n := nameFor_eq_candidate admitted refused
  rw [search_succ (search_of_refused refused), Search.step]
  rcases ps.assign_cases base v with ⟨w, held, same, shared⟩ | ⟨free, added⟩
  · rw [given] at held
    simp [shared, held, same, given]
  · rw [given] at free
    simp [added, free, given]

/-! ## Runs -/

structure Answer where
  value : Value
  given : String

def answers (ps : Parameters) : List (String × Value) → List Answer
  | [] => []
  | (base, v) :: rest => ⟨v, (ps.assign base v).1⟩ :: (ps.assign base v).2.answers rest

theorem beq_of_answered {name : String} {w : Value} (held : ps.get? name = some w)
    {calls : List (String × Value)} :
    ∀ a ∈ ps.answers calls, a.given = name → (w == a.value) = true := by
  induction calls generalizing ps with
  | nil => simp [answers]
  | cons call rest ih =>
    obtain ⟨base, v⟩ := call
    have later := ih (get?_assign_of_get? held base v)
    intro a member given
    rcases List.mem_cons.1 member with rfl | further
    · -- The name is in use, so it can only be given by sharing it.
      rcases ps.assign_cases base v with ⟨u, found, same, shared⟩ | ⟨free, added⟩
      · have own : ps.nameFor base v = name := by simpa [shared] using given
        rw [own, held] at found
        cases found
        exact same
      · have own : ps.nameFor base v = name := by simpa [added] using given
        rw [own, held] at free
        cases free
    · exact later a further given

theorem pairwise_answers (ps : Parameters) (calls : List (String × Value)) :
    (ps.answers calls).Pairwise fun a b => (a.value == b.value) = false → a.given ≠ b.given := by
  induction calls generalizing ps with
  | nil => exact .nil
  | cons call rest ih =>
    obtain ⟨base, v⟩ := call
    -- After the first call its name stays bound, to a value that every later holder of the name is equal to.
    refine List.pairwise_cons.2 ⟨fun b member unequal same => ?_, ih _⟩
    obtain ⟨w, held, own⟩ := ps.get?_assign base v
    have shared : (w == b.value) = true := beq_of_answered held b member same.symm
    have equal : (v == b.value) = true := by
      rcases own with rfl | alike
      · exact shared
      · exact BEq.trans (BEq.symm alike) shared
    rw [equal] at unequal
    cases unequal

/-- **The search for a name ends, and finds the first that will do.** It takes at most one look-up more than
there are entries, and its counter goes no further than that. The candidates before the one that is given
are all bound to values not equal to the one that is bound. One entry is added if the candidate was free, and
none if it held an equal value. In a run, two values that are not equal are never given the same name,
whatever names were asked for. -/
theorem search_ends_at_first_candidate (ps : Parameters) :
    (∀ base v, ∃ k ≤ ps.size,
      (∀ n ≤ k, ps.search base v n = .continues ⟨n + 1, candidate base n⟩) ∧
      ps.search base v (k + 1) = .ends (ps.assign base v).1 (ps.assign base v).2 ∧
      (ps.assign base v).1 = candidate base k ∧
      (∀ i < k, ∃ w, ps.get? (candidate base i) = some w ∧ (w == v) = false) ∧
      ((ps.get? (candidate base k) = none ∧
          (ps.assign base v).2.entries = ps.entries ++ [(candidate base k, v)]) ∨
        ∃ w, ps.get? (candidate base k) = some w ∧ (w == v) = true ∧ (ps.assign base v).2 = ps)) ∧
    ∀ calls, (ps.answers calls).Pairwise fun a b => (a.value == b.value) = false → a.given ≠ b.given := by
  refine ⟨fun base v => ?_, ps.pairwise_answers⟩
  obtain ⟨k, within, chosen, admitted, refused⟩ := ps.nameFor_first base v
  refine ⟨k, within, fun n upTo => ?_, search_of_admitted refused admitted, chosen,
    fun i earlier => admits_eq_false_iff.1 (refused i earlier), ?_⟩
  · exact search_of_refused fun i earlier => refused i (Nat.lt_of_lt_of_le earlier upTo)
  · rw [← chosen]
    rcases ps.assign_cases base v with ⟨w, held, same, shared⟩ | ⟨free, added⟩
    · exact .inr ⟨w, held, same, by rw [shared]⟩
    · exact .inl ⟨free, by rw [added]⟩

/-- NaN is refused where it is bound already, and the one look-up more than there are entries is needed. A
name that is asked for may look like a numbered one. -/
theorem search_ends_at_first_candidate_numbered :
    let nan : Value := .float (0.0 / 0.0)
    let ps : Parameters := ⟨[("size", nan), ("size_2", .int 5)]⟩
    let calls := [("size", nan), ("size", .int 5), ("size_3", .int 7), ("size", nan)]
    (∃ k ≤ 2, ps.search "size" nan (k + 1) = .ends (ps.assign "size" nan).1 (ps.assign "size" nan).2 ∧
      candidate "size" k = "size_3") ∧
      (ps.answers calls).map Answer.given = ["size_3", "size_2", "size_3_2", "size_4"] ∧
      (ps.answers calls).Pairwise fun a b => (a.value == b.value) = false → a.given ≠ b.given := by
  intro nan ps calls
  obtain ⟨first, apart⟩ := search_ends_at_first_candidate ps
  obtain ⟨k, within, -, ended, given, -⟩ := first "size" nan
  have found : (ps.assign "size" nan).1 = "size_3" := by decide +kernel
  exact ⟨⟨k, within, ended, given ▸ found⟩, by decide +kernel, apart calls⟩

end EntitySql.Parameters
