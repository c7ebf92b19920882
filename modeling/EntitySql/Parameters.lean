import EntitySql.Value

/-! Parameter sets: named values in the order in which they were bound. Bindings are only ever added. -/

set_option autoImplicit false

namespace EntitySql

structure Parameters where
  entries : List (String × Value)

namespace Parameters

def empty : Parameters := ⟨[]⟩

def get? (ps : Parameters) (name : String) : Option Value :=
  ps.entries.lookup name

def contains (ps : Parameters) (name : String) : Bool :=
  (ps.get? name).isSome

def size (ps : Parameters) : Nat :=
  ps.entries.length

def names (ps : Parameters) : List String :=
  ps.entries.map (·.1)

def beqEntries : List (String × Value) → List (String × Value) → Bool
  | [], [] => true
  | (m, v) :: xs, (n, w) :: ys => m == n && v == w && beqEntries xs ys
  | _, _ => false

instance : BEq Parameters := ⟨fun ps qs => beqEntries ps.entries qs.entries⟩

/-- The names tried in turn: `name`, `name_2`, `name_3`, … -/
def candidate (name : String) : Nat → String
  | 0 => name
  | k + 1 => name ++ "_" ++ toString (k + 2)

def admits (ps : Parameters) (v : Value) (name : String) : Bool :=
  match ps.get? name with
  | none => true
  | some bound => bound == v

/-- The first candidate that admits the value. Candidates differ from each other, so one of the first
`size + 1` is free. -/
def nameFor (ps : Parameters) (name : String) (v : Value) : String :=
  -- Candidates are spelled out one at a time, as the search comes to them.
  let tried := List.range (ps.size + 1)
  candidate name ((tried.find? fun k => ps.admits v (candidate name k)).getD ps.size)

/-- Bind a value under `name`, or under the first candidate that can take it; a name that holds an equal
value is shared. -/
def assign (ps : Parameters) (name : String) (v : Value) : String × Parameters :=
  let chosen := ps.nameFor name v
  (chosen, if ps.contains chosen then ps else ⟨ps.entries ++ [(chosen, v)]⟩)

def assignAll (ps : Parameters) (entries : List (String × Value)) : Parameters :=
  entries.foldl (fun ps entry => (ps.assign entry.1 entry.2).2) ps

theorem entries_initial_of_assign (ps : Parameters) (name : String) (v : Value) :
    ps.entries <+: (ps.assign name v).2.entries := by
  by_cases known : ps.contains (ps.nameFor name v) = true
  · simp [assign, known]
  · simp [assign, known]

theorem get?_assign_of_get? {ps : Parameters} {bound : String} {w : Value}
    (found : ps.get? bound = some w) (name : String) (v : Value) :
    (ps.assign name v).2.get? bound = some w := by
  obtain ⟨added, grown⟩ := ps.entries_initial_of_assign name v
  rw [get?, ← grown, List.lookup_append, ← get?, found, Option.some_or]

theorem contains_assign (ps : Parameters) (name : String) (v : Value) :
    (ps.assign name v).2.contains (ps.assign name v).1 = true := by
  by_cases known : ps.contains (ps.nameFor name v) = true
  · simp [assign, known]
  · rw [assign, if_neg known]
    simp [contains, get?]

end Parameters

end EntitySql
