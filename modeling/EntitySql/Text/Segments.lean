/-! Splitting a text at a separator. There is always one piece more than there are separators, so the
first piece is given apart from the others. -/

set_option autoImplicit false

namespace EntitySql.Text

def segments (sep : Char) : List Char → List Char × List (List Char)
  | [] => ([], [])
  | c :: cs =>
    let (piece, rest) := segments sep cs
    if c = sep then ([], piece :: rest) else (c :: piece, rest)

theorem length_segments (sep : Char) (cs : List Char) :
    (segments sep cs).2.length = cs.count sep := by
  induction cs with
  | nil => rfl
  | cons c cs ih =>
    by_cases same : c = sep
    · simp [segments, same, ih]
    · simp [segments, same, ih]

theorem segments_of_not_mem (sep : Char) (cs : List Char) (absent : sep ∉ cs) :
    segments sep cs = (cs, []) := by
  induction cs with
  | nil => rfl
  | cons c cs ih =>
    simp only [List.mem_cons, not_or] at absent
    simp [segments, ih absent.2, Ne.symm absent.1]

end EntitySql.Text
