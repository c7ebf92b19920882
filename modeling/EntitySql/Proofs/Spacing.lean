import EntitySql.Text.Spacing

/-! Spacing of a text in parts. The scan of a part goes on from where the part before it ends, in a quotation
or not, and what is written for a beginning stays as it is whatever follows. -/

set_option autoImplicit false

namespace EntitySql.Text

/-- Where a scan stands: the quote that it is in, whether something was written, and whether white space
was passed since. -/
structure Scan where
  inside : Option Char
  started : Bool
  gap : Bool

namespace Scan

def start : Scan :=
  ⟨none, false, false⟩

def step (s : Scan) (c : Char) : Scan :=
  match s.inside with
  | some q => ⟨if c = q then none else some q, true, false⟩
  | none =>
    if isBlank c then ⟨none, s.started, s.started⟩
    else ⟨if opensQuotation c then some c else none, true, false⟩

def emit (s : Scan) (c : Char) : List Char :=
  match s.inside with
  | some _ => [c]
  | none => if isBlank c then [] else if s.gap then [' ', c] else [c]

def squeeze (s : Scan) (cs : List Char) : List Char :=
  squeezeFrom s.inside s.started s.gap cs

def after (s : Scan) (cs : List Char) : Scan :=
  cs.foldl step s

theorem squeeze_cons (s : Scan) (c : Char) (cs : List Char) :
    s.squeeze (c :: cs) = s.emit c ++ (s.step c).squeeze cs := by
  obtain ⟨inside, started, gap⟩ := s
  cases inside with
  | some q => rfl
  | none =>
    by_cases blank : isBlank c = true
    · simp [squeeze, squeezeFrom, emit, step, blank]
    · cases gap <;> simp [squeeze, squeezeFrom, emit, step, blank]

theorem squeeze_append (s : Scan) (cs ds : List Char) :
    s.squeeze (cs ++ ds) = s.squeeze cs ++ (s.after cs).squeeze ds := by
  induction cs generalizing s with
  | nil => rfl
  | cons c cs ih =>
    rw [List.cons_append, squeeze_cons, ih, squeeze_cons, List.append_assoc]
    rfl

def between : Scan :=
  ⟨none, true, false⟩

theorem after_append (s : Scan) (cs ds : List Char) : s.after (cs ++ ds) = (s.after cs).after ds :=
  List.foldl_append

theorem after_cons (s : Scan) (c : Char) (cs : List Char) : s.after (c :: cs) = (s.step c).after cs :=
  rfl

theorem inside_step {s t : Scan} (same : s.inside = t.inside) (c : Char) :
    (s.step c).inside = (t.step c).inside := by
  unfold step
  rw [same]
  split
  · rfl
  · split <;> rfl

theorem inside_after {s t : Scan} (same : s.inside = t.inside) (cs : List Char) :
    (s.after cs).inside = (t.after cs).inside := by
  induction cs generalizing s t with
  | nil => exact same
  | cons c cs ih => exact ih (inside_step same c)

theorem started_step {s : Scan} (started : s.started = true) (c : Char) : (s.step c).started = true := by
  unfold step
  split
  · rfl
  · split
    · exact started
    · rfl

theorem started_after {s : Scan} (started : s.started = true) (cs : List Char) :
    (s.after cs).started = true := by
  induction cs generalizing s with
  | nil => exact started
  | cons c cs ih => exact ih (started_step started c)

end Scan

/-- A text with more behind it is written as it is alone, and then what there is more. -/
theorem normalizeSpaces_append (s t : String) :
    normalizeSpaces (s ++ t) =
      normalizeSpaces s ++ String.ofList ((Scan.start.after s.toList).squeeze t.toList) := by
  rw [normalizeSpaces, normalizeSpaces, String.toList_append, ← String.ofList_append]
  exact congrArg String.ofList (Scan.start.squeeze_append s.toList t.toList)

end EntitySql.Text
