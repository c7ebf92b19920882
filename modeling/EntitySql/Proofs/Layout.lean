import EntitySql.Proofs.Spacing

/-! Texts that are evenly spaced already. They are written as they are wherever they stand behind other text,
and stay so when they are put together, with single spaces between them and with literals whose content
may be anything. -/

set_option autoImplicit false

namespace EntitySql.Text

/-- Behind other text the scan writes this one as it is, and ends as if nothing had been there. -/
structure Kept (s : String) : Prop where
  written : Scan.between.squeeze s.toList = s.toList
  ended : Scan.between.after s.toList = Scan.between

structure Solid (s : String) : Prop extends Kept s where
  visible : s.toList.head?.any (!isBlank ·) = true

variable {s t : String}

theorem Kept.append (first : Kept s) (second : Kept t) : Kept (s ++ t) := by
  constructor
  · rw [String.toList_append, Scan.squeeze_append, first.written, first.ended, second.written]
  · rw [String.toList_append, Scan.after_append, first.ended, second.ended]

theorem Solid.exists_cons (solid : Solid s) : ∃ c cs, s.toList = c :: cs ∧ isBlank c = false := by
  have visible := solid.visible
  cases chars : s.toList with
  | nil => simp [chars] at visible
  | cons c cs => exact ⟨c, cs, rfl, by simpa [chars] using visible⟩

theorem Solid.ne_empty (solid : Solid s) : s ≠ "" := by
  obtain ⟨c, cs, chars, _⟩ := solid.exists_cons
  rintro rfl
  cases chars

theorem Solid.append (first : Solid s) (second : Kept t) : Solid (s ++ t) := by
  obtain ⟨c, cs, chars, shown⟩ := first.exists_cons
  exact ⟨first.toKept.append second, by simp [chars, shown]⟩

theorem Solid.squeeze_spaced (solid : Solid s) (gap : Bool) :
    (Scan.mk none true gap).squeeze (' ' :: s.toList) = ' ' :: s.toList := by
  obtain ⟨c, cs, chars, shown⟩ := solid.exists_cons
  have written := solid.written
  have space : isBlank ' ' = true := by decide
  rw [chars, Scan.squeeze_cons] at written
  rw [chars, Scan.squeeze_cons, Scan.squeeze_cons]
  simp only [Scan.between, Scan.emit, Scan.step, space, shown, Bool.false_eq_true, if_true, if_false,
    List.nil_append, List.cons_append, List.cons.injEq, true_and] at written ⊢
  exact written

theorem Solid.spaced (solid : Solid s) : Kept (" " ++ s) := by
  obtain ⟨c, cs, chars, shown⟩ := solid.exists_cons
  have ended := solid.ended
  have space : isBlank ' ' = true := by decide
  have shape : (" " ++ s).toList = ' ' :: s.toList := by simp
  constructor
  · rw [shape]
    exact solid.squeeze_spaced false
  · rw [chars, Scan.after_cons] at ended
    rw [shape, chars, Scan.after_cons, Scan.after_cons]
    simp only [Scan.between, Scan.step, space, shown, Bool.false_eq_true, if_true, if_false] at ended ⊢
    exact ended

theorem Solid.beside (first : Solid s) (second : Solid t) : Solid (s ++ " " ++ t) := by
  rw [String.append_assoc]
  exact first.append second.spaced

def IsUnbroken (s : String) : Prop :=
  s ≠ "" ∧ ∀ c ∈ s.toList, isBlank c = false ∧ opensQuotation c = false

theorem Scan.between_plain {cs : List Char} (plain : ∀ c ∈ cs, isBlank c = false ∧ opensQuotation c = false) :
    Scan.between.squeeze cs = cs ∧ Scan.between.after cs = Scan.between := by
  induction cs with
  | nil => exact ⟨rfl, rfl⟩
  | cons c cs ih =>
    obtain ⟨⟨shown, quiet⟩, later⟩ := List.forall_mem_cons.1 plain
    have step : Scan.between.step c = Scan.between := by
      simp [Scan.step, Scan.between, shown, quiet]
    have emitted : Scan.between.emit c = [c] := by
      simp [Scan.emit, Scan.between, shown]
    obtain ⟨written, ended⟩ := ih later
    exact ⟨by rw [squeeze_cons, step, emitted, written, List.singleton_append],
      by rw [after_cons, step, ended]⟩

theorem IsUnbroken.solid (unbroken : IsUnbroken s) : Solid s := by
  obtain ⟨written, ended⟩ := Scan.between_plain unbroken.2
  refine ⟨⟨written, ended⟩, ?_⟩
  cases chars : s.toList with
  | nil => exact absurd (String.toList_eq_nil_iff.1 chars) unbroken.1
  | cons c cs =>
    have shown := (unbroken.2 c (by simp [chars])).1
    simp [shown]

/-- In a literal everything is kept, and quotes in it are doubled, so that none of them ends it for good. -/
theorem Scan.literal (content : List Char) :
    let inside : Scan := ⟨some apostrophe, true, false⟩
    inside.squeeze (doubleQuotes content ++ [apostrophe]) = doubleQuotes content ++ [apostrophe] ∧
      inside.after (doubleQuotes content ++ [apostrophe]) = Scan.between := by
  intro inside
  have opened : Scan.between.step apostrophe = inside := rfl
  have closed : inside.step apostrophe = Scan.between := rfl
  induction content with
  | nil => exact ⟨rfl, rfl⟩
  | cons c content ih =>
    obtain ⟨written, ended⟩ := ih
    by_cases quote : c = apostrophe
    -- The first of the two closes the literal, and the second opens it again.
    · rw [doubleQuotes, if_pos quote, quote, List.cons_append, List.cons_append, squeeze_cons, squeeze_cons,
        after_cons, after_cons, closed, opened, written, ended]
      exact ⟨rfl, rfl⟩
    · have step : inside.step c = inside := by simp [inside, Scan.step, quote]
      rw [doubleQuotes, if_neg quote, List.cons_append, squeeze_cons, after_cons, step, written, ended]
      exact ⟨rfl, rfl⟩

theorem solid_quoted (content : String) : Solid (quoted content) := by
  have shape : (quoted content).toList = apostrophe :: (doubleQuotes content.toList ++ [apostrophe]) := by
    simp [quoted]
  have opened : Scan.between.step apostrophe = ⟨some apostrophe, true, false⟩ := rfl
  obtain ⟨written, ended⟩ := Scan.literal content.toList
  refine ⟨⟨?_, ?_⟩, ?_⟩
  · rw [shape, Scan.squeeze_cons, opened, written]
    rfl
  · rw [shape, Scan.after_cons, opened, ended]
  · rw [shape]
    rfl

theorem Solid.intercalated {sep : String} (apart : ∀ t, Solid t → Kept (sep ++ t)) {first : String}
    {rest : List String} (each : ∀ t ∈ first :: rest, Solid t) :
    Solid (String.intercalate sep (first :: rest)) := by
  induction rest generalizing first with
  | nil => simpa using each
  | cons second rest ih =>
    obtain ⟨head, tail⟩ := List.forall_mem_cons.1 each
    rw [String.intercalate_cons_cons, String.append_assoc]
    exact head.append (apart _ (ih tail))

theorem Kept.intercalated {sep : String} (apart : ∀ t, Solid t → Kept (sep ++ t)) {texts : List String}
    (each : ∀ t ∈ texts, Solid t) : Kept (String.intercalate sep texts) := by
  cases texts with
  | nil => exact ⟨rfl, rfl⟩
  | cons first rest => exact (Solid.intercalated apart each).toKept

def IsBalanced (s : String) : Prop :=
  (Scan.start.after s.toList).inside = none

theorem IsBalanced.after (balanced : IsBalanced s) {scan : Scan} (outside : scan.inside = none) :
    (scan.after s.toList).inside = none := by
  rw [Scan.inside_after (t := Scan.start) outside]
  exact balanced

theorem IsBalanced.append (first : IsBalanced s) (second : IsBalanced t) : IsBalanced (s ++ t) := by
  rw [IsBalanced, String.toList_append, Scan.after_append]
  exact second.after first

theorem Kept.isBalanced (kept : Kept s) : IsBalanced s := by
  have same : Scan.start.inside = Scan.between.inside := rfl
  rw [IsBalanced, Scan.inside_after same, kept.ended]
  rfl

theorem isBalanced_join {texts : List String} (each : ∀ t ∈ texts, IsBalanced t) :
    IsBalanced (String.join texts) := by
  induction texts with
  | nil => rfl
  | cons first rest ih =>
    obtain ⟨head, tail⟩ := List.forall_mem_cons.1 each
    rw [String.join_cons]
    exact head.append (ih tail)

theorem isBalanced_intercalate {sep : String} (between : IsBalanced sep) {texts : List String}
    (each : ∀ t ∈ texts, IsBalanced t) : IsBalanced (String.intercalate sep texts) := by
  induction texts with
  | nil => rfl
  | cons first rest ih =>
    obtain ⟨head, tail⟩ := List.forall_mem_cons.1 each
    cases rest with
    | nil => simpa using head
    | cons second rest =>
      rw [String.intercalate_cons_cons]
      exact (head.append between).append (ih tail)

/-- Behind a text that is not empty and has all its quotations closed, a space and a solid text are written
as they are, whatever white space the first text ends in. -/
theorem normalizeSpaces_append_spaced (visible : s.toList.head?.any (!isBlank ·) = true)
    (balanced : IsBalanced s) (solid : Solid t) :
    normalizeSpaces (s ++ (" " ++ t)) = normalizeSpaces s ++ (" " ++ t) := by
  have started : (Scan.start.after s.toList).started = true := by
    cases chars : s.toList with
    | nil => simp [chars] at visible
    | cons c cs =>
      have shown : isBlank c = false := by simpa [chars] using visible
      exact Scan.started_after (by simp [Scan.start, Scan.step, shown]) cs
  have place : Scan.start.after s.toList = ⟨none, true, (Scan.start.after s.toList).gap⟩ := by
    rw [← started, ← balanced]
  have shape : (" " ++ t).toList = ' ' :: t.toList := by simp
  rw [normalizeSpaces_append, place, shape, solid.squeeze_spaced, ← shape, String.ofList_toList]

end EntitySql.Text
