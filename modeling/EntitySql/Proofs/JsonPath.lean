import EntitySql.Proofs.TextArray

/-! Paths into documents, as PostgreSQL reads them. The keys are written as an array and the array as a
literal; neither layer is ended by what a key holds, so the keys come back whole, and no two paths share
a text. -/

set_option autoImplicit false

namespace EntitySql.Dialect

open EntitySql.Text (apostrophe doubleQuotes undoubleQuotes undoubleQuotes_doubleQuotes)
open EntitySql.Dialect.Postgres (arrayText)

def pathText (keys : List String) : List Char :=
  "#>>".toList ++ apostrophe :: doubleQuotes (arrayText (keys.map String.toList)) ++ [apostrophe]

theorem toList_jsonPath (expression : String) (keys : List String) :
    (postgres.jsonPath expression keys).toList = expression.toList ++ pathText keys := by
  have written : postgres.jsonPath expression keys =
      expression ++ "#>>" ++ Text.quoted (String.ofList (arrayText (keys.map String.toList))) := rfl
  simp [written, Text.quoted, pathText]

theorem doubleQuotes_ne_opening (content before after : List Char) :
    doubleQuotes content ++ [apostrophe] ≠ before ++ '>' :: apostrophe :: '\x7b' :: after := by
  have angle : ¬apostrophe = '>' := by decide
  have brace : ¬apostrophe = '\x7b' := by decide
  induction content generalizing before with
  | nil =>
    intro same
    have lengths := congrArg List.length same
    simp [doubleQuotes] at lengths
    omega
  | cons c content ih =>
    intro same
    by_cases quote : c = apostrophe
    · -- Both quotes of a pair lie before the place in question.
      subst quote
      rw [doubleQuotes, if_pos rfl] at same
      rcases before with _ | ⟨_, _ | ⟨_, before⟩⟩
      · exact angle (List.cons.inj same).1
      · exact angle (List.cons.inj (List.cons.inj same).2).1
      · exact ih before (List.cons.inj (List.cons.inj same).2).2
    · rw [doubleQuotes, if_neg quote] at same
      cases before with
      | cons _ before => exact ih before (List.cons.inj same).2
      | nil =>
        have rest := (List.cons.inj same).2
        cases content with
        | nil => cases rest
        | cons d content =>
          by_cases second : d = apostrophe
          · rw [doubleQuotes, if_pos second, second] at rest
            exact brace (List.cons.inj (List.cons.inj rest).2).1
          · rw [doubleQuotes, if_neg second] at rest
            exact second (List.cons.inj rest).1

theorem eq_nil_of_pathText_eq_append {keys others : List String} {before : List Char}
    (same : pathText keys = before ++ pathText others) : before = [] := by
  have sign : "#>>".toList = ['#', '>', '>'] := by decide
  have opened : doubleQuotes (arrayText (others.map String.toList)) =
      '\x7b' :: (doubleQuotes (arrayText (others.map String.toList))).tail := rfl
  rw [pathText, pathText, sign, opened] at same
  match before with
  | [] => rfl
  | [_] | [_, _] | [_, _, _] => simp [apostrophe] at same
  | _ :: _ :: _ :: _ :: before =>
    -- The operator and the opening quote are passed, so all this would be in the literal.
    simp only [List.cons_append, List.nil_append, List.cons.injEq] at same
    refine absurd ?_ (doubleQuotes_ne_opening (arrayText (keys.map String.toList)) (before ++ ['#', '>'])
      ((doubleQuotes (arrayText (others.map String.toList))).tail ++ [apostrophe]))
    simpa using same.2.2.2.2

theorem pathText_injective {keys others : List String} (same : pathText keys = pathText others) :
    keys = others := by
  have literals : doubleQuotes (arrayText (keys.map String.toList)) =
      doubleQuotes (arrayText (others.map String.toList)) := by
    simpa [pathText] using same
  have contents := congrArg undoubleQuotes literals
  rw [undoubleQuotes_doubleQuotes, undoubleQuotes_doubleQuotes, Option.some.injEq] at contents
  have elements := congrArg TextArray.read contents
  rw [TextArray.read_arrayText, TextArray.read_arrayText, Option.some.injEq, List.map_map,
    List.map_map] at elements
  refine (List.map_inj_right fun key other alike => ?_).1 elements
  exact String.toList_inj.1 (Option.some.inj alike)

/-- After the expression and the operator comes one literal. Every quote in it is doubled, so it ends at
its last character, and what it stands for is read as the array of the keys, whatever they hold. So
neither the expression nor the keys can be changed without changing the text. -/
theorem jsonPath_reads_back (expression : String) (keys : List String) :
    (∃ body content,
      (postgres.jsonPath expression keys).toList =
        expression.toList ++ "#>>".toList ++ apostrophe :: body ++ [apostrophe] ∧
      undoubleQuotes body = some content ∧
      TextArray.read content = some (keys.map fun key => some key.toList)) ∧
    ∀ (other : String) (others : List String),
      postgres.jsonPath other others = postgres.jsonPath expression keys ↔
        other = expression ∧ others = keys := by
  constructor
  · refine ⟨_, _, ?_, undoubleQuotes_doubleQuotes (arrayText (keys.map String.toList)), ?_⟩
    · simp [toList_jsonPath, pathText]
    · rw [TextArray.read_arrayText, List.map_map]
      rfl
  · intro other others
    constructor
    · intro same
      have lists := congrArg String.toList same
      rw [toList_jsonPath, toList_jsonPath, List.append_eq_append_iff] at lists
      -- One expression is longer than the other by something that its path begins with.
      rcases lists with ⟨between, longer, tails⟩ | ⟨between, longer, tails⟩
      · obtain rfl := eq_nil_of_pathText_eq_append tails
        rw [List.append_nil, String.toList_inj] at longer
        exact ⟨longer.symm, pathText_injective tails⟩
      · obtain rfl := eq_nil_of_pathText_eq_append tails
        rw [List.append_nil, String.toList_inj] at longer
        exact ⟨longer, (pathText_injective tails).symm⟩
    · rintro ⟨rfl, rfl⟩
      rfl

end EntitySql.Dialect
