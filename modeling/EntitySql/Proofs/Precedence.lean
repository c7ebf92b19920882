import EntitySql.Proofs.Reading
import EntitySql.Proofs.Sample

/-! Printed conditions are read back with the truth they have as trees, alone and as parts of larger
conjunctions and disjunctions. -/

set_option autoImplicit false

namespace EntitySql

open Grammar

namespace Condition

def truthAsRead (scope : Option String) (c : Condition) (atom : Expr → Truth) : Truth :=
  c.truthFrom fun single => atom (single.atomExpr scope)

/-- The text of the condition is a chain of conjuncts with the truth of the condition. -/
def IsReadBack (scope : Option String) (c : Condition) : Prop :=
  ReadsAs .and (c.text Dialect.postgres scope) (c.truthAsRead scope)

theorem IsReadAs.isReadBack {scope : Option String} {c : Condition}
    (read : c.IsReadAs (·.expr scope) scope) : c.IsReadBack scope := by
  refine ReadsParts.readsAs read fun atom => ?_
  rw [truthFrom_conjuncts, truthAsRead]
  simp only [leafExpr_expr]

end Condition

theorem Sample.foos_isPlain (tableAlias : String)
    (plain : tableAlias.toList.all isWordChar = true) : Sample.foos.IsPlain (some tableAlias) := by
  constructor
  · intro m member
    simp only [Sample.foos, List.mem_cons, List.not_mem_nil, or_false] at member
    rcases member with rfl | rfl | rfl | rfl <;> exact ⟨by decide, by decide, by decide⟩
  · intro m member
    simp only [Sample.foos, List.mem_cons, List.not_mem_nil, or_false] at member
    rcases member with rfl | rfl | rfl | rfl <;> rfl
  · intro qualifier same
    cases same
    exact plain

namespace Predicate

variable {schema : Schema} {scope : Option String} {later : Parameters}

theorem readBack_of_lowered (plain : schema.IsPlain scope) {p : Predicate} {condition : Condition}
    (lowered : p.Lowered schema later condition) : condition.IsReadBack scope := by
  refine (isReadAs_of_lowered (fun c _ left resolved => ?_) lowered).isReadBack
  have mapping := plain.mapping (Comparison.mapping_mem resolved)
  exact ⟨mapping.nonempty, .inr (Operand.IsReadAs.demanded (left.reads mapping) c.follower)⟩

/-- The printed text of a compiled predicate is read back, and has the truth of the condition whatever
that of the single comparisons and tests in it; also between two atoms, where it is one part of their
conjunction or disjunction. -/
theorem text_keeps_precedence (schema : Schema) (scope : Option String) (plain : schema.IsPlain scope)
    (p : Predicate) {ps final : Parameters} {condition : Condition}
    (compiled : p.compile schema ps = .ok condition final) :
    (∃ e, parse (condition.text Dialect.postgres scope) = some e ∧
      ∀ atom, e.truthFrom atom = condition.truthAsRead scope atom) ∧
    ∀ (k : Connective) (before after : String) (x y : Expr), parse before = some x → parse after = some y →
      x.isAtom = true → y.isAtom = true →
      ∃ e, parse (before ++ " " ++ Dialect.postgres.connective k ++ " " ++
          condition.text Dialect.postgres scope ++ " " ++ Dialect.postgres.connective k ++ " " ++ after) =
          some e ∧
        ∀ atom, e.truthFrom atom = Truth.joined k
          [x.truthFrom atom, condition.truthAsRead scope atom, y.truthFrom atom] := by
  have readBack := readBack_of_lowered plain (compile_lowered schema p compiled (.refl final))
  constructor
  · obtain ⟨ts, first, others, read, chain, truth⟩ := readBack
    refine ⟨_, parse_of_reads read.lex chain.reads, fun atom => ?_⟩
    rw [truthFrom_chained, truth]
  · intro k before after x y parsedBefore parsedAfter atomBefore atomAfter
    obtain ⟨ts, first, others, read, chain, truth⟩ := readBack.inside k
    obtain ⟨us, readBefore, chainBefore⟩ := chain_of_parse k parsedBefore atomBefore
    obtain ⟨vs, readAfter, chainAfter⟩ := chain_of_parse k parsedAfter atomAfter
    have lexed := lex_between readBefore (lexes_connective k) read readAfter
    -- The conjuncts or disjuncts of the text take their places in the larger chain.
    have whole := chainBefore.append (chain.append chainAfter)
    refine ⟨_, parse_of_reads lexed whole.reads, fun atom => ?_⟩
    have inner := Truth.joined_append k ((first :: others).map (·.truthFrom atom)) [y.truthFrom atom]
    have outer := Truth.joined_append k [x.truthFrom atom]
      ((first :: others).map (·.truthFrom atom) ++ [y.truthFrom atom])
    have flat := Truth.joined_append k [x.truthFrom atom] [condition.truthAsRead scope atom, y.truthFrom atom]
    rw [Truth.joined_singleton] at outer flat inner
    rw [truth] at inner
    rw [inner, ← flat] at outer
    rw [truthFrom_chained, ← List.singleton_append, ← List.singleton_append]
    simpa using outer

/-- Conjunctions, disjunctions, a cast path, and a test of two nulls, between two atoms. -/
theorem text_keeps_precedence_between :
    let p := all [ne "TemplateKey" (.text "a"), all [gt "Attributes.b" (.int 1)], any []]
    ∃ condition final, p.compile Sample.foos ⟨[]⟩ = .ok condition final ∧
      Sample.foos.IsPlain (some "f") ∧
      parse "x IS NULL" = some (.isNull false (.name "x")) ∧
      parse "y = @z" = some (.binary "=" (.name "y") (.parameter "z")) ∧
      ∃ e, parse ("x IS NULL" ++ " " ++ Dialect.postgres.connective .or ++ " " ++
          condition.text Dialect.postgres (some "f") ++ " " ++ Dialect.postgres.connective .or ++ " " ++
          "y = @z") = some e ∧
        ∀ atom, e.truthFrom atom = Truth.joined .or
          [Expr.truthFrom atom (.isNull false (.name "x")), condition.truthAsRead (some "f") atom,
            Expr.truthFrom atom (.binary "=" (.name "y") (.parameter "z"))] := by
  intro p
  have compiled : p.compile Sample.foos ⟨[]⟩ = .ok _ _ := rfl
  have before : parse "x IS NULL" = some (.isNull false (.name "x")) := rfl
  have after : parse "y = @z" = some (.binary "=" (.name "y") (.parameter "z")) := rfl
  have between := (text_keeps_precedence Sample.foos (some "f") (Sample.foos_isPlain _ (by decide)) p compiled).2
    .or "x IS NULL" "y = @z" _ _ before after rfl rfl
  exact ⟨_, _, compiled, Sample.foos_isPlain _ (by decide), before, after, between⟩

end Predicate

end EntitySql
