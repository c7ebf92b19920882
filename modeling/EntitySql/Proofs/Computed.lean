import EntitySql.Proofs.Grammar.Boolean
import EntitySql.Proofs.Reading
import EntitySql.Proofs.Sample

/-! Filters on computed columns. The expression is printed as it is, without parentheses of its own, so it
is compared as a whole only if it binds as tight as the comparison demands. -/

set_option autoImplicit false

namespace EntitySql

open Grammar

def Mapping.reading (m : Mapping) (scope : Option String) : Expr :=
  match m.computed with
  | some text => (parse text).getD .null
  | none => .name (m.reference scope)

def Operand.reading (scope : Option String) (o : Operand) : Expr :=
  o.exprFrom (o.mapping.reading scope)

/-- Columns that are not computed need no quotes, nor does the alias, if there is one. Computed columns
have names for the sake of their placeholders. -/
structure Schema.NamesPlain (schema : Schema) (scope : Option String) : Prop where
  named : ∀ m ∈ schema.columns.mappings, m.column ≠ ""
  stored : ∀ m ∈ schema.columns.mappings, m.computed = none → IsIdentifier m.column
  scope : ∀ tableAlias, scope = some tableAlias → tableAlias.toList.all isWordChar = true

namespace Comparison

/-- The forms of expressions that stay whole before what the comparison is printed as. -/
def Keeps (c : Comparison) (keys : List String) : Form → Prop
  | .closed | .test => True
  | .comparison => keys = [] ∧ c.operator = .eq ∧ c.value.isNull = true
  | .negation | .conjunction | .disjunction => False

def KeepsComputed (schema : Schema) (c : Comparison) : Prop :=
  ∀ left text, c.operand schema = .ok left → left.mapping.computed = some text →
    c.IsConstant ∨ ∃ form ts x, lex text = some ts ∧ Derives form ts x ∧ c.Keeps left.keys form

variable {c : Comparison} {keys : List String} {form : Form}

theorem keepsComputed_of_operand {schema : Schema} {left : Operand} {text : String}
    (resolved : c.operand schema = .ok left) (computed : left.mapping.computed = some text)
    (keeps : c.IsConstant ∨ ∃ form ts x, lex text = some ts ∧ Derives form ts x ∧ c.Keeps left.keys form) :
    c.KeepsComputed schema := by
  intro other text' resolved' computed'
  cases resolved.symm.trans resolved'
  cases computed.symm.trans computed'
  exact keeps

theorem keeps_iff (c : Comparison) (form : Form) : c.Keeps [] form ↔ c.follower.demand ≤ form.hold := by
  unfold follower
  cases form with
  | closed | test => split <;> exact ⟨fun _ => by decide, fun _ => trivial⟩
  | comparison =>
    split
    · rename_i test
      exact ⟨fun _ => Nat.le_refl _, fun _ => ⟨rfl, test⟩⟩
    · rename_i other
      exact ⟨fun keeps => absurd keeps.2 other, fun held => absurd held (by decide)⟩
  | negation | conjunction | disjunction =>
    split <;> exact ⟨False.elim, fun held => absurd held (by decide)⟩

theorem Keeps.stands (keeps : c.Keeps keys form) (entered : keys ≠ []) : isLevel < form.hold := by
  cases form with
  | closed | test => decide
  | comparison => exact absurd keeps.1 entered
  | negation | conjunction | disjunction => exact keeps.elim

end Comparison

namespace Operand

variable {scope : Option String} {left : Operand} {text : String} {ts : List Token} {form : Form} {x : Expr}

theorem text_of_computed (whole : left.keys = []) (computed : left.mapping.computed = some text) :
    left.text Dialect.postgres scope = text := by
  simp [Operand.text, whole, Mapping.expression, computed]

theorem reading_of_computed (computed : left.mapping.computed = some text) (lexed : lex text = some ts)
    (derives : Derives form ts x) : left.reading scope = left.exprFrom x := by
  simp [reading, Mapping.reading, computed, derives.parse lexed]

theorem reading_of_stored (stored : left.mapping.computed = none) : left.reading scope = left.expr scope := by
  simp only [reading, Mapping.reading, stored]
  rfl

theorem isReadAs_of_computed {c : Comparison} (computed : left.mapping.computed = some text)
    (lexed : lex text = some ts) (derives : Derives form ts x) (keeps : c.Keeps left.keys form) :
    left.IsReadAs scope c.follower.demand (left.reading scope) := by
  rw [reading_of_computed computed lexed derives]
  by_cases whole : left.keys = []
  · rw [whole, c.keeps_iff] at keeps
    have same : left.exprFrom x = x := by simp [exprFrom, whole]
    rw [same]
    refine ⟨ts, ?_, derives.reading.demanded keeps⟩
    rw [text_of_computed whole computed]
    exact lexed
  · have column : left.mapping.expression Dialect.postgres scope = text := by
      simp [Mapping.expression, computed]
    -- The sign of a path would go on from a symbol, and no such expression ends in one.
    obtain ⟨before, t, rfl, apart⟩ := derives.ends
    have beforePath : LexesBeforePath text (before ++ [t]) := lexFrom_append_sign lexed apart
    rw [← column] at lexed beforePath
    have read : left.IsReadAs scope (memberLevel + 1) (left.exprFrom x) :=
      reads_exprFrom lexed beforePath (derives.reading.stands (keeps.stands whole))
    exact read.demanded c.follower

end Operand

namespace Predicate

variable {schema : Schema} {scope : Option String}

theorem readsOperand_of_keeps (plain : schema.NamesPlain scope) {c : Comparison}
    (keeps : c.KeepsComputed schema) : c.ReadsOperand scope (Operand.reading scope) schema := by
  intro left resolved
  have member := Comparison.mapping_mem resolved
  refine ⟨plain.named _ member, ?_⟩
  cases computed : left.mapping.computed with
  | none =>
    have mapping := Mapping.isPlain_of_identifier (plain.stored _ member computed) computed plain.scope
    rw [Operand.reading_of_stored computed]
    exact .inr (Operand.IsReadAs.demanded (left.reads mapping) c.follower)
  | some text =>
    rcases keeps left text resolved computed with constant | ⟨form, ts, x, lexed, derives, kept⟩
    · exact .inl constant
    · exact .inr (Operand.isReadAs_of_computed computed lexed derives kept)

/-- A single comparison or test of a computed column takes the expression whole exactly when the expression
is of a form that stays whole before it. -/
theorem parse_single_iff (plain : schema.NamesPlain scope) {c : Comparison} {ps final : Parameters}
    {condition : Condition} {left : Operand} {text : String} {form : Form} {ts : List Token} {x : Expr}
    (resolved : c.operand schema = .ok left) (whole : left.keys = [])
    (computed : left.mapping.computed = some text) (lexed : lex text = some ts) (derives : Derives form ts x)
    (compiled : c.compile schema ps = .ok condition final) (single : condition.operand? = some left) :
    parse (condition.text Dialect.postgres scope) = some (condition.tree (Operand.reading scope)) ↔
      c.Keeps left.keys form := by
  have lowered : c.Lowered left final condition := by
    obtain ⟨other, same, rfl, rfl⟩ := Comparison.compile_eq_ok_iff.1 compiled
    cases resolved.symm.trans same
    exact c.condition_lowered left (.refl _)
  have column := plain.named _ (Comparison.mapping_mem resolved)
  obtain ⟨_, kind, demand, leaf⟩ := Comparison.isLeaf_of_lowered column lowered single
  obtain ⟨s, us, printed, behind, follows⟩ : condition.IsLeaf scope left kind := leaf
  have operand : left.reading scope = x := by
    rw [Operand.reading_of_computed computed lexed derives]
    simp [Operand.exprFrom, whole]
  have tree : condition.tree (Operand.reading scope) = condition.leafExpr fun _ => x := by
    rw [Condition.tree, Condition.conjuncts_of_operand? single, operand]
    rfl
  have tokens : lex (condition.text Dialect.postgres scope) = some (ts ++ us) := by
    rw [printed, Operand.text_of_computed whole computed]
    exact (behind.behind lexed).lex
  -- Now the text is the expression with a follower, and its tree has the expression as its operand.
  rw [tree, parse_eq_some_iff tokens, whole, c.keeps_iff, ← demand]
  exact derives.whole_iff follows

/-- The text of a compiled predicate is read as its tree, with computed expressions as whole operands, if
these are of forms that stay whole before what they are compared with: names, parentheses, tests for null,
and comparisons where only a test for null follows. Before a single comparison or test no other form stays
whole. -/
theorem computed_operands_whole (schema : Schema) (scope : Option String) (plain : schema.NamesPlain scope) :
    (∀ (p : Predicate) {ps final : Parameters} {condition : Condition},
      (∀ c ∈ p.leaves, c.KeepsComputed schema) → p.compile schema ps = .ok condition final →
      parse (condition.text Dialect.postgres scope) = some (condition.tree (Operand.reading scope))) ∧
    ∀ (c : Comparison) {ps final : Parameters} {condition : Condition} {left : Operand} {text : String}
      {form : Form} {ts : List Token} {x : Expr},
      c.operand schema = .ok left → left.keys = [] → left.mapping.computed = some text →
      lex text = some ts → Derives form ts x → c.compile schema ps = .ok condition final →
      condition.operand? = some left →
      (parse (condition.text Dialect.postgres scope) = some (condition.tree (Operand.reading scope)) ↔
        c.Keeps left.keys form) := by
  constructor
  · intro p ps final condition keeps compiled
    have operands (c : Comparison) (member : c ∈ p.leaves) := readsOperand_of_keeps plain (keeps c member)
    exact (isReadAs_of_lowered operands (compile_lowered schema p compiled (.refl final))).parse
  · intro c ps final condition left text form ts x resolved whole computed lexed derives compiled single
    exact parse_single_iff plain resolved whole computed lexed derives compiled single

end Predicate

namespace Sample

theorem computed_namesPlain : computed.NamesPlain none := by
  constructor
  · intro m member
    simp only [computed, List.mem_cons, List.not_mem_nil, or_false] at member
    rcases member with rfl | rfl | rfl | rfl <;> decide
  · intro m member stored
    simp only [computed, List.mem_cons, List.not_mem_nil, or_false] at member
    rcases member with rfl | rfl | rfl | rfl
    · exact ⟨by decide, by decide, by decide⟩
    · cases stored
    · cases stored
    · cases stored
  · intro tableAlias qualified
    cases qualified

/-! The expressions that are computed in the sample. -/

theorem computed_test : ∃ ts, lex "(a OR NOT b) IS NOT NULL" = some ts ∧
    Derives .test ts (.isNull true (.or (.name "a") (.not (.name "b")))) := by
  have negation : Derives .negation _ _ := .not (by decide) (.name "b")
  have disjunction : Derives .disjunction _ _ := .connected .or (by decide) (by decide) (.name "a") negation
  have test : Derives .test _ _ := .isNull (by decide) true (.parenthesised disjunction)
  exact ⟨_, rfl, test⟩

theorem computed_comparison : ∃ ts, lex "a = b" = some ts ∧
    Derives .comparison ts (.binary "=" (.name "a") (.name "b")) := by
  have compares : Operation.ofSymbol "=" = .comparison "=" := rfl
  have comparison : Derives .comparison _ _ := .comparison compares (by decide) (by decide) (.name "a") (.name "b")
  exact ⟨_, rfl, comparison⟩

theorem computed_disjunction : ∃ ts, lex "a OR b" = some ts ∧
    Derives .disjunction ts (.or (.name "a") (.name "b")) := by
  have disjunction : Derives .disjunction _ _ := .connected .or (by decide) (by decide) (.name "a") (.name "b")
  exact ⟨_, rfl, disjunction⟩

end Sample

namespace Predicate

/-- Whole operands in all kinds of conditions; a disjunction that is not printed, and one that is not kept. -/
theorem computed_operands_whole_sample :
    let known : Expr := .isNull true (.or (.name "a") (.not (.name "b")))
    let p := all [gt "Known" (.bool true), any [eq "Known" (.bool false), ne "Same" .null],
      memberOf "Flag" []]
    let c : Comparison := ⟨.gt, "Flag", .bool true, false, false⟩
    Sample.computed.NamesPlain none ∧
      (∃ condition final, (∀ c ∈ p.leaves, c.KeepsComputed Sample.computed) ∧
        p.compile Sample.computed ⟨[]⟩ = .ok condition final ∧
        parse (condition.text Dialect.postgres none) = some (condition.tree (Operand.reading none)) ∧
        condition.tree (Operand.reading none) =
          .and (.and (.binary ">" known (.parameter "known"))
            (.or (.or (.binary "=" known (.parameter "known_2"))
                (.and (.isNull false known) (.isNull false (.parameter "known_2"))))
              (.isNull true (.binary "=" (.name "a") (.name "b"))))) (.truth false)) ∧
      ∃ condition final left, c.operand Sample.computed = .ok left ∧
        c.compile Sample.computed ⟨[]⟩ = .ok condition final ∧ condition.operand? = some left ∧
        parse (condition.text Dialect.postgres none) ≠ some (condition.tree (Operand.reading none)) := by
  intro known p c
  have whole := computed_operands_whole Sample.computed none Sample.computed_namesPlain
  have keeps : ∀ c ∈ p.leaves, c.KeepsComputed Sample.computed := by
    intro c member
    simp only [p, all, any, gt, eq, ne, memberOf, compare, Predicate.not, leaves, leavesOf, List.append_nil,
      List.mem_append, List.mem_singleton] at member
    obtain ⟨ts, lexed, test⟩ := Sample.computed_test
    obtain ⟨us, lexed', comparison⟩ := Sample.computed_comparison
    rcases member with rfl | (rfl | rfl) | rfl
    · exact Comparison.keepsComputed_of_operand rfl rfl (.inr ⟨_, ts, _, lexed, test, trivial⟩)
    · exact Comparison.keepsComputed_of_operand rfl rfl (.inr ⟨_, ts, _, lexed, test, trivial⟩)
    · exact Comparison.keepsComputed_of_operand rfl rfl (.inr ⟨_, us, _, lexed', comparison, rfl, rfl, rfl⟩)
    · exact Comparison.keepsComputed_of_operand rfl rfl (.inl ⟨rfl, rfl⟩)
  have compiled : p.compile Sample.computed ⟨[]⟩ = .ok _ _ := rfl
  have resolved : Comparison.operand ⟨.gt, "Flag", .bool true, false, false⟩ Sample.computed = .ok _ := rfl
  have single := c.compile_of_operand _ resolved ⟨[]⟩
  obtain ⟨ts, lexed, disjunction⟩ := Sample.computed_disjunction
  have split := whole.2 c resolved rfl rfl lexed disjunction single rfl
  exact ⟨Sample.computed_namesPlain, ⟨_, _, keeps, compiled, whole.1 p keeps compiled, rfl⟩, _, _, _, resolved,
    single, rfl, split.not.2 id⟩

/-- What is compared is the second half of the disjunction. -/
theorem computed_disjunction_split :
    ∃ condition final, (gt "Flag" (.bool true)).compile Sample.computed ⟨[]⟩ = .ok condition final ∧
      condition.text Dialect.postgres none = "a OR b > @flag" ∧
      parse "a OR b" = some (.or (.name "a") (.name "b")) ∧
      parse (condition.text Dialect.postgres none) =
        some (.or (.name "a") (.binary ">" (.name "b") (.parameter "flag"))) ∧
      parse (condition.text Dialect.postgres none) ≠
        some (.binary ">" (.or (.name "a") (.name "b")) (.parameter "flag")) := by
  have compiled : (gt "Flag" (.bool true)).compile Sample.computed ⟨[]⟩ = .ok _ _ := rfl
  have read : parse "a OR b > @flag" = some (.or (.name "a") (.binary ">" (.name "b") (.parameter "flag"))) := rfl
  refine ⟨_, _, compiled, rfl, rfl, read, ?_⟩
  intro whole
  cases read.symm.trans whole

end Predicate

end EntitySql
