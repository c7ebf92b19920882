import EntitySql.Proofs.Grammar.Follower
import EntitySql.Proofs.Grammar.Text

/-! Boolean expressions over names, derived level by level and by parentheses. Each is read as what it is
derived as. Without parentheses around it, what follows takes it whole only if it binds tight enough;
otherwise only the last part of it is taken. -/

set_option autoImplicit false

namespace EntitySql.Grammar

/-- The outermost part of a boolean expression. Names are closed, and so is what stands in parentheses. -/
inductive Form where
  | closed
  | test
  | comparison
  | negation
  | conjunction
  | disjunction
  deriving DecidableEq

namespace Form

def ofConnective : Connective → Form
  | .and => .conjunction
  | .or => .disjunction

def level : Form → Nat
  | .closed => memberLevel + 1
  | .test | .comparison => isLevel
  | .negation => notLevel
  | .conjunction => 1
  | .disjunction => 0

/-- How tight it binds before an operator. Nothing that follows gets into a test. -/
def hold : Form → Nat
  | .test => memberLevel + 1
  | form => form.level

theorem le_level {form : Form} {m : Nat} (low : m ≤ isLevel) (held : m ≤ form.hold) : m ≤ form.level := by
  cases form with
  | test => exact low
  | closed | comparison | negation | conjunction | disjunction => exact held

end Form

inductive Derives : Form → List Token → Expr → Prop where
  | name (text : String) : Derives .closed [.name text] (.name text)
  | parenthesised {form : Form} {ts : List Token} {e : Expr} : Derives form ts e →
      Derives .closed (.opening :: (ts ++ [.closing])) e
  | isNull {form : Form} {ts : List Token} {e : Expr} (held : isLevel ≤ form.hold) (negate : Bool) :
      Derives form ts e →
      Derives .test
        (ts ++ .keyword .is :: if negate then [.keyword .not, .keyword .null] else [.keyword .null])
        (.isNull negate e)
  | comparison {l r : Form} {sign : String} {ts us : List Token} {x y : Expr}
      (compares : Operation.ofSymbol sign = .comparison sign) (left : isLevel + 1 < l.hold)
      (right : isLevel + 1 < r.level) : Derives l ts x → Derives r us y →
      Derives .comparison (ts ++ ([.symbol sign] ++ us)) (.binary sign x y)
  | not {form : Form} {ts : List Token} {e : Expr} (tight : notLevel ≤ form.level) : Derives form ts e →
      Derives .negation (.keyword .not :: ts) (.not e)
  | connected (k : Connective) {l r : Form} {ts us : List Token} {x y : Expr}
      (left : (connection k).level ≤ l.hold) (right : (connection k).level < r.level) :
      Derives l ts x → Derives r us y →
      Derives (.ofConnective k) (ts ++ ([connectiveSign k] ++ us)) ((connection k).apply x y)

def Form.Reading : Form → List Token → Expr → Prop
  | .closed => Primary
  | .test => Stands isLevel
  | .comparison => Reads isLevel
  | .negation => Negatable
  | .conjunction => Reads 1
  | .disjunction => Reads 0

namespace Form.Reading

variable {form : Form} {ts : List Token} {e : Expr} {m : Nat}

theorem reads (reading : form.Reading ts e) : Reads form.level ts e := by
  cases form with
  | closed => exact Primary.reads reading _
  | test => exact Stands.readsIn reading (Nat.le_refl _)
  | negation => exact Negatable.reads reading
  | comparison | conjunction | disjunction => exact reading

theorem primary (reading : form.Reading ts e) (tight : isLevel < form.level) : Primary ts e := by
  cases form with
  | closed => exact reading
  | test | comparison | negation | conjunction | disjunction => exact absurd tight (by decide)

theorem stands (reading : form.Reading ts e) (held : isLevel < form.hold) : Stands isLevel ts e := by
  cases form with
  | closed => exact Primary.stands reading isLevel
  | test => exact reading
  | comparison | negation | conjunction | disjunction => exact absurd held (by decide)

theorem negatable (reading : form.Reading ts e) (tight : notLevel ≤ form.level) : Negatable ts e := by
  cases form with
  | closed => exact (Primary.reads reading isLevel).negatable
  | test | comparison => exact reading.reads.negatable
  | negation => exact reading
  | conjunction | disjunction => exact absurd tight (by decide)

theorem held (reading : form.Reading ts e) (low : m ≤ isLevel) (held : m ≤ form.hold) : Reads m ts e :=
  reading.reads.mono (Form.le_level low held)

theorem demanded (reading : form.Reading ts e) {kind : Follower} (held : kind.demand ≤ form.hold) :
    ReadsIn isLevel kind.demand ts e := by
  cases kind with
  | test => exact reading.held (Nat.le_refl _) held
  | comparison | tight =>
    exact (reading.stands (Nat.lt_of_lt_of_le (by decide) held)).readsIn (by decide)

end Form.Reading

theorem Derives.reading {form : Form} {ts : List Token} {e : Expr} (derives : Derives form ts e) :
    form.Reading ts e := by
  induction derives with
  | name text => exact primary_name text
  | parenthesised _ ih => exact ih.reads.parenthesised
  | isNull held negate _ ih => exact ReadsIn.isNull (ih.held (Nat.le_refl _) held) negate
  | @comparison l r sign ts us x y compares left right _ _ ihLeft ihRight =>
    -- Tests leave nothing pending on the left; on the right only closed expressions bind tight enough.
    have operand : ReadsIn isLevel (isLevel + 2) ts x :=
      (ihLeft.stands (Nat.lt_of_succ_lt left)).readsIn (by decide)
    have primary := ihRight.primary (Nat.lt_of_succ_lt right)
    have compared := ReadsIn.operation (signs_of_spelling compares) operand (Nat.le_succ _) (primary.reads _)
    exact compared.mono (Nat.le_succ _) (Nat.le_refl _)
  | not tight _ ih => exact (ih.negatable tight).not
  | @connected k l r ts us x y left right _ _ ihLeft ihRight =>
    have low : (connection k).level ≤ isLevel := by cases k <;> decide
    have connected := ReadsIn.leaning (signs_connective k) (chains_connective k) (ihLeft.held low left)
      (Nat.le_refl _) (ihRight.reads.mono right)
    cases k with
    | and => exact connected
    | or => exact connected

theorem Derives.parse {form : Form} {s : String} {ts : List Token} {e : Expr} (derives : Derives form ts e)
    (lexed : lex s = some ts) : parse s = some e :=
  parse_of_reads lexed derives.reading.reads

theorem Derives.ends {form : Form} {ts : List Token} {e : Expr} (derives : Derives form ts e) :
    ∃ before t, ts = before ++ [t] ∧ ∀ text, t ≠ .symbol text := by
  -- What has a right side ends as that does.
  induction derives with
  | name text => exact ⟨[], _, rfl, by simp⟩
  | @parenthesised form ts e _ ih => exact ⟨.opening :: ts, .closing, rfl, by simp⟩
  | @isNull form ts e held negate _ ih =>
    cases negate with
    | false => exact ⟨ts ++ [.keyword .is], .keyword .null, by simp, by simp⟩
    | true => exact ⟨ts ++ [.keyword .is, .keyword .not], .keyword .null, by simp, by simp⟩
  | @comparison l r sign ts us x y compares left right _ _ ihLeft ihRight =>
    obtain ⟨before, t, rfl, apart⟩ := ihRight
    exact ⟨ts ++ ([.symbol sign] ++ before), t, by simp, apart⟩
  | not tight _ ih =>
    obtain ⟨before, t, rfl, apart⟩ := ih
    exact ⟨.keyword .not :: before, t, rfl, apart⟩
  | @connected k l r ts us x y left right _ _ ihLeft ihRight =>
    obtain ⟨before, t, rfl, apart⟩ := ihRight
    exact ⟨ts ++ ([connectiveSign k] ++ before), t, by simp, apart⟩

section

variable {form : Form} {kind : Follower} {ts us : List Token} {x e : Expr} {f : Expr → Expr}

theorem not_atom_of_loud {state : State} (ran : State.run ⟨[], .operand⟩ ts = some state)
    (loud : Loud state.pending) (parses : Parses (ts ++ us) e) : e.isAtom = false := by
  obtain ⟨last, ran', result⟩ := parses
  rw [State.run_append ran] at ran'
  have still : Loud last.pending := (State.inward_run state.mode us state.pending last ran').2 loud
  obtain ⟨pending, mode⟩ := last
  cases mode with
  | complete inner =>
    simp only [State.result?] at result
    split at result
    · rename_i outcome settled
      cases result
      -- At the end nothing is pending, so the connective was applied as the last of all.
      rcases loud_settle 0 inner still with kept | ⟨_, _, composed⟩
      · rw [settled] at kept
        exact absurd kept not_loud_nil
      · rwa [settled] at composed
    · cases result
  | _ => cases result

theorem Derives.loud (derives : Derives form ts x) (free : form.hold ≤ notLevel) :
    ∃ state, State.run ⟨[], .operand⟩ ts = some state ∧ Loud state.pending := by
  have read := derives.reading.reads
  obtain ⟨pending, last, ran, _⟩ := read [] trivial
  refine ⟨_, ran, ?_⟩
  cases derives with
  | name | parenthesised | isNull | comparison => exact absurd free (by decide)
  | @not form ts e tight inner =>
    have stepped : State.step ⟨[], .operand⟩ (.keyword .not) = some ⟨[.not], .operand⟩ := rfl
    rw [State.run_cons stepped] at ran
    exact (State.inward_run _ ts _ _ ran).2 (loud_singleton trivial)
  | @connected k l r ts us x y left right first second =>
    have low : (connection k).level ≤ isLevel := by cases k <;> decide
    have connects : (connection k).level < notLevel := by cases k <;> decide
    have start : Loose (connection k).level [] := trivial
    have signed := (first.reading.held low left).signed_of_chains (signs_connective k) (chains_connective k) start
    rw [← List.append_assoc, State.run_append signed] at ran
    exact (State.inward_run _ us _ _ ran).2 (loud_singleton connects)

/-- What follows a comparison and binds no looser gets the right side of it, or is refused. -/
theorem Derives.comparison_not_whole (derives : Derives .comparison ts x) (follows : Follows kind us f)
    (binds : kind ≠ .test) : ¬Parses (ts ++ us) (f x) := by
  intro parses
  generalize same : Form.comparison = form at derives
  cases derives with
  | @comparison l r sign ts vs left right compares held tight first second =>
    have operand : ReadsIn isLevel (isLevel + 2) ts left :=
      (first.reading.stands (Nat.lt_of_succ_lt held)).readsIn (by decide)
    have primary := second.reading.primary (Nat.lt_of_succ_lt tight)
    have signs := signs_of_spelling compares
    rw [List.append_assoc, List.append_assoc] at parses
    cases kind with
    | test => exact binds rfl
    | comparison =>
      -- The first comparison is still pending when the sign of the second comes.
      have start : Loose isLevel [] := trivial
      have signed := operand.signed signs (Nat.le_succ _) start
      obtain ⟨state, ran, _⟩ := parses
      rw [← List.append_assoc, State.run_append signed, State.run_append (primary _),
        follows.run_eq_none] at ran
      cases ran
    | tight =>
      -- What binds tighter is applied to the right side first.
      have inner : Reads memberLevel (vs ++ us) (f right) :=
        follows.readsIn (Nat.le_refl _) ((primary.stands memberLevel).readsIn (by decide))
      have read := ReadsIn.operation signs operand (Nat.le_succ _) inner
      exact follows.ne_comparison compares _ _ _ (parses.unique read.parses)
  | connected k => cases k <;> cases same
  | _ => cases same

/-- What follows a boolean expression takes it whole exactly when the expression binds as tight as that
demands. -/
theorem Derives.whole_iff (derives : Derives form ts x) (follows : Follows kind us f) :
    Parses (ts ++ us) (f x) ↔ kind.demand ≤ form.hold := by
  constructor
  · intro parses
    -- A follower makes an atom, and no atom comes of a connective or a negation outside.
    have connected (free : form.hold ≤ notLevel) : kind.demand ≤ form.hold := by
      obtain ⟨state, ran, loud⟩ := derives.loud free
      have composed := not_atom_of_loud ran loud parses
      rw [follows.isAtom] at composed
      cases composed
    cases form with
    | closed | test => cases kind <;> decide
    | comparison =>
      cases kind with
      | test => decide
      | comparison | tight => exact absurd parses (derives.comparison_not_whole follows (by decide))
    | negation | conjunction | disjunction => exact connected (by decide)
  · intro held
    exact (follows.readsIn kind.isLevel_le_level (derives.reading.demanded held)).parses

end

end EntitySql.Grammar
