import EntitySql.Proofs.Grammar.Phrase

/-! Chains of one connective without parentheses. Chains inside a chain are not seen in the text; they
are read as one long chain, from left to right, which has the same truth. -/

set_option autoImplicit false

namespace EntitySql.Grammar

def connectiveSign : Connective → Token
  | .and => .keyword .and
  | .or => .keyword .or

def connection : Connective → Operation
  | .and => .and
  | .or => .or

theorem signs_connective (k : Connective) : Signs [connectiveSign k] (connection k) := by
  cases k with
  | and => exact signs_and
  | or => exact signs_or

theorem chains_connective (k : Connective) : (connection k).chains = true := by
  cases k <;> rfl

inductive Chain (k : Connective) : List Token → Expr → List Expr → Prop where
  | single {ts : List Token} {e : Expr} : Reads ((connection k).level + 1) ts e → Chain k ts e []
  | append {ts us : List Token} {first second : Expr} {others rest : List Expr} :
      Chain k ts first others → Chain k us second rest →
      Chain k (ts ++ connectiveSign k :: us) first (others ++ second :: rest)

/-- The chain as it is read, leaning to the left. -/
def chained (k : Connective) (first : Expr) (others : List Expr) : Expr :=
  others.foldl (connection k).apply first

theorem chained_append (k : Connective) (first second : Expr) (others rest : List Expr) :
    chained k first (others ++ second :: rest) =
      chained k ((connection k).apply (chained k first others) second) rest := by
  simp [chained]

def pendingChain (k : Connective) (outer : List Pending) : Option Expr → List Pending
  | none => outer
  | some left => .operation (connection k) left :: outer

def joinBefore (k : Connective) (before : Option Expr) (e : Expr) : Expr :=
  match before with
  | none => e
  | some left => (connection k).apply left e

theorem Chain.run {k : Connective} {ts : List Token} {first : Expr} {others : List Expr}
    (chain : Chain k ts first others) (before : Option Expr) {outer : List Pending}
    (loose : Loose (connection k).level outer) :
    ∃ pending last, State.run ⟨pendingChain k outer before, .operand⟩ ts = some ⟨pending, .complete last⟩ ∧
      settle (connection k).level pending last = (outer, chained k (joinBefore k before first) others) := by
  induction chain generalizing before with
  | @single ts e reads =>
    have below : Loose ((connection k).level + 1) (pendingChain k outer before) := by
      cases before with
      | none => exact loose.mono (Nat.le_succ _)
      | some left => exact Nat.lt_succ_self _
    obtain ⟨pending, last, ran, settled⟩ := reads _ below
    refine ⟨pending, last, ran, ?_⟩
    rw [settle_of_settled (Nat.le_succ _) settled]
    cases before with
    | none => exact settle_of_loose loose e
    | some left =>
      rw [pendingChain, settle, if_pos (Nat.le_refl _), settle_of_loose loose]
      rfl
  | @append ts us first second others rest _ _ ih ih' =>
    obtain ⟨pending, last, ran, settled⟩ := ih before
    -- The connective settles what was read, which becomes its left side.
    have signed : State.run ⟨pending, .complete last⟩ [connectiveSign k] =
        some ⟨pendingChain k outer (some (chained k (joinBefore k before first) others)), .operand⟩ := by
      rw [signs_connective, State.extend_of_chains (chains_connective k) settled]
      rfl
    obtain ⟨pending', last', ran', settled'⟩ :=
      ih' (some (chained k (joinBefore k before first) others))
    refine ⟨pending', last', ?_, ?_⟩
    · rw [State.run_append ran, ← List.singleton_append, State.run_append signed, ran']
    · rw [settled', chained_append]
      rfl

theorem Chain.reads {k : Connective} {ts : List Token} {first : Expr} {others : List Expr}
    (chain : Chain k ts first others) :
    Reads (connection k).level ts (chained k first others) := by
  intro outer loose
  exact chain.run none loose

theorem truthFrom_connection (atom : Expr → Truth) (k : Connective) (left right : Expr) :
    ((connection k).apply left right).truthFrom atom =
      Truth.joined k [left.truthFrom atom, right.truthFrom atom] := by
  cases k <;> simp [connection, Operation.apply, Expr.truthFrom, Truth.joined, Truth.all, Truth.any]

theorem truthFrom_chained (atom : Expr → Truth) (k : Connective) (first : Expr) (others : List Expr) :
    (chained k first others).truthFrom atom =
      Truth.joined k ((first :: others).map (·.truthFrom atom)) := by
  induction others generalizing first with
  | nil => cases k <;> simp [chained, Truth.joined, Truth.all, Truth.any]
  | cons second rest ih =>
    have step := ih ((connection k).apply first second)
    change (chained k ((connection k).apply first second) rest).truthFrom atom = _
    rw [step, List.map_cons, truthFrom_connection]
    cases k with
    | and => simp [Truth.joined, Truth.all, Truth.and_assoc]
    | or => simp [Truth.joined, Truth.any, Truth.or_assoc]

end EntitySql.Grammar
