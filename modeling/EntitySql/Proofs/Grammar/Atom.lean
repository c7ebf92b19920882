import EntitySql.Proofs.Grammar.Phrase

/-! A text that is read as an atom when it stands alone is read as the same atom beside connectives. What
is pending to its left is touched only by a connective outside all parentheses, and then no atom comes of
the text; nor does one come of it after a negation outside all parentheses. -/

set_option autoImplicit false

namespace EntitySql.Grammar

def Flat : List Pending → Prop
  | [] => True
  | .opened :: _ | .members _ _ _ :: _ => False
  | _ :: outer => Flat outer

/-- Connectives are pending inside parentheses only. -/
def Quiet : List Pending → Prop
  | [] => True
  | .operation operator _ :: outer => (operator.level < notLevel → ¬Flat outer) ∧ Quiet outer
  | _ :: outer => Quiet outer

def Pending.Connects : Pending → Prop
  | .not => True
  | .operation operator _ => operator.level < notLevel
  | .opened | .members _ _ _ => False

/-- The outermost pending part is a connective or a negation. -/
def Loud (pending : List Pending) : Prop :=
  ∃ inner part, pending = inner ++ [part] ∧ part.Connects

theorem loud_singleton {part : Pending} (connects : part.Connects) : Loud [part] :=
  ⟨[], part, rfl, connects⟩

theorem Loud.cons {pending : List Pending} (loud : Loud pending) (part : Pending) :
    Loud (part :: pending) := by
  obtain ⟨inner, last, rfl, connects⟩ := loud
  exact ⟨part :: inner, last, rfl, connects⟩

theorem not_loud_nil : ¬Loud [] := by
  rintro ⟨inner, part, same, _⟩
  simp at same

theorem Loud.inner {part : Pending} {outer : List Pending} (loud : Loud (part :: outer)) :
    Loud outer ∨ outer = [] ∧ part.Connects := by
  obtain ⟨inner, last, same, connects⟩ := loud
  cases inner with
  | nil =>
    simp only [List.nil_append, List.cons.injEq] at same
    exact .inr ⟨same.2, same.1 ▸ connects⟩
  | cons first inner =>
    simp only [List.cons_append, List.cons.injEq] at same
    exact .inl ⟨inner, last, same.2, connects⟩

theorem Loud.tail {part : Pending} {outer : List Pending} (loud : Loud (part :: outer))
    (apart : ¬part.Connects) : Loud outer := by
  rcases loud.inner with onward | ⟨_, connects⟩
  · exact onward
  · exact absurd connects apart

theorem Operation.eq_of_connects {operator : Operation} (connects : operator.level < notLevel) :
    operator = .or ∨ operator = .and := by
  cases operator with
  | or => exact .inl rfl
  | and => exact .inr rfl
  | comparison text => simp [Operation.level, notLevel] at connects
  | like negate => simp [Operation.level, notLevel] at connects
  | other text => simp [Operation.level, notLevel] at connects

theorem isAtom_apply_of_connects {operator : Operation} (connects : operator.level < notLevel)
    (left right : Expr) : (operator.apply left right).isAtom = false := by
  rcases Operation.eq_of_connects connects with rfl | rfl <;> rfl

section

variable (level : Nat) {pending : List Pending} (e : Expr)

theorem quiet_settle (quiet : Quiet pending) : Quiet (settle level pending e).1 := by
  -- Settling takes parts away from the inside only.
  induction pending generalizing e with
  | nil => trivial
  | cons part outer ih =>
    cases part with
    | not =>
      rw [settle]
      split
      · exact ih (.not e) quiet
      · exact quiet
    | operation operator left =>
      rw [settle]
      split
      · exact ih (operator.apply left e) quiet.2
      · exact quiet
    | opened => exact quiet
    | members negate left items => exact quiet

theorem loud_settle (loud : Loud pending) : Loud (settle level pending e).1 ∨
    level ≤ notLevel ∧ (settle level pending e).1 = [] ∧ (settle level pending e).2.isAtom = false := by
  induction pending generalizing e with
  | nil => exact absurd loud not_loud_nil
  | cons part outer ih =>
    cases part with
    | not =>
      rw [settle]
      split
      · rename_i applied
        rcases loud.inner with onward | ⟨rfl, _⟩
        · exact ih (.not e) onward
        · exact .inr ⟨applied, rfl, rfl⟩
      · exact .inl loud
    | operation operator left =>
      rw [settle]
      split
      · rename_i applied
        rcases loud.inner with onward | ⟨rfl, connects⟩
        · exact ih (operator.apply left e) onward
        · -- The connective itself is applied, as the last of all.
          have below : operator.level < notLevel := connects
          exact .inr ⟨by omega, rfl, isAtom_apply_of_connects connects left e⟩
      · exact .inl loud
    | opened => exact .inl loud
    | members negate left items => exact .inl loud

theorem settle_append (outer : List Pending) :
    settle level (pending ++ outer) e =
      if (settle level pending e).1 = [] then settle level outer (settle level pending e).2
      else ((settle level pending e).1 ++ outer, (settle level pending e).2) := by
  induction pending generalizing e with
  | nil => simp [settle]
  | cons part rest ih =>
    cases part with
    | not =>
      rw [List.cons_append, settle, settle]
      split
      · exact ih (.not e)
      · simp
    | operation operator left =>
      rw [List.cons_append, settle, settle]
      split
      · exact ih (operator.apply left e)
      · simp
    -- A parenthesis or a list ends the settling, whatever is outside.
    | opened => simp [settle]
    | members negate left items => simp [settle]

theorem settle_append_of_loose {outer : List Pending} (loose : Loose level outer) :
    settle level (pending ++ outer) e =
      ((settle level pending e).1 ++ outer, (settle level pending e).2) := by
  rw [settle_append, settle_of_loose loose]
  split
  · rename_i whole
    rw [whole, List.nil_append]
  · rfl

theorem settle_append_of_ne_nil (outer : List Pending) (inside : (settle level pending e).1 ≠ []) :
    settle level (pending ++ outer) e =
      ((settle level pending e).1 ++ outer, (settle level pending e).2) := by
  rw [settle_append, if_neg inside]

end

theorem flat_of_settle_eq_nil {pending : List Pending} {e x : Expr}
    (whole : settle 0 pending e = ([], x)) : Flat pending := by
  induction pending generalizing e with
  | nil => trivial
  | cons part outer ih =>
    cases part with
    | not =>
      rw [settle, if_pos (Nat.zero_le _)] at whole
      exact ih whole
    | operation operator left =>
      rw [settle, if_pos (Nat.zero_le _)] at whole
      exact ih whole
    | opened => simp [settle] at whole
    | members negate left items => simp [settle] at whole

/-- Where connectives are pending inside parentheses only, what ends the work of a connective is a
parenthesis. -/
theorem not_flat_of_loose {level : Nat} (connects : level ≤ notLevel) {pending : List Pending}
    (quiet : Quiet pending) (loose : Loose level pending) (nonempty : pending ≠ []) : ¬Flat pending := by
  cases pending with
  | nil => exact absurd rfl nonempty
  | cons part outer =>
    cases part with
    | not =>
      have below : notLevel < level := loose
      omega
    | operation operator left =>
      have below : operator.level < level := loose
      exact quiet.1 (by omega)
    | opened => exact id
    | members negate left items => exact id

theorem blocked_append {level : Nat} (above : notLevel ≤ level) (pending : List Pending)
    {outer : List Pending} (loose : Loose notLevel outer) (e : Expr) :
    blocked level (pending ++ outer) e = blocked level pending e := by
  have within : Loose (level + 1) outer := loose.mono (by omega)
  rw [blocked, blocked, settle_append_of_loose (level + 1) e within]
  dsimp only
  cases (settle (level + 1) pending e).1 with
  | cons part rest => cases part <;> rfl
  | nil =>
    cases outer with
    | nil => rfl
    | cons part rest =>
      cases part with
      | operation operator left =>
        have below : operator.level < notLevel := loose
        have apart : operator.level ≠ level := by omega
        exact decide_eq_false apart
      | _ => rfl

/-- The state after `f` has the same mode, and over the same outer part, when something loose is pending
outside; unless a connective gets to the outside. A connective or a negation there stays there. -/
def Inward (f : List Pending → Option State) : Prop :=
  ∀ pending after, f pending = some after →
    (Quiet pending → Loud after.pending ∨ Quiet after.pending ∧
      ∀ outer, Loose notLevel outer → f (pending ++ outer) = some ⟨after.pending ++ outer, after.mode⟩) ∧
    (Loud pending → Loud after.pending)

namespace State

theorem inward_none : Inward fun _ => none := by
  intro pending after stepped
  cases stepped

theorem inward_mode (mode : Mode) : Inward fun pending => some ⟨pending, mode⟩ := by
  intro pending after stepped
  cases stepped
  exact ⟨fun quiet => .inr ⟨quiet, fun _ _ => rfl⟩, id⟩

theorem inward_push {part : Pending} (apart : ∀ operator left, part ≠ .operation operator left)
    (mode : Mode) : Inward fun pending => some ⟨part :: pending, mode⟩ := by
  intro pending after stepped
  cases stepped
  refine ⟨fun quiet => .inr ⟨?_, fun _ _ => rfl⟩, fun loud => loud.cons part⟩
  cases part with
  | operation operator left => exact absurd rfl (apart operator left)
  | _ => exact quiet

theorem inward_settle {level : Nat} (above : notLevel < level) (e : Expr) (mode : Expr → Mode) :
    Inward fun pending => some ⟨(settle level pending e).1, mode (settle level pending e).2⟩ := by
  intro pending after stepped
  cases stepped
  refine ⟨fun quiet => .inr ⟨quiet_settle level e quiet, fun outer loose => ?_⟩, fun loud => ?_⟩
  · dsimp only
    rw [settle_append_of_loose level e (loose.mono (Nat.le_of_lt above))]
  · rcases loud_settle level e loud with still | ⟨connects, _⟩
    · exact still
    · omega

theorem inward_connect {operator : Operation} (connects : operator.level < notLevel) (e : Expr) :
    Inward fun pending => extend operator pending e := by
  have chains : operator.chains = true := by
    rcases Operation.eq_of_connects connects with rfl | rfl <;> rfl
  have extended : (fun pending => extend operator pending e) = fun pending =>
      some ⟨.operation operator (settle operator.level pending e).2 ::
        (settle operator.level pending e).1, .operand⟩ := by
    funext pending
    exact extend_of_chains chains rfl
  rw [extended]
  intro pending after stepped
  cases stepped
  have lone (left : Expr) : Loud [.operation operator left] := loud_singleton connects
  constructor
  · intro quiet
    -- Outside all parentheses the connective becomes the outermost part itself.
    by_cases whole : (settle operator.level pending e).1 = []
    · rw [whole]
      exact .inl (lone _)
    · have inside : ¬Flat (settle operator.level pending e).1 :=
        not_flat_of_loose (Nat.le_of_lt connects) (quiet_settle _ e quiet) (loose_settle _ pending e) whole
      refine .inr ⟨⟨fun _ => inside, quiet_settle _ e quiet⟩, fun outer _ => ?_⟩
      dsimp only
      rw [settle_append_of_ne_nil _ e outer whole]
      rfl
  · intro loud
    rcases loud_settle operator.level e loud with still | ⟨_, whole, _⟩
    · exact still.cons _
    · rw [whole]
      exact lone _

theorem inward_extend {operator : Operation} (above : notLevel < operator.level) (e : Expr) :
    Inward fun pending => extend operator pending e := by
  intro pending after stepped
  cases free : !operator.chains && blocked operator.level pending e with
  | true => simp [extend, free] at stepped
  | false =>
    have unfolded : after = ⟨.operation operator (settle operator.level pending e).2 ::
        (settle operator.level pending e).1, .operand⟩ := by
      simpa [extend, free] using stepped.symm
    subst unfolded
    constructor
    · intro quiet
      refine .inr ⟨⟨fun connects => by omega, quiet_settle _ e quiet⟩, fun outer loose => ?_⟩
      have within : Loose operator.level outer := loose.mono (Nat.le_of_lt above)
      simp only [extend, blocked_append (Nat.le_of_lt above) pending loose, free, settle_append_of_loose _ e within,
        Bool.false_eq_true, if_false, List.cons_append]
    · intro loud
      rcases loud_settle operator.level e loud with still | ⟨connects, _⟩
      · exact still.cons _
      · omega

theorem inward_membership (negate : Bool) (e : Expr) :
    Inward fun pending => membership negate pending e := by
  have above : notLevel < memberLevel := by decide
  intro pending after stepped
  cases free : blocked memberLevel pending e with
  | true => simp [membership, free] at stepped
  | false =>
    have settled : (fun pending => some ⟨(settle memberLevel pending e).1,
        .list negate (settle memberLevel pending e).2⟩) pending = some after := by
      simpa [membership, free] using stepped
    obtain ⟨quietly, loudly⟩ := inward_settle above e (.list negate) pending after settled
    refine ⟨fun quiet => ?_, loudly⟩
    rcases quietly quiet with loud | ⟨still, onward⟩
    · exact .inl loud
    · refine .inr ⟨still, fun outer loose => ?_⟩
      rw [← onward outer loose]
      simp only [membership, blocked_append (Nat.le_of_lt above) pending loose, free, Bool.false_eq_true, if_false]

theorem inward_of_settled {f : List Pending → Option State} {e : Expr}
    (g : List Pending → Expr → Option State) (settles : ∀ pending, f pending =
      g (settle 0 pending e).1 (settle 0 pending e).2)
    (stops : ∀ x, g [] x = none) (inward : ∀ x, Inward fun pending => g pending x) : Inward f := by
  intro pending after stepped
  rw [settles] at stepped
  have inside : (settle 0 pending e).1 ≠ [] := by
    intro whole
    rw [whole, stops] at stepped
    cases stepped
  obtain ⟨quietly, loudly⟩ := inward _ _ after stepped
  constructor
  · intro quiet
    rcases quietly (quiet_settle 0 e quiet) with loud | ⟨still, onward⟩
    · exact .inl loud
    · refine .inr ⟨still, fun outer loose => ?_⟩
      rw [settles, settle_append_of_ne_nil 0 e outer inside]
      exact onward outer loose
  · intro loud
    rcases loud_settle 0 e loud with still | ⟨_, whole, _⟩
    · exact loudly still
    · exact absurd whole inside

theorem inward_close (e : Expr) : Inward fun pending => close pending e := by
  intro pending after stepped
  cases pending with
  | nil => cases stepped
  | cons part outer =>
    cases part with
    | opened =>
      cases stepped
      exact ⟨fun quiet => .inr ⟨quiet, fun _ _ => rfl⟩, fun loud => loud.tail id⟩
    | members negate left items =>
      cases stepped
      exact ⟨fun quiet => .inr ⟨quiet, fun _ _ => rfl⟩, fun loud => loud.tail id⟩
    | not => cases stepped
    | operation operator left => cases stepped

theorem inward_separate (e : Expr) : Inward fun pending => separate pending e := by
  intro pending after stepped
  cases pending with
  | nil => cases stepped
  | cons part outer =>
    cases part with
    | members negate left items =>
      cases stepped
      exact ⟨fun quiet => .inr ⟨quiet, fun _ _ => rfl⟩, fun loud => (loud.tail id).cons _⟩
    | opened => cases stepped
    | not => cases stepped
    | operation operator left => cases stepped

theorem inward_afterOperand (e : Expr) (t : Token) : Inward fun pending => afterOperand pending e t := by
  have connects {operator : Operation} (either : operator = .or ∨ operator = .and) :
      operator.level < notLevel := by
    rcases either with rfl | rfl <;> decide
  have symbol (text : String) : notLevel < (Operation.ofSymbol text).level := by
    unfold Operation.ofSymbol
    split
    · exact Nat.le_of_ble_eq_true rfl
    · exact Nat.le_of_ble_eq_true rfl
  cases t with
  | keyword k =>
    cases k with
    | or => exact inward_connect (connects (.inl rfl)) e
    | and => exact inward_connect (connects (.inr rfl)) e
    | like => exact inward_extend (Nat.le_of_ble_eq_true rfl) e
    | member => exact inward_membership false e
    | not => exact inward_mode (.negated e)
    | is => exact inward_settle (Nat.lt_succ_self notLevel) e .is
    | null => exact inward_none
    | true => exact inward_none
    | false => exact inward_none
  | symbol text => exact inward_extend (symbol text) e
  | typeCast => exact inward_mode (.type e)
  | closing => exact inward_of_settled close (fun _ => rfl) (fun _ => rfl) inward_close
  | comma => exact inward_of_settled separate (fun _ => rfl) (fun _ => rfl) inward_separate
  | name text => exact inward_none
  | parameter name => exact inward_none
  | literal text => exact inward_none
  | opening => exact inward_none

theorem inward_step (mode : Mode) (t : Token) : Inward fun pending => step ⟨pending, mode⟩ t := by
  cases mode with
  | operand =>
    cases t with
    | keyword k =>
      cases k with
      | not => exact inward_push (by simp) .operand
      | null => exact inward_mode (.complete .null)
      | true => exact inward_mode (.complete (.truth true))
      | false => exact inward_mode (.complete (.truth false))
      | _ => exact inward_none
    | opening => exact inward_push (by simp) .operand
    | name text => exact inward_mode (.complete (.name text))
    | parameter name => exact inward_mode (.complete (.parameter name))
    | literal text => exact inward_mode (.complete (.literal text))
    | _ => exact inward_none
  | complete e => exact inward_afterOperand e t
  | type e =>
    cases t with
    | name text => exact inward_mode (.complete (.cast e text))
    | _ => exact inward_none
  | is e =>
    cases t with
    | keyword k =>
      cases k with
      | not => exact inward_mode (.isNot e)
      | null => exact inward_mode (.complete (.isNull false e))
      | _ => exact inward_none
    | _ => exact inward_none
  | isNot e =>
    cases t with
    | keyword k =>
      cases k with
      | null => exact inward_mode (.complete (.isNull true e))
      | _ => exact inward_none
    | _ => exact inward_none
  | negated e =>
    cases t with
    | keyword k =>
      cases k with
      | like => exact inward_extend (Nat.le_of_ble_eq_true rfl) e
      | member => exact inward_membership true e
      | _ => exact inward_none
    | _ => exact inward_none
  | list negate e =>
    cases t with
    | opening => exact inward_push (by simp) .operand
    | _ => exact inward_none

theorem inward_run (mode : Mode) (ts : List Token) : Inward fun pending => run ⟨pending, mode⟩ ts := by
  induction ts generalizing mode with
  | nil => exact inward_mode mode
  | cons t ts ih =>
    intro pending after ran
    cases stepped : step ⟨pending, mode⟩ t with
    | none =>
      have stopped : run ⟨pending, mode⟩ (t :: ts) = none := by
        unfold run
        rw [List.foldlM_cons, stepped]
        rfl
      cases stopped.symm.trans ran
    | some mid =>
      obtain ⟨quietly, loudly⟩ := inward_step mode t pending mid stepped
      have onward : run ⟨mid.pending, mid.mode⟩ ts = some after := by
        rw [← ran]
        exact (run_cons stepped ts).symm
      obtain ⟨quietly', loudly'⟩ := ih mid.mode mid.pending after onward
      -- What is loud outside stays so, and as long as nothing is, the steps do the same there.
      refine ⟨fun quiet => ?_, fun loud => loudly' (loudly loud)⟩
      rcases quietly quiet with loud | ⟨still, same⟩
      · exact .inl (loudly' loud)
      · rcases quietly' still with loud | ⟨last, same'⟩
        · exact .inl loud
        · refine .inr ⟨last, fun outer loose => ?_⟩
          rw [← same' outer loose]
          exact run_cons (same outer loose) ts

end State

/-- An atom is read as such to the right of a connective, and to the left of one. -/
theorem reads_of_result {ts : List Token} {state : State} {x : Expr}
    (ran : State.run ⟨[], .operand⟩ ts = some state) (parsed : state.result? = some x)
    (atom : x.isAtom = true) : Reads notLevel ts x := by
  obtain ⟨pending, mode⟩ := state
  cases mode with
  | complete last =>
    have settled : settle 0 pending last = ([], x) := by
      simp only [State.result?] at parsed
      split at parsed
      · rename_i e whole
        rw [whole, Option.some.inj parsed]
      · cases parsed
    obtain ⟨quietly, _⟩ := State.inward_run .operand ts [] ⟨pending, .complete last⟩ ran
    rcases quietly trivial with loud | ⟨quiet, same⟩
    · rcases loud_settle 0 last loud with still | ⟨_, _, composed⟩
      · rw [settled] at still
        exact absurd still not_loud_nil
      · rw [settled, atom] at composed
        cases composed
    · intro outer loose
      refine ⟨pending ++ outer, last, same outer loose, ?_⟩
      -- No connective is pending, so there is nothing that only settling further would apply.
      have whole : settle notLevel pending last = ([], x) := by
        have onward := settle_settle (Nat.zero_le notLevel) pending last
        rw [settled] at onward
        by_cases nothing : (settle notLevel pending last).1 = []
        · rw [nothing] at onward
          exact Prod.ext nothing (Prod.mk.inj onward).2
        · have inside := not_flat_of_loose (Nat.le_refl _) (quiet_settle notLevel last quiet)
            (loose_settle notLevel pending last) nothing
          exact absurd (flat_of_settle_eq_nil onward) inside
      rw [settle_append_of_loose notLevel last loose, whole, List.nil_append]
  | _ => cases parsed

end EntitySql.Grammar
