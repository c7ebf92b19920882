import EntitySql.Proofs.Grammar.Expression

/-! Phrases: token lists that are read as one expression wherever they stand, as long as nothing to their
left binds too tight. Larger phrases are made of smaller ones, a rule for each form of expression. -/

set_option autoImplicit false

namespace EntitySql.Grammar

def Loose (level : Nat) : List Pending → Prop
  | .not :: _ => notLevel < level
  | .operation operator _ :: _ => operator.level < level
  | _ => True

theorem Loose.mono {m level : Nat} (le : m ≤ level) {pending : List Pending} (loose : Loose m pending) :
    Loose level pending := by
  cases pending with
  | nil => trivial
  | cons part outer =>
    cases part with
    | not => exact Nat.lt_of_lt_of_le loose le
    | operation operator left => exact Nat.lt_of_lt_of_le loose le
    | opened => trivial
    | members negate left items => trivial

theorem settle_of_loose {level : Nat} {pending : List Pending} (loose : Loose level pending) (e : Expr) :
    settle level pending e = (pending, e) := by
  cases pending with
  | nil => rfl
  | cons part outer =>
    cases part with
    | not =>
      have below : notLevel < level := loose
      rw [settle, if_neg (by omega)]
    | operation operator left =>
      have below : operator.level < level := loose
      rw [settle, if_neg (by omega)]
    | opened => rfl
    | members negate left items => rfl

theorem loose_settle (level : Nat) (pending : List Pending) (e : Expr) :
    Loose level (settle level pending e).1 := by
  induction pending generalizing e with
  | nil => trivial
  | cons part outer ih =>
    cases part with
    | not =>
      rw [settle]
      split
      · exact ih (.not e)
      · rename_i above
        exact Nat.lt_of_not_le above
    | operation operator left =>
      rw [settle]
      split
      · exact ih (operator.apply left e)
      · rename_i above
        exact Nat.lt_of_not_le above
    | opened => trivial
    | members negate left items => trivial

theorem settle_settle {m level : Nat} (le : m ≤ level) (pending : List Pending) (e : Expr) :
    settle m (settle level pending e).1 (settle level pending e).2 = settle m pending e := by
  -- Whatever the first settling applies, the second alone would have applied too.
  induction pending generalizing e with
  | nil => rfl
  | cons part outer ih =>
    cases part with
    | not =>
      by_cases tight : level ≤ notLevel
      · have both : m ≤ notLevel := Nat.le_trans le tight
        simp only [settle, if_pos tight, if_pos both, ih]
      · simp only [settle, if_neg tight]
    | operation operator left =>
      by_cases tight : level ≤ operator.level
      · have both : m ≤ operator.level := Nat.le_trans le tight
        simp only [settle, if_pos tight, if_pos both, ih]
      · simp only [settle, if_neg tight]
    | opened => rfl
    | members negate left items => rfl

theorem settle_of_settled {m level : Nat} (le : m ≤ level) {pending outer : List Pending} {last e : Expr}
    (settled : settle level pending last = (outer, e)) : settle m pending last = settle m outer e := by
  rw [← settle_settle le, settled]

theorem blocked_of_settled {level : Nat} {pending outer : List Pending} {last e : Expr}
    (settled : settle (level + 1) pending last = (outer, e)) (loose : Loose level outer) :
    blocked level pending last = false := by
  rw [blocked, settled]
  split
  · rename_i operator left rest same
    have below : operator.level < level := by
      have head : outer = .operation operator left :: rest := same
      rw [head] at loose
      exact loose
    exact decide_eq_false (by omega)
  · rfl

namespace State

theorem extend_of_settled {operator : Operation} {pending outer : List Pending} {last e : Expr}
    (settled : settle (operator.level + 1) pending last = (outer, e))
    (loose : Loose operator.level outer) :
    extend operator pending last = some ⟨.operation operator e :: outer, .operand⟩ := by
  have free := blocked_of_settled settled loose
  -- What is pending outside is loose, so settling stops at the same place.
  have whole : settle operator.level pending last = (outer, e) := by
    rw [settle_of_settled (Nat.le_succ _) settled, settle_of_loose loose]
  simp only [extend, free, whole, Bool.and_false, Bool.false_eq_true, if_false]

theorem extend_of_chains {operator : Operation} (chains : operator.chains = true)
    {pending outer : List Pending} {last e : Expr}
    (settled : settle operator.level pending last = (outer, e)) :
    extend operator pending last = some ⟨.operation operator e :: outer, .operand⟩ := by
  simp only [extend, chains, settled, Bool.not_true, Bool.false_and, Bool.false_eq_true, if_false]

theorem membership_of_settled (negate : Bool) {pending outer : List Pending} {last e : Expr}
    (settled : settle (memberLevel + 1) pending last = (outer, e)) (loose : Loose memberLevel outer) :
    membership negate pending last = some ⟨outer, .list negate e⟩ := by
  have free := blocked_of_settled settled loose
  have whole : settle memberLevel pending last = (outer, e) := by
    rw [settle_of_settled (Nat.le_succ _) settled, settle_of_loose loose]
  simp only [membership, free, whole, Bool.false_eq_true, if_false]

theorem run_append {first mid : State} {ts : List Token} (ran : first.run ts = some mid)
    (us : List Token) : first.run (ts ++ us) = mid.run us := by
  unfold run at ran ⊢
  rw [List.foldlM_append, ran]
  rfl

theorem run_cons {first mid : State} {t : Token} (stepped : first.step t = some mid)
    (ts : List Token) : first.run (t :: ts) = mid.run ts := by
  unfold run
  rw [List.foldlM_cons, stepped]
  rfl

end State

def Primary (ts : List Token) (e : Expr) : Prop :=
  ∀ outer, State.run ⟨outer, .operand⟩ ts = some ⟨outer, .complete e⟩

/-- Where all that is pending binds less tight than `room`, the expression stands alone once operators
that bind at least as tight as `level` are applied. -/
def ReadsIn (room level : Nat) (ts : List Token) (e : Expr) : Prop :=
  ∀ outer, Loose room outer → ∃ pending last,
    State.run ⟨outer, .operand⟩ ts = some ⟨pending, .complete last⟩ ∧
    settle level pending last = (outer, e)

/-- An expression whose outermost operators bind at least as tight as `level`: once these are applied,
it stands alone on what was pending before it. -/
def Reads (level : Nat) (ts : List Token) (e : Expr) : Prop :=
  ReadsIn level level ts e

theorem Primary.reads {ts : List Token} {e : Expr} (primary : Primary ts e) (level : Nat) :
    Reads level ts e := by
  intro outer loose
  exact ⟨outer, e, primary outer, settle_of_loose loose e⟩

theorem Reads.mono {m level : Nat} (le : m ≤ level) {ts : List Token} {e : Expr}
    (reads : Reads level ts e) : Reads m ts e := by
  intro outer loose
  obtain ⟨pending, last, ran, settled⟩ := reads outer (loose.mono le)
  refine ⟨pending, last, ran, ?_⟩
  rw [settle_of_settled le settled, settle_of_loose loose]

theorem primary_name (text : String) : Primary [.name text] (.name text) :=
  fun _ => rfl

theorem primary_parameter (name : String) : Primary [.parameter name] (.parameter name) :=
  fun _ => rfl

theorem primary_literal (text : String) : Primary [.literal text] (.literal text) :=
  fun _ => rfl

theorem primary_null : Primary [.keyword .null] .null :=
  fun _ => rfl

theorem primary_truth (b : Bool) : Primary [.keyword (if b then .true else .false)] (.truth b) := by
  intro outer
  cases b <;> rfl

theorem Primary.cast {ts : List Token} {e : Expr} (primary : Primary ts e) (type : String) :
    Primary (ts ++ [.typeCast, .name type]) (.cast e type) := by
  intro outer
  rw [State.run_append (primary outer)]
  rfl

theorem ReadsIn.parenthesised {room level : Nat} {ts : List Token} {e : Expr} (reads : ReadsIn room level ts e) :
    Primary (.opening :: (ts ++ [.closing])) e := by
  intro outer
  have stepped : State.step ⟨outer, .operand⟩ .opening = some ⟨.opened :: outer, .operand⟩ := rfl
  obtain ⟨pending, last, ran, settled⟩ := reads (.opened :: outer) trivial
  have whole : settle 0 pending last = (.opened :: outer, e) := settle_of_settled (Nat.zero_le _) settled
  have closed : State.step ⟨pending, .complete last⟩ .closing = some ⟨outer, .complete e⟩ := by
    simp only [State.step, State.afterOperand, State.close, whole]
  rw [State.run_cons stepped, State.run_append ran, State.run_cons closed]
  rfl

/-- An expression that stands behind a negation or behind what binds less tight. A negation that is pending
there is applied to it as soon as what binds tighter is. -/
def Negatable (ts : List Token) (e : Expr) : Prop :=
  ∀ outer, Loose isLevel outer → ∃ pending last,
    State.run ⟨outer, .operand⟩ ts = some ⟨pending, .complete last⟩ ∧
    settle notLevel pending last = settle notLevel outer e

theorem Reads.negatable {ts : List Token} {e : Expr} (reads : Reads isLevel ts e) : Negatable ts e := by
  intro outer loose
  obtain ⟨pending, last, ran, settled⟩ := reads outer loose
  exact ⟨pending, last, ran, settle_of_settled (Nat.le_succ notLevel) settled⟩

theorem Negatable.not {ts : List Token} {e : Expr} (negatable : Negatable ts e) :
    Negatable (.keyword .not :: ts) (.not e) := by
  intro outer _
  have stepped : State.step ⟨outer, .operand⟩ (.keyword .not) = some ⟨.not :: outer, .operand⟩ := rfl
  -- What binds tighter than the negation is read under it.
  have below : Loose isLevel (.not :: outer) := Nat.lt_succ_self notLevel
  obtain ⟨pending, last, ran, settled⟩ := negatable (.not :: outer) below
  refine ⟨pending, last, by rw [State.run_cons stepped, ran], ?_⟩
  rw [settled, settle, if_pos (Nat.le_refl _)]

theorem Negatable.reads {ts : List Token} {e : Expr} (negatable : Negatable ts e) :
    Reads notLevel ts e := by
  intro outer loose
  obtain ⟨pending, last, ran, settled⟩ := negatable outer (loose.mono (Nat.le_succ notLevel))
  exact ⟨pending, last, ran, settled.trans (settle_of_loose loose e)⟩

theorem Reads.not {ts : List Token} {e : Expr} (reads : Reads isLevel ts e) :
    Reads notLevel (.keyword .not :: ts) (.not e) :=
  reads.negatable.not.reads

def Signs (sign : List Token) (operator : Operation) : Prop :=
  ∀ pending e, State.run ⟨pending, .complete e⟩ sign = State.extend operator pending e

theorem signs_of_step {t : Token} {operator : Operation}
    (stepped : ∀ pending e, State.step ⟨pending, .complete e⟩ t = State.extend operator pending e) :
    Signs [t] operator := by
  intro pending e
  unfold State.run
  rw [List.foldlM_cons, stepped]
  cases State.extend operator pending e <;> rfl

theorem signs_and : Signs [.keyword .and] .and :=
  signs_of_step fun _ _ => rfl

theorem signs_or : Signs [.keyword .or] .or :=
  signs_of_step fun _ _ => rfl

theorem signs_of_spelling {text : String} {operator : Operation} (spelled : Operation.ofSymbol text = operator) :
    Signs [.symbol text] operator := by
  subst spelled
  exact signs_of_step fun _ _ => rfl

theorem signs_like (negate : Bool) :
    Signs (if negate then [.keyword .not, .keyword .like] else [.keyword .like]) (.like negate) := by
  intro pending e
  cases negate with
  | false => exact signs_of_step (fun _ _ => rfl) pending e
  | true =>
    have stepped : State.step ⟨pending, .complete e⟩ (.keyword .not) = some ⟨pending, .negated e⟩ := rfl
    simp only [if_true]
    rw [State.run_cons stepped]
    unfold State.run
    rw [List.foldlM_cons]
    change (State.extend (.like true) pending e >>= _) = _
    cases State.extend (.like true) pending e <;> rfl

inductive Items : List Token → List Expr → Prop where
  | last {ts : List Token} {e : Expr} : Reads 0 ts e → Items ts [e]
  | cons {ts us : List Token} {e : Expr} {es : List Expr} : Reads 0 ts e → Items us es →
      Items (ts ++ .comma :: us) (e :: es)

theorem Items.run {ts : List Token} {es : List Expr} (items : Items ts es) (negate : Bool) (left : Expr)
    (before : List Expr) (outer : List Pending) :
    State.run ⟨.members negate left before :: outer, .operand⟩ (ts ++ [.closing]) =
      some ⟨outer, .complete (.member negate left (before ++ es))⟩ := by
  induction items generalizing before with
  | @last ts e reads =>
    obtain ⟨pending, last, ran, settled⟩ := reads (.members negate left before :: outer) trivial
    have closed : State.step ⟨pending, .complete last⟩ .closing =
        some ⟨outer, .complete (.member negate left (before ++ [e]))⟩ := by
      simp only [State.step, State.afterOperand, State.close, settled]
    rw [State.run_append ran, State.run_cons closed]
    rfl
  | @cons ts us e es reads _ ih =>
    obtain ⟨pending, last, ran, settled⟩ := reads (.members negate left before :: outer) trivial
    have separated : State.step ⟨pending, .complete last⟩ .comma =
        some ⟨.members negate left (before ++ [e]) :: outer, .operand⟩ := by
      simp only [State.step, State.afterOperand, State.separate, settled]
    rw [List.append_assoc, State.run_append ran, List.cons_append, State.run_cons separated, ih,
      List.append_assoc, List.singleton_append]

/-! What stands to the left of an operator needs no more room than the operator has. -/

def Stands (room : Nat) (ts : List Token) (e : Expr) : Prop :=
  ∀ outer, Loose room outer → State.run ⟨outer, .operand⟩ ts = some ⟨outer, .complete e⟩

section

variable {room level : Nat} {sign ts us : List Token} {e x y : Expr}

theorem Primary.stands (primary : Primary ts e) (room : Nat) : Stands room ts e :=
  fun outer _ => primary outer

theorem Stands.readsIn (stands : Stands room ts e) (below : room ≤ level) : ReadsIn room level ts e := by
  intro outer loose
  exact ⟨outer, e, stands outer loose, settle_of_loose (loose.mono below) e⟩

theorem ReadsIn.mono {m : Nat} (reads : ReadsIn room level ts e) (le : m ≤ level) (below : room ≤ m) :
    ReadsIn room m ts e := by
  intro outer loose
  obtain ⟨pending, last, ran, settled⟩ := reads outer loose
  refine ⟨pending, last, ran, ?_⟩
  rw [settle_of_settled le settled, settle_of_loose (loose.mono below)]

/-- Once the sign is read, what is to the left of it waits for the right side. -/
theorem ReadsIn.signed {operator : Operation} (signs : Signs sign operator)
    (left : ReadsIn room (operator.level + 1) ts x) (below : room ≤ operator.level) {outer : List Pending}
    (loose : Loose room outer) : State.run ⟨outer, .operand⟩ (ts ++ sign) =
      some ⟨.operation operator x :: outer, .operand⟩ := by
  obtain ⟨pending, last, ran, settled⟩ := left outer loose
  rw [State.run_append ran, signs, State.extend_of_settled settled (loose.mono below)]

theorem ReadsIn.signed_of_chains {operator : Operation} (signs : Signs sign operator)
    (chains : operator.chains = true) (left : ReadsIn room operator.level ts x) {outer : List Pending}
    (loose : Loose room outer) : State.run ⟨outer, .operand⟩ (ts ++ sign) =
      some ⟨.operation operator x :: outer, .operand⟩ := by
  obtain ⟨pending, last, ran, settled⟩ := left outer loose
  rw [State.run_append ran, signs, State.extend_of_chains chains settled]

theorem readsIn_of_signed {operator : Operation} (below : room ≤ operator.level)
    (signed : ∀ outer, Loose room outer → State.run ⟨outer, .operand⟩ (ts ++ sign) =
      some ⟨.operation operator x :: outer, .operand⟩)
    (right : Reads (operator.level + 1) us y) :
    ReadsIn room operator.level (ts ++ (sign ++ us)) (operator.apply x y) := by
  intro outer loose
  have under : Loose (operator.level + 1) (.operation operator x :: outer) := Nat.lt_succ_self _
  obtain ⟨pending, last, ran, settled⟩ := right (.operation operator x :: outer) under
  refine ⟨pending, last, by rw [← List.append_assoc, State.run_append (signed outer loose), ran], ?_⟩
  rw [settle_of_settled (Nat.le_succ _) settled, settle, if_pos (Nat.le_refl _),
    settle_of_loose (loose.mono below)]

theorem ReadsIn.operation {operator : Operation} (signs : Signs sign operator)
    (left : ReadsIn room (operator.level + 1) ts x) (below : room ≤ operator.level)
    (right : Reads (operator.level + 1) us y) :
    ReadsIn room operator.level (ts ++ (sign ++ us)) (operator.apply x y) :=
  readsIn_of_signed below (fun _ => left.signed signs below) right

theorem ReadsIn.leaning {operator : Operation} (signs : Signs sign operator)
    (chains : operator.chains = true) (left : ReadsIn room operator.level ts x)
    (below : room ≤ operator.level) (right : Reads (operator.level + 1) us y) :
    ReadsIn room operator.level (ts ++ (sign ++ us)) (operator.apply x y) :=
  readsIn_of_signed below (fun _ => left.signed_of_chains signs chains) right

theorem ReadsIn.isNull (reads : ReadsIn room isLevel ts e) (negate : Bool) :
    Stands room (ts ++ .keyword .is :: if negate then [.keyword .not, .keyword .null] else [.keyword .null])
      (.isNull negate e) := by
  intro outer loose
  obtain ⟨pending, last, ran, settled⟩ := reads outer loose
  have stepped : State.step ⟨pending, .complete last⟩ (.keyword .is) = some ⟨outer, .is e⟩ := by
    simp only [State.step, State.afterOperand, settled]
  rw [State.run_append ran, State.run_cons stepped]
  cases negate <;> rfl

theorem ReadsIn.member {es : List Expr} (reads : ReadsIn room (memberLevel + 1) ts e)
    (below : room ≤ memberLevel) (items : Items us es) (negate : Bool) :
    Stands room
      (ts ++ ((if negate then [.keyword .not, .keyword .member] else [.keyword .member]) ++
        .opening :: (us ++ [.closing])))
      (.member negate e es) := by
  intro outer loose
  obtain ⟨pending, last, ran, settled⟩ := reads outer loose
  -- With or without a negation, the operand is settled before the list is opened.
  have listed : State.run ⟨pending, .complete last⟩
      (if negate then [.keyword .not, .keyword .member] else [.keyword .member]) =
      some ⟨outer, .list negate e⟩ := by
    cases negate with
    | false =>
      have stepped : State.step ⟨pending, .complete last⟩ (.keyword .member) =
          some ⟨outer, .list false e⟩ := State.membership_of_settled false settled (loose.mono below)
      exact State.run_cons stepped []
    | true =>
      have negated : State.step ⟨pending, .complete last⟩ (.keyword .not) =
          some ⟨pending, .negated last⟩ := rfl
      have stepped : State.step ⟨pending, .negated last⟩ (.keyword .member) =
          some ⟨outer, .list true e⟩ := State.membership_of_settled true settled (loose.mono below)
      exact (State.run_cons negated _).trans (State.run_cons stepped [])
  have opened : State.step ⟨outer, .list negate e⟩ .opening =
      some ⟨.members negate e [] :: outer, .operand⟩ := rfl
  rw [State.run_append ran, State.run_append listed, State.run_cons opened, items.run]
  rfl

end

end EntitySql.Grammar
