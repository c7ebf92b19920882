import EntitySql.Proofs.Grammar.Token
import EntitySql.Proofs.Truth

/-! The grammar of SQL expressions. `OR` binds loosest, then come `AND`, `NOT`, `IS`, the comparisons,
`LIKE` and `IN`, all other operators, and type casts. Tokens are taken in one after the other; operators
wait for their right side, and are applied as soon as one that binds no tighter follows. -/

set_option autoImplicit false

namespace EntitySql.Grammar

/-- Parentheses leave no trace. -/
inductive Expr where
  | name (text : String)
  | parameter (name : String)
  | literal (text : String)
  | null
  | truth (b : Bool)
  | cast (e : Expr) (type : String)
  | binary (operator : String) (left right : Expr)
  | member (negate : Bool) (left : Expr) (items : List Expr)
  | isNull (negate : Bool) (e : Expr)
  | not (e : Expr)
  | and (left right : Expr)
  | or (left right : Expr)

namespace Expr

/-- Whatever is not made of others by a connective is an atom. -/
def isAtom : Expr → Bool
  | .not _ | .and _ _ | .or _ _ => false
  | _ => true

def truthFrom (atom : Expr → Truth) : Expr → Truth
  | .not e => (truthFrom atom e).not
  | .and left right => (truthFrom atom left).and (truthFrom atom right)
  | .or left right => (truthFrom atom left).or (truthFrom atom right)
  | .truth b => .ofBool b
  | e => atom e

end Expr

inductive Operation where
  | or
  | and
  | comparison (text : String)
  | like (negate : Bool)
  | other (text : String)
  deriving DecidableEq

namespace Operation

/-- How tight an operator binds. Between the connectives and the others there are `NOT` and `IS`. -/
def level : Operation → Nat
  | .or => 0
  | .and => 1
  | .comparison _ => 4
  | .like _ => 5
  | .other _ => 6

/-- Comparisons of comparisons must be put in parentheses; other operators lean to the left. -/
def chains : Operation → Bool
  | .comparison _ | .like _ => false
  | _ => true

def apply : Operation → Expr → Expr → Expr
  | .or, left, right => .or left right
  | .and, left, right => .and left right
  | .comparison text, left, right => .binary text left right
  | .like negate, left, right => .binary (if negate then "NOT LIKE" else "LIKE") left right
  | .other text, left, right => .binary text left right

def ofSymbol (text : String) : Operation :=
  if text ∈ ["=", "!=", "<>", "<", ">", "<=", ">="] then .comparison text else .other text

end Operation

def notLevel : Nat := 2

def isLevel : Nat := 3

def memberLevel : Nat := 5

inductive Pending where
  | not
  | operation (operator : Operation) (left : Expr)
  | opened
  | members (negate : Bool) (left : Expr) (items : List Expr)

inductive Mode where
  | operand
  | complete (e : Expr)
  | type (e : Expr)
  | is (e : Expr)
  | isNot (e : Expr)
  | negated (e : Expr)
  | list (negate : Bool) (e : Expr)

/-- The innermost pending part comes first. -/
structure State where
  pending : List Pending
  mode : Mode

def settle (level : Nat) : List Pending → Expr → List Pending × Expr
  | .not :: outer, e => if level ≤ notLevel then settle level outer (.not e) else (.not :: outer, e)
  | .operation operator left :: outer, e =>
    if level ≤ operator.level then settle level outer (operator.apply left e)
    else (.operation operator left :: outer, e)
  | pending, e => (pending, e)

def blocked (level : Nat) (pending : List Pending) (e : Expr) : Bool :=
  match (settle (level + 1) pending e).1 with
  | .operation operator _ :: _ => operator.level = level
  | _ => false

namespace State

def extend (operator : Operation) (pending : List Pending) (e : Expr) : Option State :=
  if !operator.chains && blocked operator.level pending e then none
  else
    let (outer, left) := settle operator.level pending e
    some ⟨.operation operator left :: outer, .operand⟩

def membership (negate : Bool) (pending : List Pending) (e : Expr) : Option State :=
  if blocked memberLevel pending e then none
  else
    let (outer, left) := settle memberLevel pending e
    some ⟨outer, .list negate left⟩

def close : List Pending → Expr → Option State
  | .opened :: outer, e => some ⟨outer, .complete e⟩
  | .members negate left items :: outer, e =>
    some ⟨outer, .complete (.member negate left (items ++ [e]))⟩
  | _, _ => none

def separate : List Pending → Expr → Option State
  | .members negate left items :: outer, e =>
    some ⟨.members negate left (items ++ [e]) :: outer, .operand⟩
  | _, _ => none

def afterOperand (pending : List Pending) (e : Expr) : Token → Option State
  | .keyword .or => extend .or pending e
  | .keyword .and => extend .and pending e
  | .keyword .like => extend (.like false) pending e
  | .keyword .member => membership false pending e
  | .keyword .not => some ⟨pending, .negated e⟩
  | .keyword .is =>
    let (outer, e) := settle isLevel pending e
    some ⟨outer, .is e⟩
  | .symbol text => extend (.ofSymbol text) pending e
  | .typeCast => some ⟨pending, .type e⟩
  | .closing =>
    let (outer, e) := settle 0 pending e
    close outer e
  | .comma =>
    let (outer, e) := settle 0 pending e
    separate outer e
  | _ => none

def step (state : State) (t : Token) : Option State :=
  match state.mode, t with
  | .operand, .keyword .not => some ⟨.not :: state.pending, .operand⟩
  | .operand, .opening => some ⟨.opened :: state.pending, .operand⟩
  | .operand, .keyword .null => some ⟨state.pending, .complete .null⟩
  | .operand, .keyword .true => some ⟨state.pending, .complete (.truth true)⟩
  | .operand, .keyword .false => some ⟨state.pending, .complete (.truth false)⟩
  | .operand, .name text => some ⟨state.pending, .complete (.name text)⟩
  | .operand, .parameter name => some ⟨state.pending, .complete (.parameter name)⟩
  | .operand, .literal text => some ⟨state.pending, .complete (.literal text)⟩
  | .complete e, t => afterOperand state.pending e t
  | .type e, .name text => some ⟨state.pending, .complete (.cast e text)⟩
  | .is e, .keyword .not => some ⟨state.pending, .isNot e⟩
  | .is e, .keyword .null => some ⟨state.pending, .complete (.isNull false e)⟩
  | .isNot e, .keyword .null => some ⟨state.pending, .complete (.isNull true e)⟩
  | .negated e, .keyword .like => extend (.like true) state.pending e
  | .negated e, .keyword .member => membership true state.pending e
  | .list negate e, .opening => some ⟨.members negate e [] :: state.pending, .operand⟩
  | _, _ => none

def run (state : State) (ts : List Token) : Option State :=
  ts.foldlM step state

def result? (state : State) : Option Expr :=
  match state.mode with
  | .complete e =>
    match settle 0 state.pending e with
    | ([], e) => some e
    | _ => none
  | _ => none

end State

def parse (s : String) : Option Expr := do
  let ts ← lex s
  let state ← State.run ⟨[], .operand⟩ ts
  state.result?

example : parse "a OR NOT b IS NULL AND c = @d" =
    some (.or (.name "a")
      (.and (.not (.isNull false (.name "b"))) (.binary "=" (.name "c") (.parameter "d")))) :=
  rfl

end EntitySql.Grammar
