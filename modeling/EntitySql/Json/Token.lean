import EntitySql.Text.Hex

/-! The tokens of JSON text. The scan takes one character at a time, so it needs no look-ahead. -/

set_option autoImplicit false

namespace EntitySql.Json

inductive Token where
  | openArray
  | closeArray
  | openObject
  | closeObject
  | colon
  | comma
  | text (s : String)
  /-- A run of characters that are none of the above: a name or a number. -/
  | word (cs : List Char)
  deriving DecidableEq

namespace Token

inductive Scan where
  | between
  | word (seen : List Char)
  /-- Inside a text; a high surrogate may wait for its partner. -/
  | text (seen : List Char) (high : Option Nat)
  | escape (seen : List Char) (high : Option Nat)
  /-- Inside a hexadecimal escape, with the digits that are still to come. -/
  | code (seen : List Char) (high : Option Nat) (value missing : Nat)
  deriving DecidableEq

def isSpace (c : Char) : Bool :=
  c = ' ' || c = '\x09' || c = '\x0a' || c = '\x0d'

def punctuation? (c : Char) : Option Token :=
  match c with
  | '[' => some openArray
  | ']' => some closeArray
  | '\x7b' => some openObject
  | '\x7d' => some closeObject
  | ':' => some colon
  | ',' => some comma
  | _ => none

def escaped? (c : Char) : Option Char :=
  match c with
  | '\x22' => some c
  | '\\' => some c
  | '/' => some c
  | 'b' => some '\x08'
  | 'f' => some '\x0c'
  | 'n' => some '\x0a'
  | 'r' => some '\x0d'
  | 't' => some '\x09'
  | _ => none

/-- A complete hexadecimal escape. Surrogates come in pairs or not at all. -/
def completed? (seen : List Char) (high : Option Nat) (unit : Nat) : Option Scan :=
  match high with
  | some h =>
    if 0xDC00 ≤ unit && unit < 0xE000 then
      some (.text (Char.ofNat (0x10000 + (h - 0xD800) * 0x400 + (unit - 0xDC00)) :: seen) none)
    else none
  | none =>
    if 0xD800 ≤ unit && unit < 0xDC00 then some (.text seen (some unit))
    else if 0xDC00 ≤ unit && unit < 0xE000 then none
    else some (.text (Char.ofNat unit :: seen) none)

def begin? (c : Char) : Option (Scan × List Token) :=
  if isSpace c then some (.between, [])
  else if c = '\x22' then some (.text [] none, [])
  else match punctuation? c with
    | some token => some (.between, [token])
    | none => some (.word [c], [])

def step? : Scan → Char → Option (Scan × List Token)
  | .between, c => begin? c
  | .word seen, c =>
    if isSpace c || c = '\x22' || (punctuation? c).isSome then
      (begin? c).map fun (scan, tokens) => (scan, .word seen.reverse :: tokens)
    else some (.word (c :: seen), [])
  | .text seen high, c =>
    if c = '\\' then some (.escape seen high, [])
    else if high.isSome then none
    else if c = '\x22' then some (.between, [.text (String.ofList seen.reverse)])
    else if c.toNat < 0x20 then none
    else some (.text (c :: seen) none, [])
  | .escape seen high, c =>
    if c = 'u' then some (.code seen high 0 4, [])
    else if high.isSome then none
    else (escaped? c).map fun d => (.text (d :: seen) none, [])
  | .code seen high value missing, c => do
    let digit ← Text.hexValue? c
    let unit := value * 16 + digit
    if missing ≤ 1 then (completed? seen high unit).map (·, [])
    else some (.code seen high unit (missing - 1), [])

def advance? (state : Scan × List Token) (c : Char) : Option (Scan × List Token) :=
  (step? state.1 c).map fun (scan, tokens) => (scan, tokens.reverse ++ state.2)

def finish? : Scan × List Token → Option (List Token)
  | (.between, tokens) => some tokens.reverse
  | (.word seen, tokens) => some (.word seen.reverse :: tokens).reverse
  | _ => none

end Token

def tokens? (s : String) : Option (List Token) := do
  let state ← s.toList.foldlM Token.advance? (.between, [])
  Token.finish? state

end EntitySql.Json
