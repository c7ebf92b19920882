import EntitySql.Text.Blank
import EntitySql.Text.Quoted

/-! Spacing of statement text: outside quotations every run of white space becomes one space, and none
is left at the ends. -/

set_option autoImplicit false

namespace EntitySql.Text

def opensQuotation (c : Char) : Bool :=
  c = apostrophe || c = quoteMark

/-- `inside` is the quote the scan is in, `started` that something was written, and `gap` that white
space was passed since. A doubled quote closes its quotation and opens it again, so what is between
two quotes is copied as it is. -/
def squeezeFrom (inside : Option Char) (started gap : Bool) : List Char → List Char
  | [] => []
  | c :: cs =>
    match inside with
    | some q => c :: squeezeFrom (if c = q then none else some q) true false cs
    | none =>
      if isBlank c then squeezeFrom none started started cs
      else
        let rest := c :: squeezeFrom (if opensQuotation c then some c else none) true false cs
        if gap then ' ' :: rest else rest

def squeeze (cs : List Char) : List Char :=
  squeezeFrom none false false cs

def normalizeSpaces (s : String) : String :=
  String.ofList (squeeze s.toList)

end EntitySql.Text
