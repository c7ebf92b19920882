/-! What the library reports about its work. -/

set_option autoImplicit false

namespace EntitySql

inductive Event where
  | resolvedSchema (entity table tableAlias key : String)
  | compiledPredicate (text : String)
  | builtStatement (label table text : String)
  deriving DecidableEq

inductive Event.Level where
  | debug
  | trace
  deriving DecidableEq

namespace Event

def level : Event → Level
  | .compiledPredicate _ => .trace
  | _ => .debug

def message : Event → String
  | .resolvedSchema entity table tableAlias key =>
    "Resolved schema for " ++ entity ++ ": table=" ++ table ++ " alias=" ++ tableAlias ++ " key=" ++ key
  | .compiledPredicate text => "Compiled predicate: " ++ text
  | .builtStatement label table text => "Built " ++ label ++ " statement for " ++ table ++ ": " ++ text

end Event

end EntitySql
