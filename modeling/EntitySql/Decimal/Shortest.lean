/-! The fewest decimal digits that identify a binary64 value, chosen by exact arithmetic on its bits.

The reals that round to a value form an interval around it. For one digit, two digits and so on the two
neighbours of the value on that decimal grid are tried; the first grid with a neighbour in the interval
gives the digits, and of two such neighbours the nearer one is taken. -/

set_option autoImplicit false

namespace EntitySql.Decimal

/-- A positive binary64 value, `mantissa * 2 ^ exponent`. -/
structure Binary where
  mantissa : Nat
  exponent : Int
  /-- The gap to the value below is half the gap to the value above. -/
  narrowBelow : Bool
  deriving DecidableEq

def Binary.leadingBit : Nat := 1 <<< 52

def Binary.ofBits (bits : UInt64) : Binary :=
  let biased : Nat := bits.toNat / leadingBit % 2048
  let fraction : Nat := bits.toNat % leadingBit
  if biased = 0 then ⟨fraction, -1074, false⟩
  else ⟨leadingBit + fraction, (biased : Int) - 1075, fraction = 0 && biased ≠ 1⟩

inductive Tie where
  | up
  | even
  deriving DecidableEq

def tenTo (n : Nat) : Nat := Nat.pow 10 n

/-- Compare `d * 10 ^ e` with `m * 2 ^ q`, exactly: negative exponents change sides. -/
def compareScaled (d : Nat) (e : Int) (m : Nat) (q : Int) : Ordering :=
  compare ((d * tenTo e.toNat) <<< (-q).toNat) ((m * tenTo (-e).toNat) <<< q.toNat)

/-- `d * 10 ^ e` rounds to `b`. The ends of the interval belong to it when the mantissa is even. -/
def Binary.attracts (b : Binary) (d : Nat) (e : Int) : Bool :=
  let low := compareScaled d e (4 * b.mantissa - if b.narrowBelow then 1 else 2) (b.exponent - 2)
  let high := compareScaled d e (4 * b.mantissa + 2) (b.exponent - 2)
  let even := b.mantissa % 2 = 0
  (low = .gt || even && low = .eq) && (high = .lt || even && high = .eq)

def Binary.floorAt (b : Binary) (e : Int) : Nat :=
  (b.mantissa * tenTo (-e).toNat) <<< b.exponent.toNat / (tenTo e.toNat <<< (-b.exponent).toNat)

/-- The least `k` with `b < 10 ^ k`. The binary logarithm gives it up to a step or two. -/
def Binary.point (b : Binary) : Int :=
  let estimate := (b.mantissa.log2 + b.exponent) * 30103 / 100000
  ([-1, 0, 1, 2].map (estimate + ·)).find? (fun k => compareScaled 1 k b.mantissa b.exponent = .gt)
    |>.getD (estimate + 3)

def Binary.nearest? (tie : Tie) (b : Binary) (e : Int) : Option Nat :=
  let low := b.floorAt e
  match b.attracts low e, b.attracts (low + 1) e with
  | false, false => none
  | true, false => some low
  | false, true => some (low + 1)
  | true, true =>
    match compareScaled (2 * low + 1) e (2 * b.mantissa) b.exponent, tie with
    | .gt, _ => some low
    | .lt, _ => some (low + 1)
    | .eq, .up => some (low + 1)
    | .eq, .even => some (if low % 2 = 0 then low else low + 1)

/-- The number `0.d₁d₂… * 10 ^ point`. -/
structure Digits where
  digits : List Char
  point : Int
  deriving DecidableEq

def Digits.ofScaled (d : Nat) (e : Int) : Digits :=
  let all := Nat.toDigits 10 d
  ⟨(all.reverse.dropWhile (· = '0')).reverse, all.length + e⟩

/-- All digits of the value. Halving is multiplying by five and moving the point. -/
def Binary.exact (b : Binary) : Digits :=
  if b.exponent < 0 then Digits.ofScaled (b.mantissa * Nat.pow 5 b.exponent.natAbs) b.exponent
  else Digits.ofScaled (b.mantissa <<< b.exponent.toNat) 0

/-- Seventeen digits identify every binary64 value; the exact value stands behind them. -/
def Binary.shortest (tie : Tie) (b : Binary) : Digits :=
  let found := (List.range 17).findSome? fun (n : Nat) =>
    let e := b.point - (n + 1 : Nat)
    (b.nearest? tie e).map (Digits.ofScaled · e)
  found.getD b.exact

end EntitySql.Decimal
