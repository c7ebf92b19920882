/-! Decimal numerals: an optional sign, digits, an optional fraction and an optional exponent. -/

set_option autoImplicit false

namespace EntitySql.Decimal

/-- A numeral as it is written, leading zeros and all. -/
structure Numeral where
  sign : Option Char
  whole : List Char
  fraction : Option (List Char)
  exponent : Option Int
  deriving DecidableEq

def natOfDigits (digits : List Char) : Nat :=
  digits.foldl (fun n c => n * 10 + (c.toNat - '0'.toNat)) 0

theorem natOfDigits_append_singleton (digits : List Char) (c : Char) :
    natOfDigits (digits ++ [c]) = natOfDigits digits * 10 + (c.toNat - '0'.toNat) := by
  simp [natOfDigits, List.foldl_append]

namespace Numeral

def scanSign : List Char → Option Char × List Char
  | '+' :: cs => (some '+', cs)
  | '-' :: cs => (some '-', cs)
  | cs => (none, cs)

def scanFraction : List Char → Option (List Char) × List Char
  | '.' :: cs => (some (cs.takeWhile Char.isDigit), cs.dropWhile Char.isDigit)
  | cs => (none, cs)

def readExponent? : List Char → Option (Option Int)
  | [] => some none
  | mark :: cs =>
    if mark = 'e' || mark = 'E' then
      let (sign, digits) := scanSign cs
      if digits.isEmpty || !digits.all Char.isDigit then none
      else
        let size : Int := natOfDigits digits
        some (some (if sign = some '-' then -size else size))
    else none

def read? (cs : List Char) : Option Numeral := do
  let (sign, unsigned) := scanSign cs
  let whole := unsigned.takeWhile Char.isDigit
  let (fraction, rest) := scanFraction (unsigned.dropWhile Char.isDigit)
  if whole.isEmpty && (fraction.getD []).isEmpty then none
  else
    let exponent ← readExponent? rest
    return ⟨sign, whole, fraction, exponent⟩

def isNegative (n : Numeral) : Bool :=
  n.sign = some '-'

def isWhole (n : Numeral) : Bool :=
  n.fraction.isNone && n.exponent.isNone

def toInt (n : Numeral) : Int :=
  if n.isNegative then -(natOfDigits n.whole : Int) else natOfDigits n.whole

/-- The nearest number of a binary format. Exponents far outside the range of the format are settled
without computing their power of ten. -/
def magnitude (n : Numeral) {α : Type} [OfScientific α] : α :=
  let fraction := n.fraction.getD []
  let digits := n.whole ++ fraction
  let exponent := n.exponent.getD 0 - fraction.length
  let value := natOfDigits digits
  if value = 0 || exponent + digits.length < -400 then OfScientific.ofScientific 0 false 0
  else if exponent > 400 then OfScientific.ofScientific 1 false 400
  else OfScientific.ofScientific value (exponent < 0) exponent.natAbs

def toFloat (n : Numeral) {α : Type} [OfScientific α] [Neg α] : α :=
  if n.isNegative then -n.magnitude else n.magnitude

end Numeral

def specialValue? {α : Type} [Div α] [OfScientific α] (name : List Char) : Option α :=
  let lower := name.map Char.toLower
  let zero : α := OfScientific.ofScientific 0 false 0
  if lower = "nan".toList then some (zero / zero)
  else if lower = "inf".toList || lower = "infinity".toList then
    some (OfScientific.ofScientific 1 false 0 / zero)
  else none

def readFloat? {α : Type} [Div α] [Neg α] [OfScientific α] (s : String) : Option α :=
  let (sign, rest) := Numeral.scanSign s.toList
  match specialValue? rest with
  | some x => some (if sign = some '-' then -x else x)
  | none => (Numeral.read? s.toList).map fun n => n.toFloat

end EntitySql.Decimal
