import EntitySql.Decimal.Shortest

/-! How the digits of a finite number are laid out. -/

set_option autoImplicit false

namespace EntitySql.Decimal

structure Layout where
  /-- The places of the point, counted from the first digit, that are written without an exponent;
  without bounds all of them are. -/
  plain : Option (Int × Int)
  /-- Whole numbers keep `.0`. -/
  pointZero : Bool
  tie : Tie
  deriving DecidableEq

def Layout.isPlain (l : Layout) (point : Int) : Bool :=
  match l.plain with
  | none => true
  | some (least, greatest) => least ≤ point && point ≤ greatest

def Digits.positional (d : Digits) (pointZero : Bool) : List Char :=
  if d.point ≤ 0 then
    '0' :: '.' :: List.replicate (-d.point).toNat '0' ++ d.digits
  else if d.point.toNat < d.digits.length then
    d.digits.take d.point.toNat ++ '.' :: d.digits.drop d.point.toNat
  else
    d.digits ++ List.replicate (d.point.toNat - d.digits.length) '0'
      ++ if pointZero then ['.', '0'] else []

def Digits.scientific (d : Digits) : List Char :=
  let exponent := d.point - 1
  d.digits.take 1
    ++ (if d.digits.length ≤ 1 then [] else '.' :: d.digits.drop 1)
    ++ 'e' :: (if exponent < 0 then '-' else '+') :: Nat.toDigits 10 exponent.natAbs

def Layout.digits (l : Layout) (d : Digits) : List Char :=
  if l.isPlain d.point then d.positional l.pointZero else d.scientific

def Layout.render (l : Layout) (x : Float) : String :=
  let bits := x.toBits
  let magnitude := Binary.ofBits bits
  let digits : Digits := if magnitude.mantissa = 0 then ⟨['0'], 1⟩ else magnitude.shortest l.tie
  let text := l.digits digits
  String.ofList (if bits >>> 63 = 0 then text else '-' :: text)

end EntitySql.Decimal
