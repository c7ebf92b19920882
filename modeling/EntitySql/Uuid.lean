import EntitySql.Text.Hex
import EntitySql.Text.Segments

/-! Universally unique identifiers: 128 bits, written as hexadecimal digits in five groups. -/

set_option autoImplicit false

namespace EntitySql

structure Uuid where
  bits : BitVec 128
  deriving DecidableEq

namespace Uuid

def groupSizes : List Nat := [8, 4, 4, 4, 12]

def digits (u : Uuid) : List Char :=
  (List.range 32).map fun i => Nat.digitChar (u.bits.toNat >>> (4 * (31 - i)) % 16)

def cutInto {α : Type} : List Nat → List α → List (List α)
  | [], _ => []
  | n :: sizes, xs => xs.take n :: cutInto sizes (xs.drop n)

def text (u : Uuid) : String :=
  String.intercalate "-" ((cutInto groupSizes u.digits).map String.ofList)

def read? (s : String) : Option Uuid := do
  let (first, rest) := Text.segments '-' s.toList
  guard ((first :: rest).map List.length = groupSizes)
  let value ← Text.hexNumber? (first :: rest).flatten
  return ⟨BitVec.ofNat 128 value⟩

end Uuid

end EntitySql
