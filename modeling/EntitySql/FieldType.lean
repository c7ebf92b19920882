import EntitySql.Value

/-! The types of entity fields, and how a field's content becomes a value. -/

set_option autoImplicit false

namespace EntitySql

inductive Scalar where
  | bool
  | int64 | int32 | int16 | int8
  | uint32 | uint16 | uint8
  | float64 | float32
  | text
  | uuid
  | timestamp
  | json
  /-- A field that holds a value of any kind. -/
  | value
  deriving DecidableEq

namespace Scalar

abbrev Carrier : Scalar → Type
  | bool => Bool
  | int64 => Int64
  | int32 => Int32
  | int16 => Int16
  | int8 => Int8
  | uint32 => UInt32
  | uint16 => UInt16
  | uint8 => UInt8
  | float64 => Float
  | float32 => Float32
  | text => String
  | uuid => Uuid
  | timestamp => Timestamp
  | json => Json
  | value => Value

def kind : Scalar → Kind
  | bool => .bool
  | int64 | int32 | int16 | int8 | uint32 | uint16 | uint8 => .int
  | float64 | float32 => .float
  | text => .text
  | uuid => .uuid
  | timestamp => .timestamp
  | json => .json
  | value => .unknown

def toValue : (s : Scalar) → s.Carrier → Value
  | bool, b => .bool b
  | int64, n => .int n
  | int32, n => .int n.toInt64
  | int16, n => .int n.toInt64
  | int8, n => .int n.toInt64
  | uint32, n => .int n.toUInt64.toInt64
  | uint16, n => .int n.toUInt64.toInt64
  | uint8, n => .int n.toUInt64.toInt64
  | float64, x => .float x
  | float32, x => .float x.toFloat
  | text, s => .text s
  | uuid, u => .uuid u
  | timestamp, t => .timestamp t
  | json, document => .json document
  | value, v => v

end Scalar

inductive FieldType where
  | scalar (s : Scalar)
  | optional (content : FieldType)
  | list (item : FieldType)
  deriving DecidableEq

namespace FieldType

def Carrier : FieldType → Type
  | scalar s => s.Carrier
  | optional content => Option content.Carrier
  | list item => List item.Carrier

/-- The kind that is known from the type alone; whether a field may be empty does not change it. -/
def kind : FieldType → Kind
  | scalar s => s.kind
  | optional content => content.kind
  | list _ => .array

def toValue : (t : FieldType) → t.Carrier → Value
  | scalar s, x => s.toValue x
  | optional content, x =>
    match x with
    | some y => content.toValue y
    | none => .null
  | list item, xs => .array (List.map item.toValue xs)

end FieldType

end EntitySql
