import BlockTrace.Decimal.Shortest

/-! JSON values. -/
namespace BlockTrace.Json

/-- A number without a fraction or exponent that fits 64 bits is an `integer`, any other a
`double`. Members keep their order, and one name may occur twice. -/
inductive Value
  | null
  | bool (value : Bool)
  | integer (value : Int)
  | double (value : Decimal.Double)
  | string (value : String)
  | array (items : List Value)
  | object (members : List (String × Value))

inductive Found
  | null
  | bool (value : Bool)
  | integer (value : Int)
  | double (value : Decimal.Double)
  | string (value : String)
  | sequence
  | map
  deriving DecidableEq, Repr

def Value.found : Value → Found
  | null => .null
  | bool value => .bool value
  | integer value => .integer value
  | double value => .double value
  | string value => .string value
  | array _ => .sequence
  | object _ => .map

/-- Doubles are written without an exponent from `10 ^ -5` up to `10 ^ 16`, and otherwise with one
that always has a sign. -/
def doubleLayout : Decimal.Layout :=
  ⟨-5, 15, true⟩

end BlockTrace.Json
