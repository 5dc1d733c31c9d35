import Substrata.Core.Convert

/-!
# Numeric types of Swift

`Int`, `UInt`, `Float` and `Double`: how each is encoded, and how `typed` gets it back.

JS has one type of numbers and `toJSConvertible` makes an `Int` or a `Double` of it, by its
value. So `typed` is asked for a type that the value may not have, and converts in two
cases: an `Int` where a `UInt` is wanted, and a `Double` where a `Float` is. `UInt(s)` traps
on a negative `Int`. `typed(as:)` and `typed()` have the same code.

## Main definitions

* `NumericType`: The four types, with their values.
* `NumericType.toJSValue`: `toJSValue` of each.
* `typed`: `JSConvertible.typed`.
-/

namespace Substrata

open Binary (binary32 binary64)

/-- Swift's `Float`. -/
abbrev Single := Binary binary32

/-- `JS_NewUint32`. -/
def jsNewUint32 (val : UInt32) : JSValue :=
  if val.toNat ≤ 2 ^ 31 - 1 then
    jsNewInt32 val.toInt32
  else
    jsNewFloat64 (Binary.ofInt binary64 val.toNat)

/-- The numeric types that are `JSConvertible`. -/
inductive NumericType
  | int
  | uint
  | float
  | double

namespace NumericType

/-- The values of a type. -/
abbrev Value : NumericType → Type
  | .int => Int64
  | .uint => UInt64
  | .float => Single
  | .double => Double

/-- `toJSValue`. `UInt32(self)` traps past the 32 bits. -/
def toJSValue : (T : NumericType) → T.Value → Outcome JSValue
  | .int, n => .ok (jsNewInt64 n)
  | .uint, n => if n.toNat < 2 ^ 32 then .ok (jsNewUint32 n.toUInt32) else .error .trap
  | .float, x => .ok (jsNewFloat64 (Binary.convert binary64 x))
  | .double, d => .ok (jsNewFloat64 d)

end NumericType

/-- `UInt(s)`, which traps on a negative number. -/
def Int64.toUInt (n : Int64) : Outcome UInt64 :=
  if 0 ≤ n.toInt then .ok n.toUInt64 else .error .trap

/-- `typed(as:)`, for a numeric type. -/
def typed : (T : NumericType) → JSConvertible → Outcome (Option T.Value)
  | .int, .int n => .ok (some n)
  | .double, .double d => .ok (some d)
  -- JS has integers and doubles only
  | .uint, .int n => do
    let u ← Int64.toUInt n
    .ok (some u)
  | .float, .double d => .ok (some (Binary.convert binary32 d))
  | _, _ => .ok none

end Substrata
