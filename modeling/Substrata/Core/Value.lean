import Substrata.Basis.Binary
import Substrata.Basis.Utf16
import Substrata.Core.CFunction
import Mathlib.Data.List.TakeWhile

/-!
# JS values

The values of the engine as Swift handles them: a tag and a word, the `JSValue`
of `quickjs.h`.

The word of `null` and of `undefined` carries nothing, and the engine's own
`JS_NULL` and `JS_UNDEFINED` hold zero in it. It is kept here all the same,
because the engine reads it: the conversions below have one case for the small
tags, and that case returns the word. Swift's `JSValue.null` and
`JSValue.undefined` are built in Swift and hold the number of the tag instead.

A JS string is a list of UTF-16 code units. Swift strings enter as C strings,
so they lose what follows the first NUL, and they leave as C strings again; a
lone surrogate has no UTF-8, and then there is no Swift string.

Converting a string to a number and an object to a primitive is a parameter,
`Coercions`: the first is the number parser, the second runs scripts.

## Main definitions

* `Double`: The double-precision numbers.
* `JSString`: The strings of the engine.
* `JSString.ofSwift`, `JSString.toSwift`: Crossing between the two languages.
* `JSValue`: A tag with its word.
* `JSValue.null`, `JSValue.undefined`: The values that Swift builds.
* `jsNull`, `jsUndefined`: The values of the engine.
* `jsToBoolFree`, `jsToNumberFree`, `jsToInt32Free`, `jsToFloat64`: The
  engine's conversions.
* `jsNewInt64`: The value of a 64-bit integer.

## Theorems

* `JSString.toSwift_ofSwift`: A string comes back up to its first NUL.
* `cString_eq_self_iff`: A string without NUL is handed over whole.
-/

namespace Substrata

/-- Swift's `Double` and the `double` of the engine. -/
abbrev Double := Binary Binary.binary64

/-- The strings of the engine. -/
abbrev JSString := List UInt16

/-- `JS_NewString` and `JS_NewAtom` read a C string. -/
def JSString.ofSwift (s : String) : JSString := Utf16.encode (cString s).1.toList

/-- `JS_ToCString` and `String(cString:encoding:)`: the text up to the first
    NUL, unless a surrogate stands alone in it. -/
def JSString.toSwift (s : JSString) : Option String :=
  (Utf16.decode (s.takeWhile (· ≠ 0))).map String.ofList

theorem cString_eq_self_iff (s : String) : (cString s).1 = s ↔ '\x00' ∉ s.toList := by
  constructor
  · intro h
    rw [← h]
    exact (cString s).2
  · intro h
    have hall : s.toList.takeWhile (· ≠ '\x00') = s.toList :=
      List.takeWhile_eq_self_iff.mpr fun c hc => decide_eq_true fun heq => h (heq ▸ hc)
    show String.ofList (s.toList.takeWhile (· ≠ '\x00')) = s
    rw [hall, String.ofList_toList]

/-- A string comes back up to its first NUL. -/
theorem JSString.toSwift_ofSwift (s : String) :
    (JSString.ofSwift s).toSwift = some (cString s).1 := by
  have hall : (JSString.ofSwift s).takeWhile (· ≠ 0) = JSString.ofSwift s := by
    refine List.takeWhile_eq_self_iff.mpr fun u hu => decide_eq_true fun heq => ?_
    rw [heq] at hu
    exact (cString s).2 ((Utf16.zero_mem_encode_iff _).mp hu)
  unfold JSString.toSwift
  rw [hall]
  unfold JSString.ofSwift
  rw [Utf16.decode_encode, Option.map_some, String.ofList_toList]

/-- What leaves the engine contains no NUL. -/
theorem JSString.nulFree_of_toSwift {units : JSString} {s : String}
    (h : units.toSwift = some s) : '\x00' ∉ s.toList := by
  rcases Option.map_eq_some_iff.mp h with ⟨chars, hchars, rfl⟩
  rw [String.toList_ofList]
  refine Utf16.zero_notMem_of_decode hchars fun hzero => ?_
  have hne := List.mem_takeWhile_imp hzero
  exact absurd rfl (of_decide_eq_true hne)

/-- A string and the text before its first NUL enter alike. -/
theorem JSString.ofSwift_cString (s : String) :
    JSString.ofSwift (cString s).1 = JSString.ofSwift s := by
  unfold JSString.ofSwift
  rw [(cString_eq_self_iff _).mpr (cString s).2]

theorem JSString.ofSwift_injective {s t : String} (h : JSString.ofSwift s = JSString.ofSwift t) :
    (cString s).1 = (cString t).1 := by
  have hlist := Utf16.encode_injective h
  rw [← String.ofList_toList (s := (cString s).1), hlist, String.ofList_toList]

/-! ## Values -/

/-- A JS value: the tag, with the word where it is read. Objects are numbered,
    and a reference is a number. -/
inductive JSValue
  | int (word : Int32)
  | bool (word : Int32)
  | nullTag (word : Int32)
  | undefinedTag (word : Int32)
  | exception
  | float64 (d : Double)
  | string (s : JSString)
  | symbol (atom : ℕ)
  | bigInt (n : ℤ)
  | object (ref : ℕ)
  deriving DecidableEq

/-- `JS_TAG_NULL`. -/
def jsTagNull : Int32 := 2

/-- `JS_TAG_UNDEFINED`. -/
def jsTagUndefined : Int32 := 3

/-- The engine's `JS_NULL`. -/
def jsNull : JSValue := .nullTag 0

/-- The engine's `JS_UNDEFINED`. -/
def jsUndefined : JSValue := .undefinedTag 0

/-- Swift's `JSValue.null`, whose word is the tag. -/
def JSValue.null : JSValue := .nullTag jsTagNull

/-- Swift's `JSValue.undefined`, whose word is the tag. -/
def JSValue.undefined : JSValue := .undefinedTag jsTagUndefined

def jsNewBool (b : Bool) : JSValue := .bool (if b then 1 else 0)

def jsNewInt32 (n : Int32) : JSValue := .int n

def jsNewFloat64 (d : Double) : JSValue := .float64 d

/-- `JS_NewInt64`. The cast to `double` rounds. -/
def jsNewInt64 (n : Int64) : JSValue :=
  if -2 ^ 31 ≤ n.toInt ∧ n.toInt ≤ 2 ^ 31 - 1 then
    jsNewInt32 n.toInt32
  else
    jsNewFloat64 (Binary.ofInt Binary.binary64 n.toInt)

/-! ## Conversions -/

/-- What conversions need from the rest of the engine: the number parser, and
    `JS_ToPrimitive` with the hint `number`, which returns a primitive or an
    exception. -/
structure Coercions where
  atof : JSString → Double
  toPrimitive : ℕ → JSValue

/-- `JS_ToBoolFree`, an `int`: zero is false and `-1` an exception. -/
def jsToBoolFree : JSValue → Int32
  | .int word => if word ≠ 0 then 1 else 0
  -- one case for the three tags, which returns the word
  | .bool word => word
  | .nullTag word => word
  | .undefinedTag word => word
  | .exception => -1
  | .string s => if s.length ≠ 0 then 1 else 0
  | .bigInt n => if n ≠ 0 then 1 else 0
  | .object _ => 1
  | .float64 d =>
    if d.isNaN = false ∧ d.ieeeEq (Binary.ofInt Binary.binary64 0) = false then 1 else 0
  | .symbol _ => 1

/-- `JS_ToNumberHintFree` with `TON_FLAG_NUMBER`, for what is not an object. -/
def primitiveToNumber (c : Coercions) : JSValue → JSValue
  | .bigInt _ => .exception
  | .float64 d => .float64 d
  | .int word => .int word
  | .exception => .exception
  | .bool word => jsNewInt32 word
  | .nullTag word => jsNewInt32 word
  | .undefinedTag _ => .float64 .nan
  | .string s => .float64 (c.atof s)
  | .symbol _ => .exception
  | .object _ => .exception

/-- `JS_ToNumberFree`. An object is made a primitive first. -/
def jsToNumberFree (c : Coercions) : JSValue → JSValue
  | .object ref => primitiveToNumber c (c.toPrimitive ref)
  | v => primitiveToNumber c v

/-- The cases of `JS_ToInt32Free` that need no further conversion. -/
def numberToInt32 : JSValue → Option Int32
  | .int word => some word
  | .bool word => some word
  | .nullTag word => some word
  | .undefinedTag word => some word
  -- the remainder modulo `2 ^ 32` of the integer part
  | .float64 d => some (Int32.ofInt d.trunc)
  | _ => none

/-- `JS_ToInt32Free`; `none` is an exception. -/
def jsToInt32Free (c : Coercions) (v : JSValue) : Option Int32 :=
  match numberToInt32 v with
  | some n => some n
  | none => numberToInt32 (jsToNumberFree c v)

/-- The cases of `JS_ToFloat64Free` that need no further conversion: `int` up to
    `null` by the word, and a float. -/
def numberToFloat64 : JSValue → Option Double
  | .int word => some (Binary.ofInt Binary.binary64 word.toInt)
  | .bool word => some (Binary.ofInt Binary.binary64 word.toInt)
  | .nullTag word => some (Binary.ofInt Binary.binary64 word.toInt)
  | .float64 d => some d
  | _ => none

/-- `JS_ToFloat64`; `none` is an exception. -/
def jsToFloat64 (c : Coercions) (v : JSValue) : Option Double :=
  match numberToFloat64 v with
  | some d => some d
  | none => numberToFloat64 (jsToNumberFree c v)

def jsIsNumber : JSValue → Bool
  | .int _ => true
  | .float64 _ => true
  | _ => false

end Substrata
