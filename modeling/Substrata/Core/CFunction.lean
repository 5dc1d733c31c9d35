import Mathlib.Algebra.Ring.Int.Defs
import Mathlib.Algebra.Ring.Nat

/-!
# C function objects

The JS function objects behind everything that is exported. Swift hands
`JS_NewCFunctionMagic` one of five C callbacks and an ID; the engine stores
both in the function object, and when a script calls the object it passes the
stored number back to the callback, which looks the ID up.

The number is called `magic`. `JS_NewCFunctionMagic` takes it as an `int`,
but the field of the object that keeps it is an `int16_t`.

Names reach the engine as C strings, so a name is a string without a NUL.

## Main definitions

* `CName`: A string without a NUL.
* `cString`: The part of a Swift string that a C function reads.
* `Callback`: The five functions Swift passes to the engine.
* `JSCFunctionEnum`: How the engine calls them.
* `CFunction`: The `u.cfunc` part of a function object, with its name.
* `jsNewCFunctionMagic`: Building a function object.
* `CFunction.passedMagic`: The number the engine passes back on a call.

## Theorems

* `passedMagic_toInt`: The number passed back is the given one modulo `2 ^ 16`.
* `passedMagic_eq_iff`: It is the given one exactly when that fits 16 bits.
-/

namespace Substrata

/-- A name as the engine is handed one: a C string, which has no NUL in it. -/
abbrev CName := { s : String // '\x00' ∉ s.toList }

/-- A Swift string handed to a C function, which reads up to the first NUL. -/
def cString (s : String) : CName :=
  ⟨String.ofList (s.toList.takeWhile (· ≠ '\x00')), by
    intro h
    rw [String.toList_ofList] at h
    have hall := List.all_eq_true.mp (List.all_takeWhile (p := (· ≠ '\x00'))) _ h
    exact absurd rfl (of_decide_eq_true hall)⟩

/-- The callbacks behind exported functions, methods, constructors and
    properties. -/
inductive Callback
  | typedCall
  | typedInstanceMethod
  | typedConstruct
  | typedGetter
  | typedSetter
  deriving DecidableEq, Repr

/-- The calling conventions the exports use. -/
inductive JSCFunctionEnum
  | genericMagic
  | constructorMagic
  deriving DecidableEq, Repr

/-- A C function object: `u.cfunc` and the `name` property. -/
structure CFunction where
  cFunction : Callback
  name : CName
  length : UInt8
  cproto : JSCFunctionEnum
  magic : Int16
  deriving DecidableEq, Repr

/-- `JS_NewCFunctionMagic`, through `JS_NewCFunction2` and `JS_NewCFunction3`.
    The ID arrives as an `int` and is stored in an `int16_t`. -/
def jsNewCFunctionMagic (func : Callback) (name : CName) (length : Nat)
    (cproto : JSCFunctionEnum) (magic : Int32) : CFunction :=
  { cFunction := func, name := name, length := UInt8.ofNat length, cproto := cproto,
    magic := magic.toInt16 }

/-- What `js_call_c_function` passes to the callback: the stored `int16_t`,
    promoted to `int`. -/
def CFunction.passedMagic (f : CFunction) : Int32 :=
  f.magic.toInt32

theorem passedMagic_toInt (func : Callback) (name : CName) (length : Nat)
    (cproto : JSCFunctionEnum) (id : Int32) :
    (jsNewCFunctionMagic func name length cproto id).passedMagic.toInt
      = id.toInt.bmod (2 ^ 16) := by
  simp only [jsNewCFunctionMagic, CFunction.passedMagic, Int16.toInt_toInt32,
    Int32.toInt_toInt16]

/-- The callback gets the ID it was built for exactly when the ID fits the
    16 bits it is stored in. IDs count up from zero, so only the upper end of
    the range matters. -/
theorem passedMagic_eq_iff (func : Callback) (name : CName) (length : Nat)
    (cproto : JSCFunctionEnum) (id : Int32) (h0 : 0 ≤ id.toInt) :
    (jsNewCFunctionMagic func name length cproto id).passedMagic = id ↔ id.toInt < 2 ^ 15 := by
  rw [← Int32.toInt_inj, passedMagic_toInt]
  constructor
  · intro h
    have hlt := Int.bmod_lt (x := id.toInt) (m := 2 ^ 16) (by decide)
    rw [h] at hlt
    omega
  · intro h
    exact Int.bmod_eq_of_le (by omega) (by omega)

end Substrata
