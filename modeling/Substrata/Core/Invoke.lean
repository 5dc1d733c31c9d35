import Substrata.Core.Construction
import Substrata.Core.Wrapper

/-!
# Calling an exported function

`JSFunction.call` on the wrapper that `export(name:function:)` returned: out of native code,
through the engine, and into native code again.

The arguments are encoded one after the other, and `js_call_c_function` hands them to
`typedCall`, which decodes them, finds the closure by its ID and runs it. Its result is
encoded, or what it throws becomes the pending exception. Back in `JSFunction.call` the result
is decoded, and an exception is taken from the engine, made a `JSError`, and passed to the
`exceptionHandler`.

The closure may do anything to the engine and its heap, and so may the handler: both are
parameters. The calls of native code that a call makes itself are listed, and those that the
closure or the handler makes in turn are not.

## Main definitions

* `Closures`: What native code does when it is called.
* `NativeCall`: The calls of native code.
* `Stage.typedCall`: The callback behind an exported function.
* `Stage.jsCallCFunction`: How the engine calls it.
* `Stage.receive`: `toJSConvertible` on what a call returned.
* `Stage.call`: `JSFunction.call`.
-/

namespace Substrata

/-- What native code does when it is called: a closure returns a value or `nil`, or throws
    something with a `localizedDescription`. -/
structure Closures (Fn Get Set : Type) where
  run : Fn → List JSConvertible → Stage Fn Get Set →
    Outcome (Except String (Option JSConvertible) × Stage Fn Get Set)
  exceptionHandler : JSConvertible → Stage Fn Get Set → Stage Fn Get Set

/-- A call of native code. -/
inductive NativeCall (Fn : Type)
  | function (fn : Fn) (args : List JSConvertible)
  | exceptionHandler (error : JSConvertible)

variable {Fn Get Set : Type}

namespace Heap

/-- One argument, where no script runs. -/
def jsArgToType (ext : Externals) (h : Heap) (fuel : ℕ) (v : JSValue) : Outcome JSConvertible :=
  match toJSConvertible ext h fuel v with
  | .error stop => .error stop
  | .ok value => .ok (value.getD .nsNull)

/-- `jsArgsToTypes`. The engine passes a buffer that may be longer than the number of
    arguments. -/
def jsArgsToTypes (ext : Externals) (h : Heap) (fuel argc : ℕ) (argv : List JSValue) :
    Outcome (List JSConvertible) :=
  (argv.take argc).mapM (h.jsArgToType ext fuel)

/-- `JSError(value:context:)` of an object. -/
def jsErrorInit (ext : Externals) (h : Heap) (fuel : ℕ) : JSValue → Outcome JSConvertible
  | .object ref => do
    let name ← errorStringFromJSValue ext (toJSConvertible ext h fuel) h ref "name"
    let message ← errorStringFromJSValue ext (toJSConvertible ext h fuel) h ref "message"
    let cause ← errorStringFromJSValue ext (toJSConvertible ext h fuel) h ref "cause"
    let stack ← errorStringFromJSValue ext (toJSConvertible ext h fuel) h ref "stack"
    .ok (.jsError name message cause stack)
  | _ => .error .script

end Heap

namespace Stage

/-- `returnJSValueRef` of a function. -/
def returnJSValueRef (closures : Closures Fn Get Set) (function : Fn) (args : List JSConvertible)
    (s : Stage Fn Get Set) : Outcome (JSValue × Stage Fn Get Set) :=
  match closures.run function args s with
  | .error stop => .error stop
  | .ok (.error localizedDescription, s') => s'.contextThrowError localizedDescription
  | .ok (.ok value, s') =>
    match Route.functionResult.hand value s'.heap with
    | .error stop => .error stop
    | .ok (v, h) => .ok (v, { s' with heap := h })

/-- `typedCall`. -/
def typedCall (ext : Externals) (closures : Closures Fn Get Set) (fuel : ℕ) (magic : Int32)
    (argc : ℕ) (argv : List JSValue) (s : Stage Fn Get Set) :
    Outcome (JSValue × List (NativeCall Fn) × Stage Fn Get Set) :=
  match s.heap.jsArgsToTypes ext fuel argc argv with
  | .error stop => .error stop
  | .ok args =>
    match s.engine.context.functions.lookup magic with
    | none => .ok (jsUndefined, [], s)
    | some fn =>
      match s.returnJSValueRef closures fn args with
      | .error stop => .error stop
      | .ok (v, s') => .ok (v, [.function fn args], s')

/-- `js_call_c_function` on a function object with the callback `typedCall`. The buffer is
    filled up to the declared length. -/
def jsCallCFunction (ext : Externals) (closures : Closures Fn Get Set) (fuel : ℕ) (f : CFunction)
    (argv : List JSValue) (s : Stage Fn Get Set) :
    Outcome (JSValue × List (NativeCall Fn) × Stage Fn Get Set) :=
  let argBuf := argv ++ List.replicate (f.length.toNat - argv.length) jsUndefined
  s.typedCall ext closures fuel f.passedMagic argv.length argBuf

/-- `handlePossibleException` on an exception: `JS_GetException` leaves none pending. -/
def handlePossibleException (ext : Externals) (closures : Closures Fn Get Set) (fuel : ℕ)
    (s : Stage Fn Get Set) : Outcome (JSConvertible × List (NativeCall Fn) × Stage Fn Get Set) :=
  match s.heap.jsErrorInit ext fuel (s.exception.getD jsUndefined) with
  | .error stop => .error stop
  | .ok e =>
    .ok (e, [.exceptionHandler e], closures.exceptionHandler e { s with exception := none })

/-- `toJSConvertible` on what a call returned. -/
def receive (ext : Externals) (closures : Closures Fn Get Set) (fuel : ℕ) (v : JSValue)
    (s : Stage Fn Get Set) :
    Outcome (Option JSConvertible × List (NativeCall Fn) × Stage Fn Get Set) :=
  match v with
  | .exception =>
    match s.handlePossibleException ext closures fuel with
    | .error stop => .error stop
    | .ok (e, calls, s') => .ok (some e, calls, s')
  | v =>
    match toJSConvertible ext s.heap fuel v with
    | .error stop => .error stop
    | .ok value => .ok (value, [], s)

/-- `JSFunction.call(this:args:)` on the wrapper of the object `func`, which is the function
    object `f`. -/
def call (ext : Externals) (closures : Closures Fn Get Set) (f : CFunction) (func : ℕ)
    (this : JSValue) (args : Option (List JSConvertible)) (s : Stage Fn Get Set) (fuel : ℕ) :
    Outcome (Option JSConvertible × List (NativeCall Fn) × Stage Fn Get Set) :=
  match s.heap.functionCall func this args with
  | .error stop => .error stop
  | .ok (invocation, h) =>
    match jsCallCFunction ext closures fuel f invocation.args { s with heap := h } with
    | .error stop => .error stop
    | .ok (v, calls, s') =>
      match s'.receive ext closures fuel v with
      | .error stop => .error stop
      | .ok (value, calls', s'') => .ok (value, calls ++ calls', s'')

end Stage

end Substrata
