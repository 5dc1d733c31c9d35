import Substrata.Core.Convert
import Substrata.Core.Methods

/-!
# Class instances from the outside

`JSClass`, the wrapper of an object whose class has a name: reading a property,
writing one, and calling a method.

A property is read under a key that travels as a C string, and the value is
decoded. A value is encoded before it is written, with `null` for one that there
is not, and nothing tells whether the assignment was refused.

A method is looked up in a table. The first call has the built-in script make it,
decodes what comes back, and keeps it if all of its values are functions. From
then on the table is used as it is. What the engine runs in the end is a call of
a function with a `this` and arguments, and there the model stops.

## Main definitions

* `Heap.classValue`: `JSClass.value(for:)`.
* `Heap.classSetValue`: `JSClass.setValue(_:for:)`.
* `Invocation`: What `JS_Call` is given.
* `Heap.functionCall`: `JSFunction.call(this:args:)`.
* `Heap.populateMethodsIfNecessary`: The table that the wrapper keeps.
* `Heap.classCall`: `JSClass.call(method:args:)`.
-/

namespace Substrata

/-- What `JS_Call` is given. -/
structure Invocation where
  func : ℕ
  this : JSValue
  args : List JSValue
  deriving DecidableEq

/-- The loop over the arguments in `JSFunction.call`. -/
def encodeArgs : List JSConvertible → Heap → Outcome (List JSValue × Heap)
  | [], h => .ok ([], h)
  | x :: args, h =>
    match Route.callArgument.hand (some x) h with
    | .error stop => .error stop
    | .ok (v, h') =>
      match encodeArgs args h' with
      | .error stop => .error stop
      | .ok (values, h'') => .ok (v :: values, h'')

/-- `as? [String: JSFunction]`, which takes all values or none. -/
def asMethods : Option JSConvertible → Option (List (String × ℕ))
  | some (.dictionary entries) =>
    entries.mapM fun entry =>
      match entry.2 with
      | .jsFunction value _ _ => some (entry.1, value)
      | _ => none
  | _ => none

/-- `methods[method]`. -/
def lookupMethod (canonical : String → String) (methods : List (String × ℕ)) (method : String) :
    Option ℕ :=
  (methods.find? fun entry => canonical entry.1 = canonical method).map Prod.snd

namespace Heap

/-- `JSClass.value(for:)`. -/
def classValue (ext : Externals) (h : Heap) (fuel ref : ℕ) (key : String) :
    Outcome (Option JSConvertible) :=
  match h.getProperty ref (jsNewAtom key) with
  | .error stop => .error stop
  | .ok v => toJSConvertible ext h fuel v

/-- `JSClass.setValue(_:for:)`. -/
def classSetValue (h : Heap) (ref : ℕ) (value : Option JSConvertible) (key : String) :
    Outcome Heap :=
  match Route.classSetValue.hand value h with
  | .error stop => .error stop
  | .ok (jsv, h') => h'.setProperty ref (jsNewAtom key) jsv

/-- `JSFunction.call(this:args:)` up to the call. `Int32(args.count)` traps. -/
def functionCall (h : Heap) (func : ℕ) (this : JSValue) (args : Option (List JSConvertible)) :
    Outcome (Invocation × Heap) :=
  match args with
  | none => .ok ({ func, this, args := [] }, h)
  | some args =>
    match encodeArgs args h with
    | .error stop => .error stop
    | .ok (values, h') =>
      if args.length < 2 ^ 31 then
        .ok ({ func, this, args := values }, h')
      else
        .error .trap

/-- `populateMethodsIfNecessary`, with the heap that it leaves. -/
def populateMethodsIfNecessary (ext : Externals) (h : Heap) (fuel ref : ℕ)
    (methods : Option (List (String × ℕ))) : Outcome (Option (List (String × ℕ)) × Heap) :=
  match methods with
  | some table => .ok (some table, h)
  | none =>
    match h.getInstanceMethodNames fuel ref none with
    | .error stop => .error stop
    | .ok (h', output) =>
      match toJSConvertible ext h' fuel (.object output) with
      | .error stop => .error stop
      | .ok value => .ok (asMethods value, h')

/-- `JSClass.call(method:args:)` up to the call, with the table that the wrapper has afterwards.
    Without a table, or without the method in it, there is no call. -/
def classCall (ext : Externals) (h : Heap) (fuel ref : ℕ) (methods : Option (List (String × ℕ)))
    (method : String) (args : Option (List JSConvertible)) :
    Outcome (Option Invocation × Option (List (String × ℕ)) × Heap) :=
  match h.populateMethodsIfNecessary ext fuel ref methods with
  | .error stop => .error stop
  | .ok (none, h') => .ok (none, none, h')
  | .ok (some table, h') =>
    match lookupMethod ext.canonical table method with
    | none => .ok (none, some table, h')
    | some func =>
      match h'.functionCall func (.object ref) args with
      | .error stop => .error stop
      | .ok (call, h'') => .ok (some call, some table, h'')

end Heap

end Substrata
