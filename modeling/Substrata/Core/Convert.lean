import Substrata.Core.Heap

/-!
# Conversion between Swift and JS values

`Conversion.swift` and `toJSConvertible`: how a Swift value becomes a JS value,
and how a JS value becomes a Swift value again.

`toJSValue` makes objects on the heap. Arrays are written element by element,
dictionaries key by key with ordinary property assignment, in the order that
the dictionary iterates in, which the list of entries stands for.

`toJSConvertible` tries one type after another and takes the first whose
`fromJSValue` succeeds. It calls itself on elements and properties; the model
counts the depth down and stops when it is used up. A Swift trap, and the
getters that run scripts, stop it too.

A `JSFunction` or `JSClass` holds on to a JS object of one context; elsewhere
it has no JS value. A `Date` is kept as the milliseconds it was made from. What
`jsDescription` prints for the fields of an error is a parameter, and so is the
canonical form of a string: Swift takes strings for equal when their characters
are canonically equivalent.

## Main definitions

* `JSConvertible`: The Swift values that cross.
* `JSConvertible.toJSValue`: From Swift to JS.
* `toJSConvertible`: From JS to Swift.
* `getClassName`: The name that tells a class instance from a dictionary.
* `Route`: The places where Swift hands the engine a value.
* `Route.hand`: What it hands over there.

## Theorems

* `orNext_none`, `orNext_of_ne`: The next attempt counts only after `nil`.
* `toJSConvertible_succ`: What is not `undefined` goes through the attempts.
* `toJSConvertible_object`: An object goes through the last six.
-/

namespace Substrata

open Binary (binary64)

/-- The Swift values that convert to JS and back. -/
inductive JSConvertible
  | string (s : String)
  | bool (b : Bool)
  | nsNull
  | int (n : Int64)
  | double (d : Double)
  | date (milliseconds : Double)
  | array (elements : List JSConvertible)
  | dictionary (entries : List (String × JSConvertible))
  | jsFunction (value context : ℕ) (name : String)
  | jsClass (value context : ℕ) (className : String)
  | jsError (name message cause stack : Option String)

/-! ## From Swift to JS -/

/-- The properties that `JSError.toJSValue` sets, those it has. -/
def setErrorString (ref : ℕ) (h : Heap) (field : String × Option String) : Outcome Heap :=
  match field.2 with
  | none => .ok h
  | some s => h.setProperty ref (jsNewAtom field.1) (.string (JSString.ofSwift s))

mutual

/-- `toJSValue(context:)`, with the heap it leaves. -/
def JSConvertible.toJSValue : JSConvertible → Heap → Outcome (Option JSValue × Heap)
  | .string s, h => .ok (some (.string (JSString.ofSwift s)), h)
  | .bool b, h => .ok (some (jsNewBool b), h)
  | .nsNull, h => .ok (some JSValue.null, h)
  | .int n, h => .ok (some (jsNewInt64 n), h)
  | .double d, h => .ok (some (jsNewFloat64 d), h)
  | .date ms, h => .ok (some (.object (h.newDate ms).2), (h.newDate ms).1)
  | .array elements, h =>
    match setElements elements 0 h.newArray.2 h.newArray.1 with
    | .error stop => .error stop
    | .ok h' => .ok (some (.object h.newArray.2), h')
  | .dictionary entries, h =>
    match setEntries entries h.newObject.2 h.newObject.1 with
    | .error stop => .error stop
    | .ok h' => .ok (some (.object h.newObject.2), h')
  | .jsFunction value context _, h =>
    .ok (if context = h.context then some (.object value) else none, h)
  | .jsClass value context _, h =>
    .ok (if context = h.context then some (.object value) else none, h)
  | .jsError name message cause stack, h =>
    match [("message", message), ("name", name), ("cause", cause), ("stack", stack)].foldlM
      (setErrorString h.newError.2) h.newError.1 with
    | .error stop => .error stop
    | .ok h' => .ok (some (.object h.newError.2), h')

/-- The loop of `Array.toJSValue` from index `i` on. `UInt32(i)` traps past the
    32 bits. -/
def setElements : List JSConvertible → ℕ → ℕ → Heap → Outcome Heap
  | [], _, _, h => .ok h
  | x :: elements, i, ref, h =>
    match x.toJSValue h with
    | .error stop => .error stop
    | .ok (v, h') =>
      if i < 2 ^ 32 then
        setElements elements (i + 1) ref (h'.setPropertyUint32 ref i (v.getD JSValue.undefined))
      else
        .error .trap

/-- The loop of `Dictionary.toJSValue`. -/
def setEntries : List (String × JSConvertible) → ℕ → Heap → Outcome Heap
  | [], _, h => .ok h
  | (key, x) :: entries, ref, h =>
    match x.toJSValue h with
    | .error stop => .error stop
    | .ok (none, h') => setEntries entries ref h'
    | .ok (some v, h') =>
      match h'.setProperty ref (jsNewAtom key) v with
      | .error stop => .error stop
      | .ok h'' => setEntries entries ref h''

end

/-! ## From JS to Swift -/

/-- What conversions need from outside: the engine's coercions, the text that
    `jsDescription` gives for the field of an error, and the canonical form by
    which Swift compares strings. -/
structure Externals extends Coercions where
  jsDescription : JSConvertible → String
  canonical : String → String

/-- The next conversion is tried when this one returned `nil`. -/
def orNext {α : Type} (x y : Outcome (Option α)) : Outcome (Option α) :=
  match x with
  | .ok none => y
  | r => r

@[simp] theorem orNext_none {α : Type} (y : Outcome (Option α)) : orNext (.ok none) y = y := rfl

@[simp] theorem orNext_some {α : Type} (a : α) (y : Outcome (Option α)) :
    orNext (.ok (some a)) y = .ok (some a) := rfl

@[simp] theorem orNext_error {α : Type} (stop : Stop) (y : Outcome (Option α)) :
    orNext (.error stop) y = .error stop := rfl

theorem orNext_of_ne {α : Type} {x : Outcome (Option α)} (h : x ≠ .ok none)
    (y : Outcome (Option α)) : orNext x y = x := by
  rcases x with stop | _ | a
  · rfl
  · exact absurd rfl h
  · rfl

def nsNullFromJSValue : JSValue → Option JSConvertible
  | .nullTag _ => some .nsNull
  | _ => none

def stringFromJSValue : JSValue → Option String
  | .string s => s.toSwift
  | _ => none

def boolFromJSValue : JSValue → Option JSConvertible
  | .bool word => some (.bool (decide (jsToBoolFree (.bool word) = 1)))
  | _ => none

/-- `Double.fromJSValue`. The variable it starts from is zero, should the
    conversion fail. -/
def doubleFromJSValue (c : Coercions) (v : JSValue) : Option Double :=
  if jsIsNumber v then
    some ((jsToFloat64 c v).getD (Binary.ofInt binary64 0))
  else
    none

/-- `Double.isInteger`: the remainder by one is zero. -/
def Double.isInteger (d : Double) : Bool :=
  Binary.ieeeEq (Binary.fmod d (Binary.ofInt binary64 1)) (Binary.ofInt binary64 0)

/-- `Int(d)`, which traps unless the integer part has 64 bits. -/
def Double.toInt (d : Double) : Outcome Int64 :=
  if Binary.isFinite d = true ∧ -2 ^ 63 ≤ Binary.trunc d ∧ Binary.trunc d < 2 ^ 63 then
    .ok (Int64.ofInt (Binary.trunc d))
  else
    .error .trap

/-- The number case of `toJSConvertible`. -/
def numberFromJSValue (c : Coercions) (v : JSValue) : Outcome (Option JSConvertible) :=
  if jsIsNumber v then
    match doubleFromJSValue c v with
    | none => .ok none
    | some d =>
      if Double.isInteger d then
        match Double.toInt d with
        | .error stop => .error stop
        | .ok n => .ok (some (.int n))
      else
        .ok (some (.double d))
  else
    .ok none

/-- `Date.fromJSValue`: an object has to be an instance of `Date`. -/
def dateFromJSValue (c : Coercions) (h : Heap) (v : JSValue) : Option JSConvertible :=
  match v with
  | .object ref =>
    if h.isInstanceOfDate ref then
      match jsToFloat64 c v with
      | some ms => if Binary.isFinite ms then some (.date ms) else none
      | none => none
    else
      none
  | _ =>
    match jsToFloat64 c v with
    | some ms => if Binary.isFinite ms then some (.date ms) else none
    | none => none

/-- `getFunctionName`. -/
def getFunctionName (h : Heap) (v : JSValue) : Outcome String :=
  match v with
  | .object ref =>
    if h.isFunction v then
      match h.getProperty ref (jsNewAtom "name") with
      | .error stop => .error stop
      | .ok name => .ok ((stringFromJSValue name).getD "unknown")
    else
      .ok "unknown"
  | _ => .ok "unknown"

/-- `getClassName`: the name of the function under `constructor`. -/
def getClassName (h : Heap) (v : JSValue) : Outcome String :=
  match v with
  | .object ref =>
    if h.hasProperty ref (jsNewAtom "constructor") then
      match h.getProperty ref (jsNewAtom "constructor") with
      | .error stop => .error stop
      | .ok constructor => getFunctionName h constructor
    else
      .ok "Object"
  | _ => .ok "Object"

/-- `JSFunction.fromJSValue`. -/
def functionFromJSValue (h : Heap) (v : JSValue) : Outcome (Option JSConvertible) :=
  match v with
  | .object ref =>
    if h.isFunction v then
      match getFunctionName h v with
      | .error stop => .error stop
      | .ok name => .ok (some (.jsFunction ref h.context name))
    else
      .ok none
  | _ => .ok none

/-- `JSClass.fromJSValue`: an object whose class name is not `Object`. -/
def classFromJSValue (h : Heap) (v : JSValue) : Outcome (Option JSConvertible) :=
  match v with
  | .object ref =>
    match getClassName h v with
    | .error stop => .error stop
    | .ok className =>
      if className ≠ "Object" then
        .ok (some (.jsClass ref h.context className))
      else
        .ok none
  | _ => .ok none

/-- One element of the loop of `Array.fromJSValue`. -/
def elementFromJSValue (decode : JSValue → Outcome (Option JSConvertible)) (h : Heap) (ref : ℕ)
    (i : ℕ) : Outcome JSConvertible :=
  -- `UInt32(i)`
  if i < 2 ^ 32 then
    match h.getProperty ref (Atom.ofIndex i) with
    | .error stop => .error stop
    | .ok v =>
      match decode v with
      | .error stop => .error stop
      | .ok value => .ok (value.getD .nsNull)
  else
    .error .trap

/-- `Array.fromJSValue`. The range of the loop traps on a negative length. -/
def arrayFromJSValue (decode : JSValue → Outcome (Option JSConvertible)) (h : Heap)
    (v : JSValue) : Outcome (Option JSConvertible) :=
  match v with
  | .object ref =>
    if h.isArray v then
      match h.getProperty ref Heap.atomLength with
      | .error stop => .error stop
      | .ok sizeV =>
        match decode sizeV with
        | .error stop => .error stop
        | .ok (some (.int size)) =>
          if 0 ≤ size.toInt then
            match (List.range size.toInt.toNat).mapM (elementFromJSValue decode h ref) with
            | .error stop => .error stop
            | .ok elements => .ok (some (.array elements))
          else
            .error .trap
        | .ok _ => .ok none
    else
      .ok none
  | _ => .ok none

/-- A string field of an error. -/
def errorStringFromJSValue (ext : Externals) (decode : JSValue → Outcome (Option JSConvertible))
    (h : Heap) (ref : ℕ) (name : String) : Outcome (Option String) :=
  match h.getProperty ref (jsNewAtom name) with
  | .error stop => .error stop
  | .ok v =>
    match decode v with
    | .error stop => .error stop
    | .ok value => .ok (value.map ext.jsDescription)

/-- `JSError.fromJSValue`. -/
def errorFromJSValue (ext : Externals) (decode : JSValue → Outcome (Option JSConvertible))
    (h : Heap) (v : JSValue) : Outcome (Option JSConvertible) :=
  match v with
  | .object ref =>
    if h.isError v then do
      let name ← errorStringFromJSValue ext decode h ref "name"
      let message ← errorStringFromJSValue ext decode h ref "message"
      let cause ← errorStringFromJSValue ext decode h ref "cause"
      let stack ← errorStringFromJSValue ext decode h ref "stack"
      .ok (some (.jsError name message cause stack))
    else
      .ok none
  | _ => .ok none

/-- `result[key] = value`: `nil` removes the entry. Keys are equal when they are
    canonically equivalent, and an entry that is there keeps its key. -/
def setKey (canonical : String → String) (result : List (String × JSConvertible)) (key : String)
    (value : Option JSConvertible) : List (String × JSConvertible) :=
  match value with
  | none => result.filter fun entry => canonical entry.1 ≠ canonical key
  | some x =>
    if result.any fun entry => canonical entry.1 = canonical key then
      result.map fun entry => if canonical entry.1 = canonical key then (entry.1, x) else entry
    else
      result ++ [(key, x)]

/-- One property of the loop of `Dictionary.fromJSValue`. -/
def entryFromJSValue (ext : Externals) (decode : JSValue → Outcome (Option JSConvertible))
    (h : Heap) (ref : ℕ) (result : List (String × JSConvertible)) (atom : Atom) :
    Outcome (List (String × JSConvertible)) :=
  match atom.toJSString.toSwift with
  | none => .ok result
  | some key =>
    match h.getProperty ref (jsNewAtom key) with
    | .error stop => .error stop
    | .ok v =>
      match decode v with
      | .error stop => .error stop
      | .ok value => .ok (setKey ext.canonical result key value)

/-- `Dictionary.fromJSValue`. -/
def dictionaryFromJSValue (ext : Externals) (decode : JSValue → Outcome (Option JSConvertible))
    (h : Heap) (v : JSValue) : Outcome (Option JSConvertible) :=
  match v with
  | .object ref =>
    match (h.ownPropertyNames ref).foldlM (entryFromJSValue ext decode h ref) [] with
    | .error stop => .error stop
    | .ok result => .ok (some (.dictionary result))
  | _ => .ok none

/-- The attempts of `toJSConvertible` on primitive values. -/
def primitiveFromJSValue (c : Coercions) (v : JSValue) : Outcome (Option JSConvertible) :=
  orNext (.ok (nsNullFromJSValue v)) <|
  orNext (.ok ((stringFromJSValue v).map .string)) <|
  orNext (.ok (boolFromJSValue v)) <|
  numberFromJSValue c v

/-- The attempts of `toJSConvertible` on objects. -/
def objectFromJSValue (ext : Externals) (decode : JSValue → Outcome (Option JSConvertible))
    (h : Heap) (v : JSValue) : Outcome (Option JSConvertible) :=
  orNext (.ok (dateFromJSValue ext.toCoercions h v)) <|
  orNext (arrayFromJSValue decode h v) <|
  orNext (functionFromJSValue h v) <|
  orNext (errorFromJSValue ext decode h v) <|
  orNext (classFromJSValue h v) <|
  dictionaryFromJSValue ext decode h v

/-- `toJSConvertible`, with a bound on how deep it goes. A value with the tag of
    exceptions is what a call returns, and no call is made here. -/
def toJSConvertible (ext : Externals) (h : Heap) : ℕ → JSValue → Outcome (Option JSConvertible)
  | 0, _ => .error .outOfFuel
  | _ + 1, .undefinedTag _ => .ok none
  | _ + 1, .exception => .error .script
  | fuel + 1, v =>
    orNext (primitiveFromJSValue ext.toCoercions v)
      (objectFromJSValue ext (toJSConvertible ext h fuel) h v)

theorem toJSConvertible_zero (ext : Externals) (h : Heap) (v : JSValue) :
    toJSConvertible ext h 0 v = .error .outOfFuel := rfl

/-- What is not `undefined` goes through the attempts. -/
theorem toJSConvertible_succ (ext : Externals) (h : Heap) (fuel : ℕ) {v : JSValue}
    (hundefined : ∀ word, v ≠ .undefinedTag word) (hexception : v ≠ .exception) :
    toJSConvertible ext h (fuel + 1) v =
      orNext (primitiveFromJSValue ext.toCoercions v)
        (objectFromJSValue ext (toJSConvertible ext h fuel) h v) := by
  cases v with
  | undefinedTag word => exact absurd rfl (hundefined word)
  | exception => exact absurd rfl hexception
  | _ => rfl

theorem primitiveFromJSValue_number (c : Coercions) {v : JSValue} (hv : jsIsNumber v = true) :
    primitiveFromJSValue c v = numberFromJSValue c v := by
  cases v with
  | int word => rfl
  | float64 d => rfl
  | _ => exact absurd hv (by simp only [jsIsNumber, Bool.false_eq_true, not_false_eq_true])

/-- An object is none of the primitive values. -/
theorem toJSConvertible_object (ext : Externals) (h : Heap) (fuel ref : ℕ) :
    toJSConvertible ext h (fuel + 1) (.object ref) =
      objectFromJSValue ext (toJSConvertible ext h fuel) h (.object ref) := rfl

/-! ## Handing values over -/

/-- Where Swift hands the engine a value: what an exported function or method
    returns, a getter, a setter, `JSEngine.setValue`, `JSClass.setValue`, and an
    argument of `JSFunction.call`. -/
inductive Route
  | functionResult
  | getterResult
  | setterResult
  | engineSetValue
  | classSetValue
  | callArgument
  deriving DecidableEq

/-- `value?.toJSValue(context:)`. -/
def encodeOptional (value : Option JSConvertible) (h : Heap) : Outcome (Option JSValue × Heap) :=
  match value with
  | none => .ok (none, h)
  | some x => x.toJSValue h

/-- What stands in for a value that has no JS value. -/
def Route.fallback : Route → JSValue
  | .functionResult => JSValue.undefined
  | .getterResult => JSValue.undefined
  | .setterResult => JSValue.undefined
  | .engineSetValue => JSValue.undefined
  | .classSetValue => JSValue.null
  -- `NSNull().toJSValue(context:)`
  | .callArgument => JSValue.null

/-- What the engine is handed. A setter returns no value. -/
def Route.hand (route : Route) (value : Option JSConvertible) (h : Heap) :
    Outcome (JSValue × Heap) :=
  match route with
  | .setterResult => .ok (JSValue.undefined, h)
  | route =>
    match encodeOptional value h with
    | .error stop => .error stop
    | .ok (v, h') => .ok (v.getD route.fallback, h')

end Substrata
