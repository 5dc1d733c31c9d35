import Substrata.Core.Convert

/-!
# Conversion from values that scripts stand behind

`toJSConvertible` where reading a value may run a script: the getters of a class,
and the handlers of a proxy.

`Convert` reads a heap, and stops at the first script. Here the engine is what it
is to Swift: it replies, and every reply may come with a new state. What the
replies are is a parameter, `Replies`, because scripts decide it: the handler of
a proxy can answer with any length for an array, and with other elements each
time. The conversions are those of `Convert` in the same order, and what they
make of the replies is not a parameter.

`JS_IsArray` is one of the questions. It is true of a proxy of an array.

## Main definitions

* `Conversion`: A computation that asks the engine.
* `Replies`: The replies of the engine.
* `Replies.arrayFromJSValue`: `Array.fromJSValue`.
* `Replies.toJSConvertible`: From JS to Swift.
* `Heap.replies`: The replies of a heap, up to the first script.
-/

namespace Substrata

/-- A computation that asks the engine, whose state scripts may change. -/
abbrev Conversion (σ : Type) := StateT σ Outcome

/-- The replies of the engine. A question without a reply stops the computation. -/
structure Replies (σ : Type) where
  jsIsArray : ℕ → σ → Bool
  jsIsFunction : ℕ → σ → Bool
  jsIsError : ℕ → σ → Bool
  -- `JS_IsInstanceOf` with the global `Date`
  isInstanceOfDate : ℕ → Conversion σ Bool
  -- `JS_ToFloat64` of an object, `none` for an exception
  jsToFloat64 : ℕ → Conversion σ (Option Double)
  jsHasProperty : ℕ → Atom → Conversion σ Bool
  jsGetProperty : JSValue → Atom → Conversion σ JSValue
  -- `JS_GetOwnPropertyNames`, `none` where the names stay `nil`
  jsGetOwnPropertyNames : ℕ → Conversion σ (Option (List Atom))
  jsGetException : Conversion σ JSValue
  exceptionHandler : JSConvertible → Conversion σ Unit

namespace Replies

variable {σ : Type}

/-- The next conversion is tried when this one returned `nil`. -/
def orNext {α : Type} (x y : Conversion σ (Option α)) : Conversion σ (Option α) := do
  match ← x with
  | some a => return some a
  | none => y

variable (replies : Replies σ) (ext : Externals)
  (decode : JSValue → Conversion σ (Option JSConvertible))

/-- `Date.fromJSValue`. -/
def dateFromJSValue (v : JSValue) : Conversion σ (Option JSConvertible) :=
  match v with
  | .object ref => do
    if ← replies.isInstanceOfDate ref then
      match ← replies.jsToFloat64 ref with
      | some ms => return if Binary.isFinite ms then some (.date ms) else none
      | none => return none
    else
      return none
  | v =>
    match Substrata.jsToFloat64 ext.toCoercions v with
    | some ms => return if Binary.isFinite ms then some (.date ms) else none
    | none => return none

/-- `getFunctionName`. -/
def getFunctionName (v : JSValue) : Conversion σ String :=
  match v with
  | .object ref => do
    if replies.jsIsFunction ref (← get) then
      return (stringFromJSValue (← replies.jsGetProperty v (jsNewAtom "name"))).getD "unknown"
    else
      return "unknown"
  | _ => return "unknown"

/-- `getClassName`. -/
def getClassName (ref : ℕ) : Conversion σ String := do
  if ← replies.jsHasProperty ref (jsNewAtom "constructor") then
    replies.getFunctionName (← replies.jsGetProperty (.object ref) (jsNewAtom "constructor"))
  else
    return "Object"

/-- `JSFunction.fromJSValue`. -/
def functionFromJSValue (context : ℕ) (ref : ℕ) : Conversion σ (Option JSConvertible) := do
  if replies.jsIsFunction ref (← get) then
    return some (.jsFunction ref context (← replies.getFunctionName (.object ref)))
  else
    return none

/-- `JSClass.fromJSValue`. -/
def classFromJSValue (context : ℕ) (ref : ℕ) : Conversion σ (Option JSConvertible) := do
  let className ← replies.getClassName ref
  return if className ≠ "Object" then some (.jsClass ref context className) else none

/-- The length that `Array.fromJSValue` reads. -/
def readLength (ref : ℕ) : Conversion σ (Option JSConvertible) := do
  decode (← replies.jsGetProperty (.object ref) Heap.atomLength)

/-- An element that `Array.fromJSValue` reads. -/
def readElement (ref i : ℕ) : Conversion σ (Option JSConvertible) := do
  decode (← replies.jsGetProperty (.object ref) (Atom.ofIndex i))

/-- One element of the loop of `Array.fromJSValue`. -/
def elementFromJSValue (ref i : ℕ) : Conversion σ JSConvertible := do
  -- `UInt32(i)`
  if i < 2 ^ 32 then
    return (← replies.readElement decode ref i).getD .nsNull
  else
    throw .trap

/-- `Array.fromJSValue`. The range of the loop traps on a negative length. -/
def arrayFromJSValue (ref : ℕ) : Conversion σ (Option JSConvertible) := do
  if replies.jsIsArray ref (← get) then
    match ← replies.readLength decode ref with
    | some (.int size) =>
      if 0 ≤ size.toInt then
        let elements ← (List.range size.toInt.toNat).mapM
          (replies.elementFromJSValue decode ref)
        return some (.array elements)
      else
        throw .trap
    | _ => return none
  else
    return none

/-- A string field of an error. -/
def errorStringFromJSValue (v : JSValue) (name : String) : Conversion σ (Option String) := do
  return (← decode (← replies.jsGetProperty v (jsNewAtom name))).map ext.jsDescription

/-- `JSError(value:context:)`. -/
def jsErrorInit (v : JSValue) : Conversion σ JSConvertible := do
  let name ← replies.errorStringFromJSValue ext decode v "name"
  let message ← replies.errorStringFromJSValue ext decode v "message"
  let cause ← replies.errorStringFromJSValue ext decode v "cause"
  let stack ← replies.errorStringFromJSValue ext decode v "stack"
  return .jsError name message cause stack

/-- `JSError.fromJSValue`. -/
def errorFromJSValue (ref : ℕ) : Conversion σ (Option JSConvertible) := do
  if replies.jsIsError ref (← get) then
    return some (← replies.jsErrorInit ext decode (.object ref))
  else
    return none

/-- One property of the loop of `Dictionary.fromJSValue`. -/
def entryFromJSValue (ref : ℕ) (result : List (String × JSConvertible)) (atom : Atom) :
    Conversion σ (List (String × JSConvertible)) :=
  match atom.toJSString.toSwift with
  | none => return result
  | some key => do
    return setKey ext.canonical result key
      (← decode (← replies.jsGetProperty (.object ref) (jsNewAtom key)))

/-- `Dictionary.fromJSValue`. -/
def dictionaryFromJSValue (ref : ℕ) : Conversion σ (Option JSConvertible) := do
  match ← replies.jsGetOwnPropertyNames ref with
  | none => return none
  | some names => return some (.dictionary (← names.foldlM (replies.entryFromJSValue ext decode ref) []))

/-- `handlePossibleException` on an exception. -/
def handleException : Conversion σ JSConvertible := do
  let error ← replies.jsErrorInit ext decode (← replies.jsGetException)
  replies.exceptionHandler error
  return error

/-- The attempts of `toJSConvertible` on what is no primitive value. -/
def objectFromJSValue (context : ℕ) (v : JSValue) : Conversion σ (Option JSConvertible) :=
  match v with
  | .object ref =>
    orNext (replies.dateFromJSValue ext (.object ref)) <|
    orNext (replies.arrayFromJSValue decode ref) <|
    orNext (replies.functionFromJSValue context ref) <|
    orNext (replies.errorFromJSValue ext decode ref) <|
    orNext (replies.classFromJSValue context ref) <|
    replies.dictionaryFromJSValue ext decode ref
  | v => replies.dateFromJSValue ext v

/-- `toJSConvertible`, with a bound on how deep it goes. -/
def toJSConvertible (context : ℕ) : ℕ → JSValue → Conversion σ (Option JSConvertible)
  | 0, _ => throw .outOfFuel
  | _ + 1, .undefinedTag _ => return none
  | fuel + 1, .exception => return some (← replies.handleException ext (toJSConvertible context fuel))
  | fuel + 1, v =>
    orNext (fun s => (primitiveFromJSValue ext.toCoercions v).map (·, s))
      (replies.objectFromJSValue ext (toJSConvertible context fuel) context v)

end Replies

/-- The replies of a heap, up to the first script. -/
def Heap.replies (h : Heap) (c : Coercions) : Replies Unit where
  jsIsArray ref _ := h.isArray (.object ref)
  jsIsFunction ref _ := h.isFunction (.object ref)
  jsIsError ref _ := h.isError (.object ref)
  isInstanceOfDate ref := return h.isInstanceOfDate ref
  jsToFloat64 ref := return Substrata.jsToFloat64 c (.object ref)
  jsHasProperty ref atom := return h.hasProperty ref atom
  jsGetProperty v atom := fun s =>
    match v with
    | .object ref => (h.getProperty ref atom).map (·, s)
    | _ => .error .script
  jsGetOwnPropertyNames ref := return some (h.ownPropertyNames ref)
  jsGetException := throw .script
  exceptionHandler _ := return ()

end Substrata
