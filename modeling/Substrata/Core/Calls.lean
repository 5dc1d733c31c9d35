import Substrata.Basis.Interaction
import Substrata.Core.Convert

/-!
# Native code that calls the engine

`Conversion.swift`, `Extensions.swift`, `Callbacks.swift` and the operations of `JSEngine`,
`JSFunction` and `JSClass`, down to the functions of the engine that they call, with what
each of these hands over: references, and exceptions.

What the engine answers is left open. A property may read as anything, each time, a script
may return anything or throw, and any function that can throw may. So what is shown for
every run holds for every heap and every script. While the engine runs a script, or a
closure or the exception handler runs, operations begin and end; how deep they are nested
is a number.

An engine function that throws returns a value with the tag of exceptions, or a result that
means failure, and the exception is pending. The calls of which the code looks at the value
go through `toJSConvertible` or `handlePossibleException`. Each place where an exception may
come up, and each place where a reference may, is a `Site`.

Swift releases a value when it is dropped, and `deinit` of the wrappers in it frees their
references. The code says so where it drops a value.

## Main definitions

* `Handle`: A value of the engine in the hands of native code.
* `Site`: A place in the code where the engine returns something.
* `Request`: The functions of the engine.
* `toJSConvertible`, `toJSValue`: Conversion, call by call.
* `Operation`: Public operations and callbacks.
* `Event`: What happens to references and exceptions.
* `World`: The pending exception.
* `Activity`: What happens while the engine runs code.
-/

namespace Substrata

namespace Calls

open Interaction (Code Run)

/-! ## Values and requests -/

/-- What has a reference count: an object, or a string, a symbol or a big integer. -/
inductive Cell
  | object (ref : ℕ)
  | leaf (n : ℕ)
  deriving DecidableEq

/-- A value of the engine. `cell` tells strings, symbols and big integers apart, and is the
    number of an exception. -/
structure Handle where
  value : JSValue
  cell : ℕ := 0

namespace Handle

def object (ref : ℕ) : Handle := { value := .object ref }

def null : Handle := { value := JSValue.null }

def undefined : Handle := { value := JSValue.undefined }

/-- `JS_IsObject`. -/
def isObject (v : Handle) : Bool :=
  match v.value with
  | .object _ => true
  | _ => false

/-- What the value refers to. -/
def owned (v : Handle) : Option Cell :=
  match v.value with
  | .object ref => some (.object ref)
  | .string _ => some (.leaf v.cell)
  | .symbol _ => some (.leaf v.cell)
  | .bigInt _ => some (.leaf v.cell)
  | _ => none

/-- The exception that the value stands for. -/
def exception? (v : Handle) : Option ℕ :=
  match v.value with
  | .exception => some v.cell
  | _ => none

end Handle

/-- Where the engine returns something. -/
inductive Site
  -- the value is converted, or looked at by `handlePossibleException`
  | evaluate
  | path
  | letNew
  | call
  | instanceMethodNames
  | classValue
  | length
  | element
  | entry
  | errorField
  -- it is not
  | constructor
  | name
  | dateConstructor
  | instanceAtom
  | create
  | isInstanceOf
  | isArray
  | hasProperty
  | ownPropertyNames
  | toFloat64
  | toInt32
  | setProperty
  | defineProperty
  deriving DecidableEq

/-- Whether an exception is looked for. -/
def Site.isChecked : Site → Bool
  | .evaluate => true
  | .path => true
  | .letNew => true
  | .call => true
  | .instanceMethodNames => true
  | .classValue => true
  | .length => true
  | .element => true
  | .entry => true
  | .errorField => true
  | _ => false

/-- Whether the code gives up on the reference that it is returned. A length is freed after
    the loop over the elements, where it was a number. -/
def Site.leaks : Site → Bool
  | .classValue => true
  | .length => true
  | .instanceAtom => true
  | _ => false

/-- The functions of the engine, the exception handler, and native closures. -/
inductive Request
  | eval (site : Site) (script : String)
  | call (site : Site) (func thisObj : Handle) (argv : List Handle)
  | getProperty (site : Site) (thisObj : Handle) (prop : String)
  | getPropertyUint32 (site : Site) (thisObj : Handle) (idx : ℕ)
  | createFromCtor (ctor : Handle)
  | getGlobalObject
  | newString (s : String)
  | newObject
  | dupValue (v : Handle)
  | freeValue (v : Handle)
  | setProperty (thisObj : Handle) (prop : String) (val : Handle)
  | setPropertyUint32 (thisObj : Handle) (idx : ℕ) (val : Handle)
  | definePropertyValueStr (thisObj : Handle) (prop : String) (val : Handle)
  | defineProperty (thisObj : Handle) (prop : String)
  | setClassProto (obj : Handle)
  | hasProperty (thisObj : Handle) (prop : String)
  | isInstanceOf (val obj : Handle)
  | isArray (v : Handle)
  | isFunction (v : Handle)
  | isError (v : Handle)
  | toFloat64 (v : Handle)
  | toInt32 (v : Handle)
  | getOwnPropertyNames (obj : Handle)
  | getException
  | throw (obj : Handle)
  | exceptionHandler (n : ℕ) (e : JSConvertible)
  -- a closure with arguments, and other code of a native type
  | closure (args : List JSConvertible)
  | native

/-- What is answered. A missing answer is a failure. -/
abbrev Request.Answer : Request → Type
  | .eval .. => Handle
  | .call .. => Handle
  | .getProperty .. => Handle
  | .getPropertyUint32 .. => Handle
  | .createFromCtor _ => Handle
  | .getGlobalObject => ℕ
  | .newString _ => ℕ
  | .newObject => ℕ
  | .dupValue _ => Unit
  | .freeValue _ => Unit
  | .setProperty .. => Option Bool
  | .setPropertyUint32 .. => Option Bool
  | .definePropertyValueStr .. => Option Bool
  | .defineProperty .. => Option Bool
  | .setClassProto _ => Unit
  | .hasProperty .. => Option Bool
  | .isInstanceOf .. => Option Bool
  | .isArray _ => Option Bool
  | .isFunction _ => Bool
  | .isError _ => Bool
  | .toFloat64 _ => Option Double
  | .toInt32 _ => Option Int32
  -- a name without a Swift string is skipped
  | .getOwnPropertyNames _ => Option (List (Option String))
  -- the value that was thrown
  | .getException => Handle × ℕ
  | .throw _ => Handle
  | .exceptionHandler .. => Unit
  -- an error by its `localizedDescription`
  | .closure _ => Except String (Option JSConvertible)
  | .native => Unit

abbrev NativeCode := Code Request Request.Answer

def request (r : Request) : NativeCode r.Answer := Code.request r

def jsEval (site : Site) (script : String) : NativeCode Handle := request (.eval site script)

def jsCall (site : Site) (func thisObj : Handle) (argv : List Handle) : NativeCode Handle :=
  request (.call site func thisObj argv)

/-- `JS_GetPropertyStr`, `JS_GetProperty`. -/
def jsGetPropertyStr (site : Site) (thisObj : Handle) (prop : String) : NativeCode Handle :=
  request (.getProperty site thisObj prop)

def jsGetPropertyUint32 (site : Site) (thisObj : Handle) (idx : ℕ) : NativeCode Handle :=
  request (.getPropertyUint32 site thisObj idx)

def jsCreateFromCtor (ctor : Handle) : NativeCode Handle := request (.createFromCtor ctor)

def jsGetGlobalObject : NativeCode Handle := do
  let ref ← request .getGlobalObject
  pure (Handle.object ref)

def jsNewString (s : String) : NativeCode Handle := do
  let n ← request (.newString s)
  pure { value := .string (JSString.ofSwift s), cell := n }

/-- `JS_NewObject`, `JS_NewArray`, `JS_NewDate`, `JS_NewError`, `JS_NewCFunctionMagic`. -/
def jsNewObject : NativeCode Handle := do
  let ref ← request .newObject
  pure (Handle.object ref)

def jsDupValue (v : Handle) : NativeCode Unit := request (.dupValue v)

def jsFreeValue (v : Handle) : NativeCode Unit := request (.freeValue v)

/-- `JS_SetPropertyStr`, `JS_SetProperty`. -/
def jsSetPropertyStr (thisObj : Handle) (prop : String) (val : Handle) :
    NativeCode (Option Bool) :=
  request (.setProperty thisObj prop val)

def jsSetPropertyUint32 (thisObj : Handle) (idx : ℕ) (val : Handle) : NativeCode (Option Bool) :=
  request (.setPropertyUint32 thisObj idx val)

def jsHasProperty (thisObj : Handle) (prop : String) : NativeCode (Option Bool) :=
  request (.hasProperty thisObj prop)

def jsIsFunction (v : Handle) : NativeCode Bool := request (.isFunction v)

/-! ## From JS to Swift -/

mutual

/-- The objects that the wrappers in a value refer to. -/
def wrappers : JSConvertible → List ℕ
  | .array elements => wrappersOfElements elements
  | .dictionary entries => wrappersOfEntries entries
  | .jsFunction value _ _ => [value]
  | .jsClass value _ _ => [value]
  | _ => []

def wrappersOfElements : List JSConvertible → List ℕ
  | [] => []
  | x :: elements => wrappers x ++ wrappersOfElements elements

def wrappersOfEntries : List (String × JSConvertible) → List ℕ
  | [] => []
  | (_, x) :: entries => wrappers x ++ wrappersOfEntries entries

end

/-- Wrappers are released, and free their values. -/
def release (refs : List ℕ) : NativeCode Unit :=
  Code.each (fun ref => jsFreeValue (Handle.object ref)) refs

/-- A value is dropped. -/
def drop (x : Option JSConvertible) : NativeCode Unit := release (x.elim [] wrappers)

section Decode

variable (ext : Externals) (context : ℕ) (decode : Handle → NativeCode (Option JSConvertible))

/-- The next conversion is tried when this one returned `nil`. -/
def orElse (x y : NativeCode (Option JSConvertible)) : NativeCode (Option JSConvertible) := do
  match ← x with
  | some a => pure (some a)
  | none => y

/-- `JSError.value(for:object:context:)`. -/
def errorStringFromJSValue (object : Handle) (name : String) : NativeCode (Option String) := do
  let v ← jsGetPropertyStr .errorField object name
  let value ← decode v
  jsFreeValue v
  drop value
  pure (value.map ext.jsDescription)

/-- `JSError.init(value:context:)`. -/
def errorInit (value : Handle) : NativeCode JSConvertible := do
  let name ← errorStringFromJSValue ext decode value "name"
  let message ← errorStringFromJSValue ext decode value "message"
  let cause ← errorStringFromJSValue ext decode value "cause"
  let stack ← errorStringFromJSValue ext decode value "stack"
  pure (.jsError name message cause stack)

/-- `handlePossibleException`. -/
def handlePossibleException (v : Handle) : NativeCode (Option JSConvertible) :=
  match v.exception? with
  | none => pure none
  | some _ => do
    let exception ← request .getException
    let e ← errorInit ext decode exception.1
    request (.exceptionHandler exception.2 e)
    jsFreeValue exception.1
    pure (some e)

/-- `getFunctionName`. -/
def getFunctionName (v : Handle) : NativeCode String := do
  if ← jsIsFunction v then
    let str ← jsGetPropertyStr .name v "name"
    jsFreeValue str
    pure ((stringFromJSValue str.value).getD "unknown")
  else
    pure "unknown"

/-- `JSFunction.init(value:context:)`. -/
def functionInit (v : Handle) : NativeCode (Option JSConvertible) := do
  if ← jsIsFunction v then
    match v.value with
    | .object ref => do
      jsDupValue v
      let name ← getFunctionName v
      pure (some (.jsFunction ref context name))
    | _ => pure none
  else
    pure none

/-- `JSFunction.fromJSValue`. -/
def functionFromJSValue (v : Handle) : NativeCode (Option JSConvertible) := do
  if ← jsIsFunction v then
    functionInit context v
  else
    pure none

/-- `getClassName`. -/
def getClassName (v : Handle) : NativeCode String := do
  if v.isObject then
    let found ← jsHasProperty v "constructor"
    if found = some true then
      let const ← jsGetPropertyStr .constructor v "constructor"
      let name ← getFunctionName const
      jsFreeValue const
      pure name
    else
      pure "Object"
  else
    pure "Object"

/-- `JSClass.init(value:context:)`, and `JSClass.fromJSValue`. -/
def classInit (v : Handle) : NativeCode (Option JSConvertible) :=
  match v.value with
  | .object ref => do
    jsDupValue v
    let className ← getClassName v
    if className ≠ "Object" then
      pure (some (.jsClass ref context className))
    else
      jsFreeValue v
      pure none
  | _ => pure none

/-- `JS_ToFloat64` in `Date.fromJSValue`. -/
def dateFromNumber (v : Handle) : NativeCode (Option JSConvertible) := do
  match ← request (.toFloat64 v) with
  | some ms => pure (if Binary.isFinite ms then some (.date ms) else none)
  | none => pure none

/-- `Date.fromJSValue`. -/
def dateFromJSValue (v : Handle) : NativeCode (Option JSConvertible) := do
  if v.isObject then
    let globalObj ← jsGetGlobalObject
    let dateCtor ← jsGetPropertyStr .dateConstructor globalObj "Date"
    let isDate ← request (.isInstanceOf v dateCtor)
    jsFreeValue dateCtor
    jsFreeValue globalObj
    if isDate = some true then
      dateFromNumber v
    else
      pure none
  else
    dateFromNumber v

/-- One element of the loop of `Array.fromJSValue`. -/
def elementFromJSValue (value : Handle) (i : ℕ) : NativeCode JSConvertible :=
  -- `UInt32(i)`
  if i < 2 ^ 32 then do
    let v ← jsGetPropertyUint32 .element value i
    let x ← decode v
    jsFreeValue v
    pure (x.getD .nsNull)
  else
    .stop

/-- `Array.fromJSValue`. A length that is not an `Int` is not freed. -/
def arrayFromJSValue (v : Handle) : NativeCode (Option JSConvertible) := do
  let isArray ← request (.isArray v)
  if isArray = some true then
    let sizeV ← jsGetPropertyStr .length v "length"
    match ← decode sizeV with
    | some (.int size) =>
      if 0 ≤ size.toInt then do
        let result ← Code.collect (elementFromJSValue decode v) (List.range size.toInt.toNat)
        jsFreeValue sizeV
        pure (some (.array result))
      else
        .stop
    | other => do
      drop other
      pure none
  else
    pure none

/-- `JSError.fromJSValue`. -/
def errorFromJSValue (v : Handle) : NativeCode (Option JSConvertible) := do
  if ← request (.isError v) then
    let e ← errorInit ext decode v
    pure (some e)
  else
    pure none

/-- One property of the loop of `Dictionary.fromJSValue`. The value that the key had is
    dropped. -/
def entryFromJSValue (value : Handle) (result : List (String × JSConvertible)) :
    Option String → NativeCode (List (String × JSConvertible))
  | none => pure result
  | some key => do
    let v ← jsGetPropertyStr .entry value key
    let x ← decode v
    jsFreeValue v
    release (wrappersOfEntries
      (result.filter fun entry => ext.canonical entry.1 = ext.canonical key))
    pure (setKey ext.canonical result key x)

/-- `Dictionary.fromJSValue`. -/
def dictionaryFromJSValue (v : Handle) : NativeCode (Option JSConvertible) := do
  if v.isObject then
    match ← request (.getOwnPropertyNames v) with
    | none => pure none
    | some names => do
      let result ← Code.fold (entryFromJSValue ext decode v) [] names
      pure (some (.dictionary result))
  else
    pure none

/-- The attempts of `toJSConvertible` after the primitive ones. -/
def objectFromJSValue (v : Handle) : NativeCode (Option JSConvertible) :=
  orElse (dateFromJSValue v) <|
  orElse (arrayFromJSValue decode v) <|
  orElse (functionFromJSValue context v) <|
  orElse (errorFromJSValue ext decode v) <|
  orElse (classInit context v) <|
  dictionaryFromJSValue ext decode v

/-- The attempts of `toJSConvertible`. A number that traps ends everything. -/
def attemptsFromJSValue (v : Handle) : NativeCode (Option JSConvertible) :=
  match primitiveFromJSValue ext.toCoercions v.value with
  | .error _ => .stop
  | .ok (some x) => pure (some x)
  | .ok none => objectFromJSValue ext context decode v

end Decode

/-- `toJSConvertible`, with a bound on how deep it goes. -/
def toJSConvertible (ext : Externals) (context : ℕ) :
    ℕ → Handle → NativeCode (Option JSConvertible)
  | 0, _ => .stop
  | fuel + 1, v =>
    match v.value with
    | .undefinedTag _ => pure none
    | _ =>
      orElse (handlePossibleException ext (toJSConvertible ext context fuel) v) <|
        attemptsFromJSValue ext context (toJSConvertible ext context fuel) v

/-! ## From Swift to JS -/

section Encode

variable (context : ℕ)

/-- One of the properties that `JSError.toJSValue` sets. -/
def setErrorString (errorValue : Handle) (field : String × Option String) : NativeCode Unit :=
  match field.2 with
  | none => pure ()
  | some s => do
    let v ← jsNewString s
    let _ ← jsSetPropertyStr errorValue field.1 v
    pure ()

mutual

/-- `toJSValue(context:)`. -/
def toJSValue : JSConvertible → NativeCode (Option Handle)
  | .string s => do
    let v ← jsNewString s
    pure (some v)
  | .bool b => pure (some { value := jsNewBool b })
  | .nsNull => pure (some Handle.null)
  | .int n => pure (some { value := jsNewInt64 n })
  | .double d => pure (some { value := jsNewFloat64 d })
  | .date _ => do
    let v ← jsNewObject
    pure (some v)
  | .array elements => do
    let array ← jsNewObject
    setElements elements 0 array
    pure (some array)
  | .dictionary entries => do
    let obj ← jsNewObject
    setEntries entries obj
    pure (some obj)
  | .jsFunction value owner _ =>
    if owner = context then do
      jsDupValue (Handle.object value)
      pure (some (Handle.object value))
    else
      pure none
  | .jsClass value owner _ =>
    if owner = context then do
      jsDupValue (Handle.object value)
      pure (some (Handle.object value))
    else
      pure none
  | .jsError name message cause stack => do
    let errorValue ← jsNewObject
    Code.each (setErrorString errorValue)
      [("message", message), ("name", name), ("cause", cause), ("stack", stack)]
    pure (some errorValue)

/-- The loop of `Array.toJSValue`. -/
def setElements : List JSConvertible → ℕ → Handle → NativeCode Unit
  | [], _, _ => pure ()
  | x :: elements, i, array => do
    let v ← toJSValue x
    -- `UInt32(i)`
    if i < 2 ^ 32 then do
      let _ ← jsSetPropertyUint32 array i (v.getD Handle.undefined)
      setElements elements (i + 1) array
    else
      .stop

/-- The loop of `Dictionary.toJSValue`. -/
def setEntries : List (String × JSConvertible) → Handle → NativeCode Unit
  | [], _ => pure ()
  | (key, x) :: entries, obj => do
    match ← toJSValue x with
    | none => setEntries entries obj
    | some v => do
      let _ ← jsSetPropertyStr obj key v
      setEntries entries obj

end

/-- `value?.toJSValue(context:)`, and what stands in for `nil`. -/
def encode (fallback : Handle) : Option JSConvertible → NativeCode Handle
  | none => pure fallback
  | some x => do
    let v ← toJSValue context x
    pure (v.getD fallback)

end Encode

/-! ## Operations -/

/-- What an operation returns. -/
inductive Returned
  | void
  | bool (b : Bool)
  | value (x : Option JSConvertible)
  -- with the cached methods of a `JSClass`
  | called (x : Option JSConvertible) (methods : Option (List (String × JSConvertible)))
  -- handed to the engine
  | handle (v : Handle)

section Operations

variable (ext : Externals) (context : ℕ) (fuel : ℕ)

/-- `JSEngine.evaluate(script:evaluator:)`. -/
def evaluate (script : String) : NativeCode (Option JSConvertible) := do
  let result ← jsEval .evaluate script
  let outerResult ← toJSConvertible ext context fuel result
  jsFreeValue result
  pure outerResult

/-- `JSEngine.value(for:)`. -/
def value (keyPath : String) : NativeCode (Option JSConvertible) :=
  if keyPath.isEmpty then pure none else evaluate ext context fuel keyPath

/-- The components of a key path before the last, joined again, and the last. -/
def splitKeyPath (keyPath : String) : String × String :=
  let components := keyPath.splitOn "."
  (".".intercalate components.dropLast, components.getLastD "")

/-- `JSEngine.setValue(_:for:)`. -/
def setValue (globalRef : Handle) (value : Option JSConvertible) (keyPath : String) :
    NativeCode Bool :=
  if keyPath.isEmpty then
    pure false
  else do
    let value ← encode context Handle.undefined value
    if (splitKeyPath keyPath).1.isEmpty then
      let result ← jsSetPropertyStr globalRef (splitKeyPath keyPath).2 value
      pure (decide (result = some true))
    else
      let pathValue ← jsEval .path (splitKeyPath keyPath).1
      let _ ← handlePossibleException ext (toJSConvertible ext context fuel) pathValue
      let result ← jsSetPropertyStr pathValue (splitKeyPath keyPath).2 value
      jsFreeValue pathValue
      pure (decide (result = some true))

/-- `JSEngine.isExported(name:)`. -/
def isExported (globalRef : Handle) (name : String) : NativeCode Bool := do
  let result ← jsHasProperty globalRef name
  pure (decide (result = some true))

/-- One round of the loops over methods in `export(type:className:)`. -/
def exportMethod (owner : Handle) (key : String) : NativeCode Unit := do
  let method ← jsNewObject
  let _ ← jsSetPropertyStr owner key method
  pure ()

/-- The setter of a property that has one. -/
def newSetter (settable : Bool) : NativeCode Handle :=
  if settable then jsNewObject else pure Handle.undefined

/-- One round of the loops over properties. -/
def exportProperty (owner : Handle) (property : String × Bool) : NativeCode Unit := do
  let getter ← jsNewObject
  let setter ← newSetter property.2
  let _ ← request (.defineProperty owner property.1)
  jsFreeValue getter
  jsFreeValue setter

/-- What a type exports: methods, and properties that may have a setter. -/
structure TypeNames where
  exportedMethods : List String
  staticMethods : List String
  staticProperties : List (String × Bool)

/-- `export(type:className:)`. -/
def exportType (globalRef : Handle) (names : TypeNames) (className : String) :
    NativeCode Unit := do
  let exported ← isExported globalRef className
  if exported then
    pure ()
  else
    let instanceProto ← jsNewObject
    let constructor ← jsNewObject
    let _ ← request (.definePropertyValueStr globalRef className constructor)
    -- `JS_SetConstructor`
    let _ ← request (.defineProperty constructor "prototype")
    let _ ← request (.defineProperty instanceProto "constructor")
    -- `type.init()` and `exportedMethods`
    request .native
    Code.each (exportMethod instanceProto) names.exportedMethods
    request (.setClassProto instanceProto)
    -- `staticInit()` and the static tables
    request .native
    Code.each (exportMethod constructor) names.staticMethods
    Code.each (exportProperty constructor) names.staticProperties

/-- `export(name:function:)`. -/
def exportFunction (globalRef : Handle) (name : String) :
    NativeCode (Option JSConvertible) := do
  let exported ← isExported globalRef name
  if exported then
    pure none
  else
    let newFunction ← jsNewObject
    let _ ← jsSetPropertyStr globalRef name newFunction
    let result ← functionInit context newFunction
    jsFreeValue newFunction
    pure result

/-- The first part of `export(instance:className:as:)`. -/
def ensureExported (globalRef : Handle) (names : TypeNames) (className : String) :
    NativeCode Unit := do
  let exported ← isExported globalRef className
  if exported then pure () else exportType globalRef names className

/-- `export(instance:className:as:)`; `found` tells whether the type has a class. -/
def exportInstance (globalRef : Handle) (names : TypeNames) (className variableName : String)
    (found : Bool) : NativeCode (Option JSConvertible) := do
  ensureExported globalRef names className
  if found then
    let r ← jsEval .letNew s!"let {variableName} = new {className}(); {variableName};"
    let _ ← handlePossibleException ext (toJSConvertible ext context fuel) r
    let result ← classInit context r
    jsFreeValue r
    pure result
  else
    pure none

/-- `JSFunction.call(this:args:)`. -/
def functionCall (func thisObj : Handle) (args : Option (List JSConvertible)) :
    NativeCode (Option JSConvertible) :=
  match args with
  | none => do
    let r ← jsCall .call func thisObj []
    let result ← toJSConvertible ext context fuel r
    jsFreeValue r
    pure result
  | some args => do
    let valuesArray ← Code.collect (fun x => encode context Handle.null (some x)) args
    let jsResult ← jsCall .call func thisObj valuesArray
    let result ← toJSConvertible ext context fuel jsResult
    Code.each jsFreeValue valuesArray
    jsFreeValue jsResult
    pure result

/-- `JSClass.value(for:)`. What is read is not freed. -/
def classValue (object : Handle) (key : String) : NativeCode (Option JSConvertible) := do
  let r ← jsGetPropertyStr .classValue object key
  toJSConvertible ext context fuel r

/-- `JSClass.setValue(_:for:)`. -/
def classSetValue (object : Handle) (value : Option JSConvertible) (key : String) :
    NativeCode Unit := do
  let jsv ← encode context Handle.null value
  let _ ← jsSetPropertyStr object key jsv
  pure ()

/-- `as? [String: JSFunction]`. -/
def asMethods : Option JSConvertible → Option (List (String × JSConvertible))
  | some (.dictionary entries) =>
    if entries.all fun entry => match entry.2 with
      | .jsFunction _ _ _ => true
      | _ => false
    then some entries else none
  | _ => none

/-- `populateMethodsIfNecessary`; the built-in function is missing once the engine is
    shut down. -/
def populateMethods (builtIn : Option Handle) (globalRef object : Handle)
    (methods : Option (List (String × JSConvertible))) :
    NativeCode (Option (List (String × JSConvertible))) :=
  match methods with
  | some methods => pure (some methods)
  | none =>
    match builtIn with
    | none => pure none
    | some function => do
      let r ← jsCall .instanceMethodNames function globalRef [object]
      let x ← toJSConvertible ext context fuel r
      jsFreeValue r
      match asMethods x with
      | some methods => pure (some methods)
      | none => do
        drop x
        pure none

/-- `JSClass.call(method:args:)`. -/
def classCall (builtIn : Option Handle) (globalRef object : Handle)
    (methods : Option (List (String × JSConvertible))) (method : String)
    (args : Option (List JSConvertible)) :
    NativeCode (Option JSConvertible × Option (List (String × JSConvertible))) := do
  let methods ← populateMethods ext context fuel builtIn globalRef object methods
  match methods.bind fun entries => entries.lookup method with
  | some (.jsFunction function _ _) => do
    let result ← functionCall ext context fuel (Handle.object function) object args
    pure (result, methods)
  | _ => pure (none, methods)

/-- `jsArgsToTypes`. -/
def jsArgsToTypes (argv : List Handle) : NativeCode (List JSConvertible) :=
  Code.collect
    (fun v => do
      let x ← toJSConvertible ext context fuel v
      pure (x.getD .nsNull))
    argv

/-- `JSContext.throwError`. -/
def throwJSError (localizedDescription : String) : NativeCode Handle := do
  let errorValue ← toJSValue context
    (.jsError (some "Native Code Exception") (some localizedDescription) none none)
  request (.throw (errorValue.getD Handle.undefined))

/-- `returnJSValueRef`. -/
def returnJSValueRef (args : List JSConvertible) : NativeCode Handle := do
  match ← request (.closure args) with
  | .ok v => encode context Handle.undefined v
  | .error localizedDescription => throwJSError context localizedDescription

/-- `returnJSValueRef` for a setter, which returns nothing. -/
def returnSetterRef (arg : Option JSConvertible) : NativeCode Handle := do
  match ← request (.closure arg.toList) with
  | .ok _ => pure Handle.undefined
  | .error localizedDescription => throwJSError context localizedDescription

/-- `guard let`: without it the callback returns `undefined`. -/
def guardFound (found : Bool) (code : NativeCode Handle) : NativeCode Handle :=
  if found then code else pure Handle.undefined

/-- `typedCall`; `found` tells whether the closure is. -/
def typedCall (found : Bool) (argv : List Handle) : NativeCode Handle := do
  let args ← jsArgsToTypes ext context fuel argv
  let result ← guardFound found (returnJSValueRef context args)
  release (wrappersOfElements args)
  pure result

/-- `typedGetter`. -/
def typedGetter (found : Bool) : NativeCode Handle :=
  guardFound found (returnJSValueRef context [])

/-- `typedSetter`. -/
def typedSetter (found : Bool) (arg : Handle) : NativeCode Handle := do
  let x ← toJSConvertible ext context fuel arg
  let result ← guardFound found (returnSetterRef context x)
  drop x
  pure result

/-- `construct(args:)`, unless the class waits to attach an instance. -/
def construct (waiting : Bool) (args : List JSConvertible) :
    NativeCode (Except String (Option JSConvertible)) :=
  if waiting then pure (.ok none) else request (.closure args)

/-- What `typedConstruct` makes of a class that it found. -/
def constructInstance (waiting : Bool) (exportedProperties : List (String × Bool))
    (thisObj : Handle) (args : List JSConvertible) : NativeCode Handle := do
  let result ← jsCreateFromCtor thisObj
  -- `type.init()`
  request .native
  let _ ← jsSetPropertyStr result "__instanceAtom" { value := .int 0 }
  match ← construct waiting args with
  | .error localizedDescription => do
    jsFreeValue result
    throwJSError context localizedDescription
  | .ok _ => do
    Code.each (exportProperty result) exportedProperties
    pure result

/-- `typedConstruct`. -/
def typedConstruct (found waiting : Bool) (exportedProperties : List (String × Bool))
    (thisObj : Handle) (argv : List Handle) : NativeCode Handle := do
  let args ← jsArgsToTypes ext context fuel argv
  let result ← guardFound found (constructInstance context waiting exportedProperties thisObj args)
  release (wrappersOfElements args)
  pure result

/-- `typedInstanceMethod`; `found` tells whether the instance has the method. What
    `__instanceAtom` reads as is not freed. -/
def typedInstanceMethod (named found : Bool) (thisObj : Handle) (argv : List Handle) :
    NativeCode Handle :=
  guardFound named do
    let classIDValue ← jsGetPropertyStr .instanceAtom thisObj "__instanceAtom"
    let _ ← request (.toInt32 classIDValue)
    guardFound found do
      let args ← jsArgsToTypes ext context fuel argv
      let result ← returnJSValueRef context args
      release (wrappersOfElements args)
      pure result

end Operations

/-- What the engine passes to a callback is no exception. -/
abbrev Argument := { v : Handle // v.exception? = none }

/-- The public operations, and the callbacks. -/
inductive Operation
  | evaluate (script : String)
  | value (keyPath : String)
  | setValue (value : Option JSConvertible) (keyPath : String)
  | exportInstance (names : TypeNames) (className variableName : String) (found : Bool)
  | functionCall (func thisObj : Handle) (args : Option (List JSConvertible))
  | classValue (object : Handle) (key : String)
  | classSetValue (object : Handle) (value : Option JSConvertible) (key : String)
  | classCall (builtIn : Option Handle) (object : Handle)
      (methods : Option (List (String × JSConvertible))) (method : String)
      (args : Option (List JSConvertible))
  | exportFunction (name : String)
  | exportType (names : TypeNames) (className : String)
  -- callbacks
  | typedCall (found : Bool) (argv : List Argument)
  | typedGetter (found : Bool)
  | typedSetter (found : Bool) (arg : Argument)
  | typedConstruct (found waiting : Bool) (exportedProperties : List (String × Bool))
      (thisObj : Handle) (argv : List Argument)
  | typedInstanceMethod (named found : Bool) (thisObj : Handle) (argv : List Argument)

/-- The methods that a `JSClass` has cached before. -/
def Operation.cache : Operation → Option (List (String × JSConvertible))
  | .classCall _ _ methods _ _ => methods
  | _ => none

/-- What the operations of an engine have at hand. -/
structure Setting where
  ext : Externals
  context : ℕ
  globalRef : Handle
  -- how deep values are nested
  fuel : ℕ

/-- The code of an operation. -/
def Operation.code (e : Setting) : Operation → NativeCode Returned
  | .evaluate script => do
    let x ← Calls.evaluate e.ext e.context e.fuel script
    pure (.value x)
  | .value keyPath => do
    let x ← Calls.value e.ext e.context e.fuel keyPath
    pure (.value x)
  | .setValue x keyPath => do
    let b ← Calls.setValue e.ext e.context e.fuel e.globalRef x keyPath
    pure (.bool b)
  | .exportInstance names className variableName found => do
    let x ← Calls.exportInstance e.ext e.context e.fuel e.globalRef names className variableName
      found
    pure (.value x)
  | .functionCall func thisObj args => do
    let x ← Calls.functionCall e.ext e.context e.fuel func thisObj args
    pure (.value x)
  | .classValue object key => do
    let x ← Calls.classValue e.ext e.context e.fuel object key
    pure (.value x)
  | .classSetValue object x key => do
    Calls.classSetValue e.context object x key
    pure .void
  | .classCall builtIn object methods method args => do
    let x ← Calls.classCall e.ext e.context e.fuel builtIn e.globalRef object methods method args
    pure (.called x.1 x.2)
  | .exportFunction name => do
    let x ← Calls.exportFunction e.context e.globalRef name
    pure (.value x)
  | .exportType names className => do
    Calls.exportType e.globalRef names className
    pure .void
  | .typedCall found argv => do
    let v ← Calls.typedCall e.ext e.context e.fuel found (argv.map Subtype.val)
    pure (.handle v)
  | .typedGetter found => do
    let v ← Calls.typedGetter e.context found
    pure (.handle v)
  | .typedSetter found arg => do
    let v ← Calls.typedSetter e.ext e.context e.fuel found arg.1
    pure (.handle v)
  | .typedConstruct found waiting exportedProperties thisObj argv => do
    let v ← Calls.typedConstruct e.ext e.context e.fuel found waiting exportedProperties thisObj
      (argv.map Subtype.val)
    pure (.handle v)
  | .typedInstanceMethod named found thisObj argv => do
    let v ← Calls.typedInstanceMethod e.ext e.context e.fuel named found thisObj
      (argv.map Subtype.val)
    pure (.handle v)

/-! ## The engine -/

/-- What happens to references and exceptions. -/
inductive Event
  -- a reference is returned where a value may come up
  | got (site : Site) (c : Cell)
  | took (c : Cell)
  -- freed, or handed over
  | gave (c : Cell)
  | raised (site : Site) (n : ℕ)
  | handled (n : ℕ)
  deriving DecidableEq

/-- The pending exception, the number of the next, and whether no exception came up where
    none is looked for. -/
structure World where
  pending : Option ℕ := none
  next : ℕ := 0
  clean : Bool := true

namespace World

/-- A new exception is pending. -/
def raise (site : Site) (s : World) : World where
  pending := some s.next
  next := s.next + 1
  clean := s.clean && site.isChecked

/-- A value is returned, which may stand for an exception. -/
def Returns (site : Site) (s : World) (es : List Event) (v : Handle) (t : World) : Prop :=
  match v.exception? with
  | some n => n = s.next ∧ es = [.raised site s.next] ∧ t = s.raise site
  | none => es = v.owned.toList.map (Event.got site) ∧ t = s

/-- A function succeeds or fails. -/
def Answers {α : Type} (site : Site) (s : World) (es : List Event) (a : Option α) (t : World) :
    Prop :=
  match a with
  | some _ => es = [] ∧ t = s
  | none => es = [.raised site s.next] ∧ t = s.raise site

/-- A function consumes a value, and succeeds or fails. -/
def Consumes {α : Type} (site : Site) (val : Handle) (s : World) (es : List Event)
    (a : Option α) (t : World) : Prop :=
  ∃ fs, es = val.owned.toList.map Event.gave ++ fs ∧ s.Answers site fs a t

end World

/-- What the engine may answer. -/
def Replies (s : World) : (r : Request) → List Event → r.Answer → World → Prop
  | .eval site _, es, v, t => s.Returns site es v t
  | .call site _ _ _, es, v, t => s.Returns site es v t
  | .getProperty site _ _, es, v, t => s.Returns site es v t
  | .getPropertyUint32 site _ _, es, v, t => s.Returns site es v t
  | .createFromCtor _, es, v, t => s.Returns .create es v t
  | .getGlobalObject, es, ref, t => es = [.took (.object ref)] ∧ t = s
  | .newString _, es, n, t => es = [.took (.leaf n)] ∧ t = s
  | .newObject, es, ref, t => es = [.took (.object ref)] ∧ t = s
  | .dupValue v, es, _, t => es = v.owned.toList.map Event.took ∧ t = s
  | .freeValue v, es, _, t => es = v.owned.toList.map Event.gave ∧ t = s
  | .setProperty _ _ val, es, a, t => s.Consumes .setProperty val es a t
  | .setPropertyUint32 _ _ val, es, a, t => s.Consumes .setProperty val es a t
  | .definePropertyValueStr _ _ val, es, a, t => s.Consumes .defineProperty val es a t
  | .defineProperty _ _, es, a, t => s.Answers .defineProperty es a t
  | .setClassProto obj, es, _, t => es = obj.owned.toList.map Event.gave ∧ t = s
  | .hasProperty _ _, es, a, t => s.Answers .hasProperty es a t
  | .isInstanceOf _ _, es, a, t => s.Answers .isInstanceOf es a t
  | .isArray _, es, a, t => s.Answers .isArray es a t
  | .isFunction _, es, _, t => es = [] ∧ t = s
  | .isError _, es, _, t => es = [] ∧ t = s
  | .toFloat64 _, es, a, t => s.Answers .toFloat64 es a t
  | .toInt32 _, es, a, t => s.Answers .toInt32 es a t
  | .getOwnPropertyNames _, es, a, t => s.Answers .ownPropertyNames es a t
  -- an exception is pending, and it is taken
  | .getException, es, a, t =>
    s.pending = some a.2 ∧ a.1.exception? = none ∧ es = a.1.owned.toList.map Event.took ∧
      t = { s with pending := none }
  -- the value is handed over, and the exception is one that native code threw
  | .throw obj, es, v, t =>
    v.exception? = some s.next ∧ es = obj.owned.toList.map Event.gave ∧
      t = { s with pending := some s.next, next := s.next + 1 }
  | .exceptionHandler n _, es, _, t => es = [.handled n] ∧ t = s
  | .closure _, es, _, t => es = [] ∧ t = s
  | .native, es, _, t => es = [] ∧ t = s

/-- Whether scripts, closures or the exception handler may run. -/
def Request.runsCode : Request → Bool
  | .eval .. => true
  | .call .. => true
  | .getProperty .. => true
  | .getPropertyUint32 .. => true
  | .createFromCtor _ => true
  | .setProperty .. => true
  | .setPropertyUint32 .. => true
  | .definePropertyValueStr .. => true
  | .defineProperty .. => true
  | .hasProperty .. => true
  | .isInstanceOf .. => true
  | .toFloat64 _ => true
  | .toInt32 _ => true
  | .getOwnPropertyNames _ => true
  | .exceptionHandler .. => true
  | .closure _ => true
  | .native => true
  | _ => false

/-- What happens while the engine runs code. -/
abbrev Meanwhile := World → List Event → World → Prop

/-- The engine, with what may happen meanwhile: that comes first, and the answer after. -/
def engine (meanwhile : Meanwhile) : Interaction.Environment Request Request.Answer World Event :=
  fun s r es a t => ∃ fs u gs,
    (if r.runsCode then meanwhile s fs u else fs = [] ∧ u = s) ∧ Replies u r gs a t ∧
      es = fs ++ gs

/-- An exception that a callback leaves is caught by the script, or thrown on. -/
def World.caught (r : Returned) (s : World) : World :=
  match r with
  | .handle v => if v.exception?.isSome then { s with pending := none } else s
  | _ => s

/-- Operations one after another. -/
inductive Activity (e : Setting) (meanwhile : Meanwhile) : World → List Event → World → Prop
  | nil (s : World) : Activity e meanwhile s [] s
  | cons {op : Operation} {s t u : World} {es fs : List Event} {r : Returned} :
      Run (engine meanwhile) (op.code e) s es r t → Activity e meanwhile (t.caught r) fs u →
      Activity e meanwhile s (es ++ fs) u

/-- What happens meanwhile, when operations are nested to a depth. -/
def nested (e : Setting) : ℕ → Meanwhile
  | 0 => fun s es t => es = [] ∧ t = s
  | depth + 1 => Activity e (nested e depth)

end Calls

end Substrata
