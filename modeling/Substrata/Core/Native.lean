import Substrata.Core.Context

/-!
# Native code and the gate

What native code does to an engine, down to the calls it makes of the C API, and
what `JSContext.performThreadSafe` and `JSContext.shutdown` make of it.

`Native` is a piece of native code: the calls it makes one after another, the
closures it runs, the entries it adds to the export tables. Code that is handed to
`performThreadSafe` stands inside it, and what comes after depends on what it
answered, if it ran at all. A closure that a script calls back is part of the code
that evaluates the script, and may do whatever native code does, shut the engine
down included. So a program is a tree, and one run of it is a path.

The public operations are such pieces of code, with their own calls in the order
of the source. What a script does, and what decoding and encoding values does, is
different for every script and value: it is a parameter, any code.

A session is an engine as far as shutting it down goes: the flag, what `Builtins`
holds, the export tables, and the calls that were made. A run that the host stops
(`fatalError` in `JSClass.init`) is the beginning of one that it does not.

## Main definitions

* `JSCall`: The functions of the C API that native code calls.
* `Entry`: An entry of one of the five export tables.
* `Native`: Native code.
* `Session`: An engine with a record of the calls.
* `Session.shutdown`: `JSContext.shutdown`.
* `Native.exec`: Running native code on one thread.
* `JSEngine.evaluate` and the others: The public operations.
* `PublicOperation`: Code that is one of them.
* `JSEngine.lifetime`: From `JSEngine.init` to `JSEngine.deinit`.
-/

namespace Substrata

/-- A function of the C API, where native code uses the context. The calls that
    make the context and release it are events of their own. -/
inductive JSCall
  | eval
  | call
  | newAtom
  | freeAtom
  | hasProperty
  | getPropertyStr
  | setPropertyStr
  | definePropertyValueStr
  | defineProperty
  | newClassID
  | newClass
  | newObject
  | newCFunctionMagic
  | setConstructor
  | setClassProto
  | isFunction
  | dupValue
  | freeValue
  | setMaxStackSize
  | setMemoryLimit
  -- the others, in encoding and decoding
  | other
  deriving DecidableEq

/-- What an operation returns. -/
inductive Answer
  | void
  | nil
  | value
  | bool (b : Bool)
  deriving DecidableEq

/-- An operation that has done nothing returns `nil` or `false`. -/
def Answer.isDefault : Answer → Bool
  | .void => true
  | .nil => true
  | .value => false
  | .bool b => !b

/-- What happens on an engine, in order. The public operations begin with `called`
    and end with `answered`, which tells whether the export tables are empty. -/
inductive Event
  | newRuntime
  | newContext
  | getGlobalObject
  | setContextOpaque
  | js (name : JSCall)
  | closure
  | addExport
  | called
  | answered (answer : Answer) (empty : Bool)
  -- what shutting down does
  | freeBuiltIn (name : String)
  | clearContextOpaque
  | freeGlobalRef
  | freeContext
  | shutDown
  | freeRuntime
  deriving DecidableEq

/-- A call of the C API that is made on the context. -/
def Event.onContext : Event → Bool
  | .js _ => true
  | .setContextOpaque => true
  | .freeBuiltIn _ => true
  | .clearContextOpaque => true
  | .freeGlobalRef => true
  | .freeContext => true
  | _ => false

/-- An entry of an export table with its ID. -/
inductive Entry (Fn Get Set : Type)
  | function (functionID : Int32) (value : Fn)
  | getter (propertyID : Int32) (value : Get)
  | setter (propertyID : Int32) (value : Set)
  | constructor (classID : Int32) (value : JSClassInfo)
  | method (methodID : Int32) (name : CName)

namespace JSContext

variable {Fn Get Set : Type}

/-- The five `addExport`s. -/
def addExport (c : JSContext Fn Get Set) : Entry Fn Get Set → JSContext Fn Get Set
  | .function functionID value => c.addExportFunction value functionID
  | .getter propertyID value => c.addExportGetter value propertyID
  | .setter propertyID value => c.addExportSetter value propertyID
  | .constructor classID value => c.addExportClass value classID
  | .method methodID name => c.addExportMethod name methodID

/-- `removeAll()` on the five tables. -/
def removeAll (c : JSContext Fn Get Set) : JSContext Fn Get Set :=
  { c with classes := ∅, functions := ∅, propertyGetters := ∅, propertySetters := ∅, methodIDs := ∅ }

/-- The five tables are empty. -/
def isEmpty (c : JSContext Fn Get Set) : Bool :=
  c.classes.keys = ∅ ∧ c.functions.keys = ∅ ∧ c.propertyGetters.keys = ∅ ∧
    c.propertySetters.keys = ∅ ∧ c.methodIDs.keys = ∅

end JSContext

/-- Native code, from a point in it to its end. -/
inductive Native (Fn Get Set : Type)
  | ret (answer : Answer)
  | js (name : JSCall) (next : Native Fn Get Set)
  /-- A closure that was exported, or given to `perform`, begins. -/
  | closure (next : Native Fn Get Set)
  | addExport (entry : Entry Fn Get Set) (next : Native Fn Get Set)
  | performThreadSafe (body : Native Fn Get Set) (next : Option Answer → Native Fn Get Set)
  /-- A public operation is called. -/
  | operation (code : Native Fn Get Set) (next : Answer → Native Fn Get Set)
  | shutdown (next : Native Fn Get Set)

/-- An engine that is set up, or an engine later on: `builtIns` are the functions
    that `Builtins` holds. -/
structure Session (Fn Get Set : Type) where
  shuttingDown : Bool := false
  builtIns : List String := []
  context : JSContext Fn Get Set := {}
  trace : List Event := []

namespace Session

variable {Fn Get Set : Type}

def emit (event : Event) (s : Session Fn Get Set) : Session Fn Get Set :=
  { s with trace := s.trace ++ [event] }

def addExport (entry : Entry Fn Get Set) (s : Session Fn Get Set) : Session Fn Get Set :=
  { s with context := s.context.addExport entry, trace := s.trace ++ [.addExport] }

/-- `JSValue.free`, which goes through the gate: the call is made unless the engine
    is shutting down. -/
def free (event : Event) (s : Session Fn Get Set) : Session Fn Get Set :=
  if s.shuttingDown then s else s.emit event

/-- The steps that `JSContext.shutdown` takes while it holds the execution lock. -/
inductive ShutdownStep
  | freeBuiltIns
  | clearOpaqueContext
  | freeGlobalRef
  | freeContext
  | removeAll
  deriving DecidableEq

def ShutdownStep.apply : ShutdownStep → Session Fn Get Set → Session Fn Get Set
  -- the functions go with the dictionary, and each frees its value in `deinit`
  | .freeBuiltIns, s =>
    { s.builtIns.foldl (fun s name => s.free (.freeBuiltIn name)) s with builtIns := [] }
  | .clearOpaqueContext, s => s.emit .clearContextOpaque
  | .freeGlobalRef, s => s.free .freeGlobalRef
  | .freeContext, s => s.emit .freeContext
  | .removeAll, s => { s with context := s.context.removeAll }

def shutdownSteps : List ShutdownStep :=
  [.freeBuiltIns, .clearOpaqueContext, .freeGlobalRef, .freeContext, .removeAll]

def beginShutdown (s : Session Fn Get Set) : Session Fn Get Set := { s with shuttingDown := true }

/-- `JSContext.shutdown`. -/
def shutdown (s : Session Fn Get Set) : Session Fn Get Set :=
  (shutdownSteps.foldl (fun s step => step.apply s) s.beginShutdown).emit .shutDown

end Session

namespace Native

variable {Fn Get Set : Type}

/-- Code that goes on with the answer of other code. -/
def bind : Native Fn Get Set → (Answer → Native Fn Get Set) → Native Fn Get Set
  | .ret answer, k => k answer
  | .js name next, k => .js name (next.bind k)
  | .closure next, k => .closure (next.bind k)
  | .addExport entry next, k => .addExport entry (next.bind k)
  | .performThreadSafe body next, k => .performThreadSafe body fun answer => (next answer).bind k
  | .operation code next, k => .operation code fun answer => (next answer).bind k
  | .shutdown next, k => .shutdown (next.bind k)

/-- Native code runs on one thread. `performThreadSafe` looks at the flag, and runs
    its closure if it is not set. -/
def exec : Native Fn Get Set → Session Fn Get Set → Session Fn Get Set × Answer
  | .ret answer, s => (s, answer)
  | .js name next, s => next.exec (s.emit (.js name))
  | .closure next, s => next.exec (s.emit .closure)
  | .addExport entry next, s => next.exec (s.addExport entry)
  | .performThreadSafe body next, s =>
    if s.shuttingDown then
      (next none).exec s
    else
      let (s, answer) := body.exec s
      (next (some answer)).exec s
  | .operation code next, s =>
    let (s, answer) := code.exec (s.emit .called)
    (next answer).exec (s.emit (.answered answer s.context.isEmpty))
  | .shutdown next, s => next.exec s.shutdown

/-- `JSValue.free`. -/
def free (next : Native Fn Get Set) : Native Fn Get Set :=
  .performThreadSafe (.js .freeValue (.ret .void)) fun _ => next

/-- `JSValue.free` on several values. -/
def freeAll : ℕ → Native Fn Get Set → Native Fn Get Set
  | 0, next => next
  | n + 1, next => free (freeAll n next)

end Native

open Native

/-! ## `JSEngine` -/

namespace JSEngine

variable {Fn Get Set : Type}

def setLimits : Native Fn Get Set :=
  .performThreadSafe (.js .setMaxStackSize <| .js .setMemoryLimit <| .ret .void) fun _ => .ret .void

/-- `evaluate(script:evaluator:)`, with what the script does and what decoding its
    result does. -/
def evaluate (script decode : Native Fn Get Set) : Native Fn Get Set :=
  .performThreadSafe
    (.js .eval <| script.bind fun _ => decode.bind fun outerResult => free <| .ret outerResult)
    fun outerResult => .ret (outerResult.getD .nil)

/-- `value(for:)`. -/
def value (keyPathEmpty : Bool) (script decode : Native Fn Get Set) : Native Fn Get Set :=
  if keyPathEmpty then .ret .nil else evaluate script decode

/-- `setValue(_:for:)`. There is a path before the last component, with what its
    script does and what handling its exception does, or the global object is
    written. `result` is whether the engine wrote. -/
def setValue (keyPathEmpty : Bool) (encode : Native Fn Get Set)
    (path : Option (Native Fn Get Set × Native Fn Get Set)) (result : Bool) : Native Fn Get Set :=
  if keyPathEmpty then .ret (.bool false)
  else
    .performThreadSafe
      (encode.bind fun _ =>
        match path with
        | none => .js .setPropertyStr <| .ret (.bool result)
        | some (script, handler) =>
          .js .eval <| script.bind fun _ => handler.bind fun _ =>
            .js .setPropertyStr <| free <| .ret (.bool result))
      fun result => .ret (result.getD (.bool false))

/-- The setter of the subscript. -/
def setSubscript (keyPathEmpty : Bool) (encode : Native Fn Get Set)
    (path : Option (Native Fn Get Set × Native Fn Get Set)) (result : Bool) : Native Fn Get Set :=
  (setValue keyPathEmpty encode path result).bind fun _ => .ret .void

/-- `isExported(name:)`; `found` is what the engine says. -/
def isExported (found : Bool) (next : Bool → Native Fn Get Set) : Native Fn Get Set :=
  .performThreadSafe
    (.js .newAtom <| .js .hasProperty <| .js .freeAtom <| .ret (.bool found))
    fun result => next (decide (result = some (.bool true)))

/-- `JSFunction.init(value:context:)` on a function. -/
def initFunction (getFunctionName next : Native Fn Get Set) : Native Fn Get Set :=
  .js .isFunction <| .js .dupValue <| getFunctionName.bind fun _ => next

/-- `JSClass.init(value:context:)` on an object. -/
def initClass (getClassName next : Native Fn Get Set) : Native Fn Get Set :=
  .js .dupValue <| getClassName.bind fun _ => next

/-- `export(name:function:)`. -/
def exportFunction (found : Bool) (functionID : Int32) (function : Fn)
    (getFunctionName : Native Fn Get Set) : Native Fn Get Set :=
  isExported found fun isExported =>
    if isExported then .ret .nil
    else
      .performThreadSafe
        (.js .newCFunctionMagic <| .js .setPropertyStr <| initFunction getFunctionName <| free <|
          .addExport (.function functionID function) <| .ret .value)
        fun result => .ret (result.getD .nil)

/-- The loop over the method names of the dummy instance. -/
def exportMethods (next : Native Fn Get Set) : List (Int32 × CName) → Native Fn Get Set
  | [] => next
  | (methodID, name) :: rest =>
    .js .newCFunctionMagic <| .js .setPropertyStr <| .addExport (.method methodID name) <|
      exportMethods next rest

/-- The loop over the static methods. -/
def exportStaticMethods (next : Native Fn Get Set) : List (Int32 × Fn) → Native Fn Get Set
  | [] => next
  | (functionID, value) :: rest =>
    .js .newCFunctionMagic <| .addExport (.function functionID value) <| .js .setPropertyStr <|
      exportStaticMethods next rest

/-- The loop over the static properties. -/
def exportStaticProperties (next : Native Fn Get Set) :
    List ((Int32 × Get) × Option (Int32 × Set)) → Native Fn Get Set
  | [] => next
  | ((getterID, getter), setter) :: rest =>
    let define : Native Fn Get Set :=
      .js .newAtom <| .js .defineProperty <| .js .freeAtom <| freeAll 2 <|
        exportStaticProperties next rest
    .js .newCFunctionMagic <| .addExport (.getter getterID getter) <|
      match setter with
      | none => define
      | some (setterID, setter) =>
        .js .newCFunctionMagic <| .addExport (.setter setterID setter) define

/-- `export(type:className:)`, with what making the dummy instance and
    `staticInit` do. -/
def exportType (found : Bool) (classID : Int32) (info : JSClassInfo)
    (initDummy staticInit : Native Fn Get Set) (methods : List (Int32 × CName))
    (staticMethods : List (Int32 × Fn))
    (staticProperties : List ((Int32 × Get) × Option (Int32 × Set))) : Native Fn Get Set :=
  isExported found fun isExported =>
    if isExported then .ret .void
    else
      .performThreadSafe
        (.js .newClassID <| .js .newClass <| .addExport (.constructor classID info) <|
          .js .newObject <| .js .newCFunctionMagic <| .js .definePropertyValueStr <|
          .js .setConstructor <| initDummy.bind fun _ =>
          exportMethods
            (.js .setClassProto <| staticInit.bind fun _ =>
              exportStaticMethods (exportStaticProperties (.ret .void) staticProperties)
                staticMethods)
            methods)
        fun _ => .ret .void

/-- `export(instance:className:as:)`. `export(type:)` comes first unless the name
    is found; `script` is missing where no class of the type is. -/
def exportInstance (found : Bool) (exportType : Native Fn Get Set)
    (script : Option (Native Fn Get Set)) (handler getClassName : Native Fn Get Set)
    (result : Answer) : Native Fn Get Set :=
  isExported found fun isExported =>
    (if isExported then .ret .void else exportType).bind fun _ =>
      .performThreadSafe
        (match script with
          | none => .ret .nil
          | some script =>
            .js .eval <| script.bind fun _ => handler.bind fun _ =>
              initClass getClassName <| free <| .ret result)
        fun result => .ret (result.getD .nil)

/-- `perform(closure:)`. -/
def perform (body : Native Fn Get Set) : Native Fn Get Set :=
  .performThreadSafe (.closure <| body.bind fun _ => .ret .void) fun _ => .ret .void

end JSEngine

/-! ## `JSDataBridge`, `JSClass` and `JSFunction` -/

variable {Fn Get Set : Type}

/-- `guard let engine`, and `guard let context` in a wrapper: nothing without. -/
def guardAlive (alive : Bool) (otherwise : Answer) (code : Native Fn Get Set) :
    Native Fn Get Set :=
  if alive then code else .ret otherwise

namespace JSDataBridge

/-- `JSDataBridge.value(for:)`, whose key path is never empty. -/
def value (engine : Bool) (script decode : Native Fn Get Set) : Native Fn Get Set :=
  guardAlive engine .nil <| JSEngine.value false script decode

/-- `JSDataBridge.setValue(_:for:)`. -/
def setValue (engine : Bool) (encode script handler : Native Fn Get Set) (result : Bool) :
    Native Fn Get Set :=
  guardAlive engine (.bool false) <| JSEngine.setValue false encode (some (script, handler)) result

/-- The setter of the subscript. -/
def setSubscript (engine : Bool) (encode script handler : Native Fn Get Set) (result : Bool) :
    Native Fn Get Set :=
  (setValue engine encode script handler result).bind fun _ => .ret .void

end JSDataBridge

namespace JSFunction

/-- `JSFunction.call(this:args:)`. The arguments are missing, or cannot be
    encoded, or there are some. -/
def call (context : Bool) (args : Option (Option (ℕ × Native Fn Get Set)))
    (script decode : Native Fn Get Set) : Native Fn Get Set :=
  guardAlive context .nil <|
    .performThreadSafe
      (match args with
        | none =>
          .js .call <| script.bind fun _ => decode.bind fun result => free <| .ret result
        | some none => .ret .nil
        | some (some (count, encode)) =>
          encode.bind fun _ => .js .call <| script.bind fun _ => decode.bind fun result =>
            freeAll count <| free <| .ret result)
      fun result => .ret (result.getD .nil)

/-- `deinit`. -/
def deinit (context : Bool) : Native Fn Get Set :=
  guardAlive context .void <| free <| .ret .void

end JSFunction

namespace JSClass

/-- `JSClass.value(for:)`. -/
def value (context : Bool) (decode : Native Fn Get Set) : Native Fn Get Set :=
  guardAlive context .nil <|
    .performThreadSafe (.js .getPropertyStr decode) fun result => .ret (result.getD .nil)

/-- `JSClass.setValue(_:for:)`. -/
def setValue (context : Bool) (encode : Native Fn Get Set) : Native Fn Get Set :=
  guardAlive context .void <|
    .performThreadSafe (encode.bind fun _ => .js .setPropertyStr <| .ret .void) fun _ => .ret .void

/-- `JSClass.call(method:args:)`. `methods` tells of a cached table whether it has
    the method. Without one it is asked for first, and `populate` answers whether
    the method is in it. -/
def call (context : Bool) (methods : Option Bool) (populate function : Native Fn Get Set) :
    Native Fn Get Set :=
  match methods with
  | some found => if found then function else .ret .nil
  | none =>
    guardAlive context .nil <|
      .performThreadSafe populate fun found =>
        if found = some (.bool true) then function else .ret .nil

/-- `deinit`, with the functions in the method table. -/
def deinit (context : Bool) (methods : ℕ) : Native Fn Get Set :=
  guardAlive context .void <| freeAll (methods + 1) <| .ret .void

end JSClass

/-- The public operations other than shutting down, and the release of
    wrappers. -/
inductive PublicOperation : Native Fn Get Set → Prop
  | setLimits : PublicOperation JSEngine.setLimits
  | evaluate (script decode) : PublicOperation (JSEngine.evaluate script decode)
  | value (keyPathEmpty script decode) :
      PublicOperation (JSEngine.value keyPathEmpty script decode)
  | setValue (keyPathEmpty encode path result) :
      PublicOperation (JSEngine.setValue keyPathEmpty encode path result)
  | setSubscript (keyPathEmpty encode path result) :
      PublicOperation (JSEngine.setSubscript keyPathEmpty encode path result)
  | exportFunction (found functionID function getFunctionName) :
      PublicOperation (JSEngine.exportFunction found functionID function getFunctionName)
  | exportType (found classID info initDummy staticInit methods staticMethods staticProperties) :
      PublicOperation (JSEngine.exportType found classID info initDummy staticInit methods
        staticMethods staticProperties)
  | exportInstance (found typeFound classID info initDummy staticInit methods staticMethods
      staticProperties script handler getClassName result) :
      PublicOperation (JSEngine.exportInstance found
        (JSEngine.exportType typeFound classID info initDummy staticInit methods staticMethods
          staticProperties) script handler getClassName result)
  | perform (body) : PublicOperation (JSEngine.perform body)
  | bridgeValue (engine script decode) : PublicOperation (JSDataBridge.value engine script decode)
  | bridgeSetValue (engine encode script handler result) :
      PublicOperation (JSDataBridge.setValue engine encode script handler result)
  | bridgeSetSubscript (engine encode script handler result) :
      PublicOperation (JSDataBridge.setSubscript engine encode script handler result)
  | classValue (context decode) : PublicOperation (JSClass.value context decode)
  | classSetValue (context encode) : PublicOperation (JSClass.setValue context encode)
  | classCall (context methods populate functionContext args script decode) :
      PublicOperation (JSClass.call context methods populate
        (JSFunction.call functionContext args script decode))
  | classDeinit (context methods) : PublicOperation (JSClass.deinit context methods)
  | functionCall (context args script decode) :
      PublicOperation (JSFunction.call context args script decode)
  | functionDeinit (context) : PublicOperation (JSFunction.deinit context)

/-- Native code that uses an engine: it calls the public operations. -/
def Native.Uses : Native Fn Get Set → Prop
  | .ret _ => True
  | .js _ next => next.Uses
  | .closure next => next.Uses
  | .addExport _ next => next.Uses
  | .performThreadSafe body next => body.Uses ∧ ∀ answer, (next answer).Uses
  | .operation code next => PublicOperation code ∧ code.Uses ∧ ∀ answer, (next answer).Uses
  | .shutdown next => next.Uses

/-! ## The life of an engine -/

namespace JSEngine

/-- `JSContext.init`, after `JS_NewRuntime`. -/
def newSession : Session Fn Get Set :=
  { trace := [.newRuntime, .newContext, .getGlobalObject, .setContextOpaque] }

/-- `JSEngine.init`: with limits set, `setup` makes the default objects, and
    `Builtins` holds the functions it found. -/
def init (setup : Native Fn Get Set) (builtIns : List String) : Session Fn Get Set :=
  { (setup.exec ((newSession.emit (.js .setMaxStackSize)).emit (.js .setMemoryLimit))).1 with
    builtIns := builtIns }

/-- `JSEngine.deinit`. -/
def deinit (s : Session Fn Get Set) : Session Fn Get Set := s.shutdown.emit .freeRuntime

/-- What happens on an engine from its initialization to its end, with what native
    code does on it in between. -/
def lifetime (setup : Native Fn Get Set) (builtIns : List String) (program : Native Fn Get Set) :
    List Event :=
  (deinit (program.exec (init setup builtIns)).1).trace

end JSEngine

end Substrata
