import Substrata.Core.Process

/-!
# What runs inside an operation

`Process.Step` takes an operation in one step. Native code and scripts run inside
it, though: an initializer, `construct(args:)`, the exception handler, an accessor.
All of them may use the engine, and what they call is then inside the operation that
called them.

An activity is an engine with the operations that are under way, the innermost
first. Each is a `CallFrame`, which says how far it has got. A frame is open where other
code is running, and then that code may begin an operation or make the environment
another one. `typedConstruct` and `export(instance:className:as:)` are taken apart
here at every point where they are open.

Evaluating `let v = new C(); v;` may run code other than the constructor: the names
need not read as identifiers, there may be an accessor behind a name or on a
prototype, `C` may be the constructor of another class. A request is `direct` if none
of the code in the middle uses the engine. Its frames are closed.

Code that throws ends with the exception it throws, which `new` passes on to the
script. Operations that stop the process have no step.

## Main definitions

* `Engine.declareType`, `Engine.exportMethods`, `Engine.exportStatics`: The three
  parts of `export(type:className:)`.
* `Engine.callee`: What the text evaluated for an instance calls.
* `Request`: A call of `export(instance:className:as:)`.
* `CallFrame`: An operation under way.
* `Evaluation`: A `new` on the constructor of an exported class, once it is over.
* `Activity`: An engine, what is under way, and what has happened.
* `Act`: What may happen next.
* `Activity.construct`, `Activity.evaluate`: How a constructor and the script of an
  exported instance begin.
* `Activity.Step`: What an act does.
-/

namespace Substrata

variable {Fn Get Set : Type}

namespace Engine

/-! ### Exporting a type, in parts -/

/-- The class is registered, and its constructor is a global. -/
def declareType (type : MetaType) (className : CName) (e : Engine Fn Get Set) :
    Option (Int32 × Engine Fn Get Set) := do
  let (contextClassID, e') ←
    exportConstructor { name := className, type := type, classID := e.jsClassIDAlloc }
      { e with jsClassIDAlloc := e.jsClassIDAlloc + 1 }
  some (contextClassID,
    (e'.defineGlobal className (.function e.built.length)).nameClass e.built.length className)

/-- The methods of the dummy instance are put on the prototype, which becomes that of
    the class. -/
def exportMethods (classID : ℕ) (dummyInstanceExports : List CName) (e : Engine Fn Get Set) :
    Option (Engine Fn Get Set) := do
  let e' ← dummyInstanceExports.foldlM (fun e name => e.exportMethod name) e
  guard (classID < 2 ^ 16)
  some e'

/-- The static methods and properties are put on the constructor. -/
def exportStatics (contextClassID : Int32) (x : TypeExports Fn Get Set) (e : Engine Fn Get Set) :
    Option (Engine Fn Get Set) := do
  let e' ← x.staticMethods.foldlM (fun e method => e.exportCall method.1 method.2) e
  let e' ← x.staticProperties.foldlM exportProperty e'
  some { e' with statics := e'.statics.insert contextClassID (placeStatics e.env.unsettable x) }

/-! ### Evaluating `let variableName = new className()` -/

/-- What is called, once the binding is made; `none` is an exception. -/
def callee (variableName className : CName) (e : Engine Fn Get Set) : Option ScriptValue :=
  if e.env.isDeclared variableName then none
  else (e.bindLexical variableName none).env.getGlobalVar className

/-- The ID that a function object is passed if it is called with `new`; only
    constructors can be. -/
def constructorMagic (index : ℕ) (e : Engine Fn Get Set) : Option Int32 :=
  match e.built[index]? with
  | none => none
  | some f => if f.function.cproto = .constructorMagic then some f.function.passedMagic else none

end Engine

/-- A call of `export(instance:className:as:)`. -/
structure Request where
  instance? : NativeRef
  className : CName
  variableName : CName
  /-- None of the code that evaluating the text and wrapping its value runs uses the
      engine. -/
  direct : Bool

/-- Who evaluates `new`: a script, or `export(instance:)` with the instance waiting on
    a class. -/
inductive Issuer
  | script
  | export (classID : Int32) (request : Request)

/-- Whether other code runs between the steps of a constructor. -/
def Issuer.isOpen : Issuer → Bool
  | .script => true
  | .export _ request => !request.direct

/-- What `typedConstruct` was called with, and the engine class it found. -/
structure Construction where
  issuer : Issuer
  magic : Int32
  newTarget : ℕ
  classID : ℕ

/-- An operation under way. -/
inductive CallFrame
  /-- `export(type:)` makes its dummy instance. -/
  | exportMethods (contextClassID : Int32) (classID : ℕ)
  /-- `export(type:)` runs `staticInit`. -/
  | exportStatics (contextClassID : Int32)
  /-- `export(instance:)`, with its type exported. -/
  | attaching (request : Request)
  /-- The instance waits, and the text is to be evaluated. -/
  | evaluating (classID : Int32) (request : Request)
  /-- The text has thrown, and the exception is being read. -/
  | reporting (classID : Int32) (request : Request)
  /-- What is left is to take the instance off the class: the handler runs, or the
      wrapper is made. -/
  | leaving (classID : Int32) (request : Request) (handler : Bool)
  /-- `typedConstruct` runs `type.init()`. -/
  | initializing (new : Construction)
  /-- `typedConstruct` sets `__instanceAtom`, for which there may be a setter. -/
  | settingAtom (new : Construction) (instance? : NativeRef) (fresh : Bool)
  /-- `typedConstruct` runs `construct(args:)`. -/
  | constructing (new : Construction) (instance? : NativeRef) (fresh : Bool)
  /-- `typedConstruct` reads the properties of the instance. `constructs` is how often
      `construct(args:)` was called. -/
  | exportProperties (new : Construction) (instance? : NativeRef) (fresh : Bool) (constructs : ℕ)

/-- Whether other code runs there. -/
def CallFrame.isOpen : CallFrame → Bool
  | .exportMethods _ _ => true
  | .exportStatics _ => true
  | .attaching _ => false
  | .evaluating _ request => !request.direct
  | .reporting _ request => !request.direct
  | .leaving _ request handler => handler || !request.direct
  | .initializing new => new.issuer.isOpen
  | .settingAtom new _ _ => new.issuer.isOpen
  | .constructing new _ _ => new.issuer.isOpen
  | .exportProperties new _ _ _ => new.issuer.isOpen

/-- An evaluation of `new` on the constructor of an exported class: whether
    `export(instance:)` issued it, the instance that was attached, whether that was
    initialized for it, and how often `construct(args:)` was called. -/
structure Evaluation where
  own : Bool
  instance? : NativeRef
  fresh : Bool
  constructs : ℕ

/-- An engine, the operations under way, and what has happened so far: the instances
    that were attached to objects, the evaluations that are over, and the export
    tables each time that script code or the exception handler began to run.
    `serial` counts the native instances. -/
structure Activity (Fn Get Set : Type) where
  engine : Engine Fn Get Set
  serial : ℕ
  exceptionHandler : Bool := false
  frames : List CallFrame := []
  attached : List NativeRef := []
  evaluations : List Evaluation := []
  ran : List (JSContext Fn Get Set) := []

/-- What may happen next. -/
inductive Act (Fn Get Set : Type)
  -- scripts, and native code that uses the engine
  | script (env : Environment)
  | setExceptionHandler (installed : Bool)
  | newInstance
  | exportFunction (name : CName) (function : Fn)
  | exportType (type : MetaType) (className : CName)
  | exportInstance (request : Request)
  | new (index : ℕ)
  -- the operation under way goes on
  | exportMethods (dummyInstanceExports : List CName)
  | exportStatics (x : TypeExports Fn Get Set)
  | attach (order : List (Int32 × JSClassInfo))
  | evaluate (foreign : Option ScriptValue)
  | evaluated (thrown : Bool)
  | report
  | leave
  | initialized
  | atomSet
  | constructed (throws : Bool)
  | exportProperties (properties : List (CName × JSProperty Get Set))

namespace Activity

/-- Whether other code runs: the host program does when nothing is under way. -/
def isOpen (a : Activity Fn Get Set) : Bool :=
  match a.frames with
  | [] => true
  | frame :: _ => frame.isOpen

/-- Something other than the operations under way changes the engine. -/
def withEngine (e : Engine Fn Get Set) (a : Activity Fn Get Set) : Activity Fn Get Set :=
  { a with engine := e }

def withFrames (frames : List CallFrame) (a : Activity Fn Get Set) : Activity Fn Get Set :=
  { a with frames := frames }

/-- The text that `export(instance:)` evaluates has come to its end. -/
def endText (classID : Int32) (request : Request) (thrown : Bool) (rest : List CallFrame)
    (a : Activity Fn Get Set) : Activity Fn Get Set :=
  if thrown then a.withFrames (.reporting classID request :: rest)
  else a.withFrames (.leaving classID request false :: rest)

/-- `new` is over. The text that `export(instance:)` evaluates ends with it: the
    variable is bound, or there is an exception. -/
def finish (issuer : Issuer) (result : Option ScriptValue) (rest : List CallFrame)
    (a : Activity Fn Get Set) : Activity Fn Get Set :=
  match issuer with
  | .script => a.withFrames rest
  | .export classID request =>
      match result with
      | none => a.endText classID request true rest
      | some value =>
          (a.withEngine (a.engine.bindLexical request.variableName (some value))).endText
            classID request false rest

/-- An instance is attached to a new object. -/
def attachTo (new : Construction) (instance? : NativeRef) (fresh : Bool) (rest : List CallFrame)
    (a : Activity Fn Get Set) : Activity Fn Get Set :=
  { a with
    frames := .settingAtom new instance? fresh :: rest
    attached := a.attached ++ [instance?] }

/-- `typedConstruct` is called. -/
def construct (issuer : Issuer) (magic : Int32) (newTarget : ℕ) (rest : List CallFrame)
    (a : Activity Fn Get Set) : Activity Fn Get Set :=
  match a.engine.context.classes.lookup magic with
  | none => a.finish issuer (some .undefined) rest
  | some classType =>
      let new : Construction := ⟨issuer, magic, newTarget, classType.classID⟩
      match classType.waitingToAttach with
      | some instance? => a.attachTo new instance? false rest
      | none => a.withFrames (.initializing new :: rest)

/-- The constructor is over, and has made an evaluation. -/
def record (new : Construction) (instance? : NativeRef) (fresh : Bool) (constructs : ℕ)
    (a : Activity Fn Get Set) : Activity Fn Get Set :=
  let own :=
    match new.issuer with
    | .script => false
    | .export _ _ => true
  { a with evaluations := a.evaluations ++ [⟨own, instance?, fresh, constructs⟩] }

/-- `let variableName = new className(); variableName;` is evaluated. Values that are
    not function objects of exports are script code: `foreign` is what `new` makes of
    them, if anything. -/
def evaluate (classID : Int32) (request : Request) (foreign : Option ScriptValue)
    (rest : List CallFrame) (a : Activity Fn Get Set) : Activity Fn Get Set :=
  let issuer : Issuer := .export classID request
  if a.engine.env.isDeclared request.variableName then a.finish issuer none rest
  else
    let bound := a.withEngine (a.engine.bindLexical request.variableName none)
    match a.engine.callee request.variableName request.className with
    | none => bound.finish issuer none rest
    | some (.function index) =>
        match a.engine.constructorMagic index with
        | none => bound.finish issuer none rest
        | some magic => bound.construct issuer magic index rest
    | some _ => bound.finish issuer foreign rest

/-- `classInfo.waitingToAttach = instance`. -/
def setWaitingToAttach (classID : Int32) (instance? : Option NativeRef)
    (a : Activity Fn Get Set) : Activity Fn Get Set :=
  a.withEngine
    { a.engine with context := a.engine.context.setWaitingToAttach classID instance? }

/-- Script code or the exception handler begins to run. -/
def run (a : Activity Fn Get Set) : Activity Fn Get Set :=
  { a with ran := a.ran ++ [a.engine.context] }

/-- What an act does. -/
inductive Step : Activity Fn Get Set → Act Fn Get Set → Activity Fn Get Set → Prop
  | script {a : Activity Fn Get Set} {env : Environment} :
      a.isOpen → env.Within a.engine →
      Step a (.script env) (a.run.withEngine { a.engine with env := env })
  | setExceptionHandler {a : Activity Fn Get Set} {installed : Bool} :
      a.isOpen → Step a (.setExceptionHandler installed) { a with exceptionHandler := installed }
  | newInstance {a : Activity Fn Get Set} :
      a.isOpen → Step a .newInstance { a with serial := a.serial + 1 }
  | exportFunction {a : Activity Fn Get Set} {name : CName} {function : Fn}
      {e : Engine Fn Get Set} {result : Option ℕ} :
      a.isOpen → a.engine.exportFunction name function = some (e, result) →
      Step a (.exportFunction name function) (a.withEngine e)
  -- exporting a type
  | exportRefused {a : Activity Fn Get Set} {type : MetaType} {className : CName} :
      a.isOpen → a.engine.env.isExported className → Step a (.exportType type className) a
  | exportType {a : Activity Fn Get Set} {type : MetaType} {className : CName}
      {contextClassID : Int32} {e : Engine Fn Get Set} :
      a.isOpen → ¬ a.engine.env.isExported className →
      a.engine.declareType type className = some (contextClassID, e) →
      Step a (.exportType type className)
        ((a.withEngine e).withFrames
          (.exportMethods contextClassID a.engine.jsClassIDAlloc :: a.frames))
  | exportMethods {a : Activity Fn Get Set} {contextClassID : Int32} {classID : ℕ}
      {rest : List CallFrame} {names : List CName} {e : Engine Fn Get Set} :
      a.frames = .exportMethods contextClassID classID :: rest →
      a.engine.exportMethods classID names = some e →
      Step a (.exportMethods names)
        ((a.withEngine e).withFrames (.exportStatics contextClassID :: rest))
  | exportStatics {a : Activity Fn Get Set} {contextClassID : Int32} {rest : List CallFrame}
      {x : TypeExports Fn Get Set} {e : Engine Fn Get Set} :
      a.frames = .exportStatics contextClassID :: rest →
      a.engine.exportStatics contextClassID x = some e →
      Step a (.exportStatics x) ((a.withEngine e).withFrames rest)
  -- exporting an instance
  | exportInstance {a : Activity Fn Get Set} {request : Request} :
      a.isOpen → request.instance?.serial < a.serial →
      a.engine.env.isExported request.className →
      Step a (.exportInstance request) (a.withFrames (.attaching request :: a.frames))
  | exportWithType {a : Activity Fn Get Set} {request : Request} {contextClassID : Int32}
      {e : Engine Fn Get Set} :
      a.isOpen → request.instance?.serial < a.serial →
      ¬ a.engine.env.isExported request.className →
      a.engine.declareType request.instance?.type request.className
        = some (contextClassID, e) →
      Step a (.exportInstance request)
        ((a.withEngine e).withFrames
          (.exportMethods contextClassID a.engine.jsClassIDAlloc :: .attaching request :: a.frames))
  | noClass {a : Activity Fn Get Set} {request : Request} {rest : List CallFrame}
      {order : List (Int32 × JSClassInfo)} :
      a.frames = .attaching request :: rest → a.engine.context.classes.Enumerates order →
      JSContext.findExportClassType order request.instance?.type = none →
      Step a (.attach order) (a.withFrames rest)
  | attach {a : Activity Fn Get Set} {request : Request} {rest : List CallFrame}
      {order : List (Int32 × JSClassInfo)} {classID : Int32} {info : JSClassInfo} :
      a.frames = .attaching request :: rest → a.engine.context.classes.Enumerates order →
      JSContext.findExportClassType order request.instance?.type = some (classID, info) →
      Step a (.attach order)
        ((a.setWaitingToAttach classID (some request.instance?)).withFrames
          (.evaluating classID request :: rest))
  | evaluate {a : Activity Fn Get Set} {classID : Int32} {request : Request}
      {rest : List CallFrame} {foreign : Option ScriptValue} :
      a.frames = .evaluating classID request :: rest →
      Step a (.evaluate foreign) (a.evaluate classID request foreign rest)
  -- the names do not read as identifiers, and the text does something else
  | evaluated {a : Activity Fn Get Set} {classID : Int32} {request : Request}
      {rest : List CallFrame} {thrown : Bool} :
      a.frames = .evaluating classID request :: rest → request.direct = false →
      Step a (.evaluated thrown) (a.endText classID request thrown rest)
  | report {a : Activity Fn Get Set} {classID : Int32} {request : Request} {rest : List CallFrame} :
      a.frames = .reporting classID request :: rest → a.exceptionHandler = true →
      Step a .report (a.run.withFrames (.leaving classID request true :: rest))
  | reportNowhere {a : Activity Fn Get Set} {classID : Int32} {request : Request}
      {rest : List CallFrame} :
      a.frames = .reporting classID request :: rest → a.exceptionHandler = false →
      Step a .report (a.withFrames (.leaving classID request false :: rest))
  | leave {a : Activity Fn Get Set} {classID : Int32} {request : Request} {handler : Bool}
      {rest : List CallFrame} :
      a.frames = .leaving classID request handler :: rest →
      Step a .leave ((a.setWaitingToAttach classID none).withFrames rest)
  -- constructing an object
  | new {a : Activity Fn Get Set} {index : ℕ} {magic : Int32} :
      a.isOpen → a.engine.constructorMagic index = some magic →
      Step a (.new index) (a.construct .script magic index a.frames)
  | initialized {a : Activity Fn Get Set} {new : Construction} {rest : List CallFrame}
      {classType : JSClassInfo} :
      a.frames = .initializing new :: rest →
      a.engine.context.classes.lookup new.magic = some classType →
      Step a .initialized
        { a.attachTo new ⟨classType.type, a.serial⟩ true rest with serial := a.serial + 1 }
  -- the class is looked at a second time, after code has run
  | construct {a : Activity Fn Get Set} {new : Construction} {instance? : NativeRef}
      {fresh : Bool} {rest : List CallFrame} {classType : JSClassInfo} :
      a.frames = .settingAtom new instance? fresh :: rest →
      a.engine.context.classes.lookup new.magic = some classType →
      classType.waitingToAttach = none →
      Step a .atomSet (a.withFrames (.constructing new instance? fresh :: rest))
  | constructWaiting {a : Activity Fn Get Set} {new : Construction} {instance? : NativeRef}
      {fresh : Bool} {rest : List CallFrame} {classType : JSClassInfo} :
      a.frames = .settingAtom new instance? fresh :: rest →
      a.engine.context.classes.lookup new.magic = some classType →
      classType.waitingToAttach ≠ none →
      Step a .atomSet (a.withFrames (.exportProperties new instance? fresh 0 :: rest))
  | constructed {a : Activity Fn Get Set} {new : Construction} {instance? : NativeRef}
      {fresh : Bool} {rest : List CallFrame} :
      a.frames = .constructing new instance? fresh :: rest →
      Step a (.constructed false) (a.withFrames (.exportProperties new instance? fresh 1 :: rest))
  | threw {a : Activity Fn Get Set} {new : Construction} {instance? : NativeRef}
      {fresh : Bool} {rest : List CallFrame} :
      a.frames = .constructing new instance? fresh :: rest →
      Step a (.constructed true) ((a.record new instance? fresh 1).finish new.issuer none rest)
  | exportProperties {a : Activity Fn Get Set} {new : Construction} {instance? : NativeRef}
      {fresh : Bool} {constructs : ℕ} {rest : List CallFrame}
      {properties : List (CName × JSProperty Get Set)} {e : Engine Fn Get Set} :
      a.frames = .exportProperties new instance? fresh constructs :: rest →
      properties.foldlM Engine.exportProperty a.engine = some e →
      Step a (.exportProperties properties)
        (((a.withEngine
          { e with objects := e.objects ++ [⟨new.classID, instance?, new.newTarget⟩] }).record
            new instance? fresh constructs).finish new.issuer (some (.object e.objects.length)) rest)

/-- An engine on which nothing is under way. -/
def start (serial : ℕ) (e : Engine Fn Get Set) : Activity Fn Get Set :=
  { engine := e, serial := serial }

end Activity

end Substrata
