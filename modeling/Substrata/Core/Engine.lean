import Substrata.Core.Context

/-!
# The engine: exports and constructions

`JSEngine` with its context and as much of the JS side as the exports touch:
the bindings scripts see as globals, the function objects that exports built,
and the objects that constructors of exported classes returned.

A global name is looked up among the lexical bindings first (`let`, `const`,
`class`; a binding whose initializer has not finished is in its dead zone), then
among the properties of the global object and its prototypes. Values that no
export made are all `ScriptValue.other`.

Refused exports return at once, as they do in a release build; a debug build
stops the process there.

`built` lists every function object made for an export, with the ID it was made
for and what was registered under that ID. Nothing in the code reads it: it is
there to say what a function object stands for.

What native classes do is an input of the operations. `TypeExports` is what
exporting a type reads from it, in the order it is iterated, and `Natives` is how
instances behave when they are constructed.

## Main definitions

* `ScriptValue`: A value of a script, as far as exports tell values apart.
* `Built`: A function object with what it was built for.
* `Engine`: The state of an engine.
* `Environment.isExported`: Whether the global object has a property.
* `Environment.getGlobalVar`: What a global name resolves to.
* `exportFunction`: `export(name:function:)`.
* `exportType`: `export(type:className:)`.
* `installFunction`, `installType`: What they do once the name is found free.
* `typedConstruct`: The callback behind `new C()`.
* `exportInstance`: `export(instance:className:as:)`.
* `invoke`: What calling a function object runs.
-/

namespace Substrata

/-- A property exported by a native class. -/
structure JSProperty (Get Set : Type) where
  getter : Get
  setter : Option Set
  deriving DecidableEq

/-- A method or a property on the constructor of an exported class. -/
inductive Static (Fn Get Set : Type)
  | method (function : Fn)
  | property (value : JSProperty Get Set)
  deriving DecidableEq

/-- A value of a script: a function object built for an export, an object that
    a constructor of an exported class returned, or anything else. -/
inductive ScriptValue
  | function (index : ℕ)
  | object (index : ℕ)
  | undefined
  | other
  deriving DecidableEq, Repr

/-- A property of the global object. -/
structure GlobalProperty where
  value : ScriptValue
  configurable : Bool
  deriving DecidableEq, Repr

/-- A function object built for an export, the ID it was built for, and what was
    registered under the ID. -/
structure Built (Fn Get Set : Type) where
  function : CFunction
  tableID : Int32
  registered : Export Fn Get Set

/-- An object made by `typedConstruct`: its engine class, the native instance
    attached to it, and the constructor whose `prototype` it has. -/
structure ConstructedObject where
  classID : ℕ
  instance? : NativeRef
  constructor : ℕ
  deriving DecidableEq, Repr

/-- The first class ID that `JS_NewClassID` hands out. -/
def jsClassInitCount : ℕ := 61

/-- What scripts can change. `inherited` holds what the prototypes of the global
    object have, `lexical` maps a binding in its dead zone to `none`,
    `classNames` is the class name that `getClassName` finds through the
    `prototype` of each constructor, and `unsettable` lists the names that
    `JS_SetPropertyStr` makes no property of on a new constructor: the
    constructor's own read-only properties, and accessors on its prototypes. -/
structure Environment where
  global : Dict CName GlobalProperty
  extensible : Bool
  inherited : Dict CName ScriptValue
  lexical : Dict CName (Option ScriptValue)
  classNames : Dict ℕ CName
  unsettable : List String

namespace Environment

/-- A property of the global object is made, unless the object cannot be
    extended. It is not there yet, or an export on another thread has made it since
    it was looked for, and then it can be written. So `JS_SetPropertyStr` and
    `JS_DefinePropertyValueStr` do the same. -/
def defineGlobal (name : CName) (value : ScriptValue) (env : Environment) : Environment :=
  if env.extensible then
    { env with global := env.global.insert name { value := value, configurable := true } }
  else env

/-- `JS_SetConstructor` makes the constructor the `constructor` of its prototype,
    and that is where `getClassName` finds the name. -/
def nameClass (constructor : ℕ) (name : CName) (env : Environment) : Environment :=
  { env with classNames := env.classNames.insert constructor name }

/-- A lexical binding is made or written. -/
def bindLexical (name : CName) (slot : Option ScriptValue) (env : Environment) : Environment :=
  { env with lexical := env.lexical.insert name slot }

/-- `globalRef.hasProperty`, which walks the prototype chain. -/
def isExported (env : Environment) (name : CName) : Bool :=
  (env.global.lookup name).isSome || (env.inherited.lookup name).isSome

/-- `JS_GetGlobalVar`; `none` is a `ReferenceError`. -/
def getGlobalVar (env : Environment) (name : CName) : Option ScriptValue :=
  match env.lexical.lookup name with
  | some slot => slot
  | none =>
      match env.global.lookup name with
      | some property => some property.value
      | none => env.inherited.lookup name

/-- Whether `let name` is a redeclaration, by `JS_CheckDefineGlobalVar`. -/
def isDeclared (env : Environment) (name : CName) : Bool :=
  (env.lexical.lookup name).isSome ||
    (match env.global.lookup name with
     | none => false
     | some property => !property.configurable)

/-- The class name that `getClassName` finds through the `prototype` of a
    constructor. -/
def className (env : Environment) (constructor : ℕ) : String :=
  match env.classNames.lookup constructor with
  | none => "Object"
  | some name => name.1

end Environment

/-- An engine. `jsClassIDAlloc` is a field of its runtime, and `statics` records
    what each export placed on its constructor. -/
structure Engine (Fn Get Set : Type) where
  context : JSContext Fn Get Set := {}
  jsClassIDAlloc : ℕ := jsClassInitCount
  env : Environment
  built : List (Built Fn Get Set) := []
  objects : List ConstructedObject := []
  statics : Dict Int32 (Dict CName (Static Fn Get Set)) := ∅

/-- What exporting a type reads from it, in the order of iteration: the method
    names of a dummy instance, and the static tables. -/
structure TypeExports (Fn Get Set : Type) where
  dummyInstanceExports : List CName
  staticMethods : List (CName × Fn)
  staticProperties : List (CName × JSProperty Get Set)

/-- How native instances behave: the properties each exports, whether
    `construct(args:)` throws, and the name of the function that a getter
    exported under `constructor` returns. -/
structure Natives (Get Set : Type) where
  exportedProperties : NativeRef → List (CName × JSProperty Get Set)
  constructThrows : NativeRef → Bool
  constructorName : NativeRef → CName

/-- What `typedConstruct` returns. -/
inductive Constructed
  | undefined
  | exception
  | object (index : ℕ)
  deriving DecidableEq, Repr

namespace Engine

variable {Fn Get Set : Type}

def defineGlobal (name : CName) (value : ScriptValue) (e : Engine Fn Get Set) :
    Engine Fn Get Set :=
  { e with env := e.env.defineGlobal name value }

def nameClass (constructor : ℕ) (name : CName) (e : Engine Fn Get Set) : Engine Fn Get Set :=
  { e with env := e.env.nameClass constructor name }

def bindLexical (name : CName) (slot : Option ScriptValue) (e : Engine Fn Get Set) :
    Engine Fn Get Set :=
  { e with env := e.env.bindLexical name slot }

/-! ### Building and registering function objects -/

/-- A function object is built for an ID that was handed out, and the context
    has the entry for it. -/
def build (callback : Callback) (name : CName) (cproto : JSCFunctionEnum)
    (value : Export Fn Get Set) (id : Int32) (c : JSContext Fn Get Set) (e : Engine Fn Get Set) :
    Engine Fn Get Set :=
  { e with
    context := c
    built := e.built ++
      [{ function := jsNewCFunctionMagic callback name 1 cproto id, tableID := id,
         registered := value }] }

/-- A plain function or a static method. -/
def exportCall (name : CName) (value : Fn) (e : Engine Fn Get Set) : Option (Engine Fn Get Set) := do
  let (functionID, c) ← e.context.newContextFunctionID
  some (e.build .typedCall name .genericMagic (.function value) functionID
    (c.addExportFunction value functionID))

/-- An instance method. -/
def exportMethod (name : CName) (e : Engine Fn Get Set) : Option (Engine Fn Get Set) := do
  let (methodID, c) ← e.context.newMethodID
  some (e.build .typedInstanceMethod name .genericMagic (.method name) methodID
    (c.addExportMethod name methodID))

/-- A constructor. -/
def exportConstructor (info : JSClassInfo) (e : Engine Fn Get Set) :
    Option (Int32 × Engine Fn Get Set) := do
  let (contextClassID, c) ← e.context.newContextClassID
  some (contextClassID, e.build .typedConstruct info.name .constructorMagic info.toExport
    contextClassID (c.addExportClass info contextClassID))

/-- The getter of a property. -/
def exportGetter (name : CName) (value : Get) (e : Engine Fn Get Set) :
    Option (Engine Fn Get Set) := do
  let (getterID, c) ← e.context.newPropertyID
  some (e.build .typedGetter name .genericMagic (.getter value) getterID
    (c.addExportGetter value getterID))

/-- The setter of a property. -/
def exportSetter (name : CName) (value : Set) (e : Engine Fn Get Set) :
    Option (Engine Fn Get Set) := do
  let (setterID, c) ← e.context.newPropertyID
  some (e.build .typedSetter name .genericMagic (.setter value) setterID
    (c.addExportSetter value setterID))

/-- A property, with its setter if it has one. -/
def exportProperty (e : Engine Fn Get Set) (property : CName × JSProperty Get Set) :
    Option (Engine Fn Get Set) := do
  let e ← e.exportGetter property.1 property.2.getter
  match property.2.setter with
  | none => some e
  | some setter => e.exportSetter property.1 setter

/-! ### Statics on the constructor -/

/-- `JS_SetPropertyStr(constructor, key, method)`. -/
def setStatic (unsettable : List String) (d : Dict CName (Static Fn Get Set))
    (method : CName × Fn) : Dict CName (Static Fn Get Set) :=
  if method.1.1 ∈ unsettable then d else d.insert method.1 (.method method.2)

/-- `JS_DefineProperty(constructor, key, getter, setter)`. Of the constructor's
    properties only `prototype` is not configurable. -/
def defineStatic (d : Dict CName (Static Fn Get Set)) (property : CName × JSProperty Get Set) :
    Dict CName (Static Fn Get Set) :=
  if property.1.1 = "prototype" then d else d.insert property.1 (.property property.2)

/-- The properties that the two loops over the static tables leave on a fresh
    constructor. -/
def placeStatics (unsettable : List String) (x : TypeExports Fn Get Set) :
    Dict CName (Static Fn Get Set) :=
  x.staticProperties.foldl defineStatic (x.staticMethods.foldl (setStatic unsettable) ∅)

/-! ### The three exports -/

/-- `export(name:function:)`, with the index of the function object. -/
def exportFunction (name : CName) (function : Fn) (e : Engine Fn Get Set) :
    Option (Engine Fn Get Set × Option ℕ) :=
  if e.env.isExported name then some (e, none)
  else do
    let e' ← e.exportCall name function
    some (e'.defineGlobal name (.function e.built.length), some e.built.length)

/-- `export(type:className:)`. `JS_NewClass` fails without notice from ID `2 ^ 16`
    on, and `JS_SetClassProto` then stops the process on its assertion. -/
def exportType (type : MetaType) (className : CName) (x : TypeExports Fn Get Set)
    (e : Engine Fn Get Set) : Option (Engine Fn Get Set) :=
  if e.env.isExported className then some e
  else do
    let classID := e.jsClassIDAlloc
    let (contextClassID, e') ←
      exportConstructor { name := className, type := type, classID := classID }
        { e with jsClassIDAlloc := classID + 1 }
    let e' := e'.defineGlobal className (.function e.built.length)
    let e' := e'.nameClass e.built.length className
    let e' ← x.dummyInstanceExports.foldlM (fun e name => e.exportMethod name) e'
    guard (classID < 2 ^ 16)
    let e' ← x.staticMethods.foldlM (fun e method => e.exportCall method.1 method.2) e'
    let e' ← x.staticProperties.foldlM exportProperty e'
    some { e' with
      statics := e'.statics.insert contextClassID (placeStatics e.env.unsettable x) }

/-- The second section of `export(name:function:)`, which relies on a check made
    in an earlier one. -/
def installFunction (name : CName) (function : Fn) (e : Engine Fn Get Set) :
    Option (Engine Fn Get Set) := do
  let e' ← e.exportCall name function
  some (e'.defineGlobal name (.function e.built.length))

/-- The second section of `export(type:className:)`. -/
def installType (type : MetaType) (className : CName) (x : TypeExports Fn Get Set)
    (e : Engine Fn Get Set) : Option (Engine Fn Get Set) := do
  let classID := e.jsClassIDAlloc
  let (contextClassID, e') ←
    exportConstructor { name := className, type := type, classID := classID }
      { e with jsClassIDAlloc := classID + 1 }
  let e' := e'.defineGlobal className (.function e.built.length)
  let e' := e'.nameClass e.built.length className
  let e' ← x.dummyInstanceExports.foldlM (fun e name => e.exportMethod name) e'
  guard (classID < 2 ^ 16)
  let e' ← x.staticMethods.foldlM (fun e method => e.exportCall method.1 method.2) e'
  let e' ← x.staticProperties.foldlM exportProperty e'
  some { e' with
    statics := e'.statics.insert contextClassID (placeStatics e.env.unsettable x) }

/-- With nothing in between, the two sections are the export. -/
theorem exportFunction_eq (name : CName) (function : Fn) (e : Engine Fn Get Set) :
    e.exportFunction name function =
      if e.env.isExported name then some (e, none)
      else (e.installFunction name function).map fun e' => (e', some e.built.length) := by
  unfold exportFunction installFunction
  by_cases hname : e.env.isExported name
  · rw [if_pos hname, if_pos hname]
  · rw [if_neg hname, if_neg hname]
    cases e.exportCall name function with
    | none => rfl
    | some e' => rfl

theorem exportType_eq (type : MetaType) (className : CName) (x : TypeExports Fn Get Set)
    (e : Engine Fn Get Set) :
    e.exportType type className x =
      if e.env.isExported className then some e else e.installType type className x :=
  rfl

/-- `typedConstruct`, called with `magic` by `new` on the constructor with index
    `newTarget`. `fresh` is the serial number of the next native instance. -/
def typedConstruct (magic : Int32) (newTarget : ℕ) (natives : Natives Get Set) (fresh : ℕ)
    (e : Engine Fn Get Set) : Option (Engine Fn Get Set × Constructed) :=
  match e.context.classes.lookup magic with
  | none => some (e, .undefined)
  | some classType =>
      let instance? := classType.waitingToAttach.getD ⟨classType.type, fresh⟩
      if classType.waitingToAttach = none ∧ natives.constructThrows instance? then
        some (e, .exception)
      else do
        let e' ← (natives.exportedProperties instance?).foldlM exportProperty e
        some ({ e' with
          objects := e'.objects ++
            [{ classID := classType.classID, instance? := instance?, constructor := newTarget }] },
          .object e'.objects.length)

/-- `new` on a value. Values that are not constructors of exported classes are
    script code: `foreign` is what they return, if they do. -/
def new (callee : ScriptValue) (natives : Natives Get Set) (fresh : ℕ)
    (foreign : Option ScriptValue) (e : Engine Fn Get Set) :
    Option (Engine Fn Get Set × Option ScriptValue) :=
  match callee with
  | .function index =>
      match e.built[index]? with
      | none => some (e, none)
      | some f =>
          -- only constructor functions can be called with `new`
          if f.function.cproto = .constructorMagic then do
            let (e', result) ← e.typedConstruct f.function.passedMagic index natives fresh
            match result with
            | .undefined => some (e', some .undefined)
            | .exception => some (e', none)
            | .object object => some (e', some (.object object))
          else some (e, none)
  | _ => some (e, foreign)

/-- Evaluating `let variableName = new className(); variableName;`. An exception
    is `none`. The binding is in its dead zone until the constructor returns,
    and stays there if it throws. -/
def evaluateLetNew (variableName className : CName) (natives : Natives Get Set)
    (fresh : ℕ) (foreign : Option ScriptValue) (e : Engine Fn Get Set) :
    Option (Engine Fn Get Set × Option ScriptValue) :=
  if e.env.isDeclared variableName then some (e, none)
  else
    let e := e.bindLexical variableName none
    match e.env.getGlobalVar className with
    | none => some (e, none)
    | some callee => do
        let (e', result) ← e.new callee natives fresh foreign
        match result with
        | none => some (e', none)
        | some value =>
            some (e'.bindLexical variableName (some value), some value)

/-- `getClassName` of an object that `typedConstruct` made. -/
def getClassName (natives : Natives Get Set) (object : ConstructedObject)
    (e : Engine Fn Get Set) : String :=
  if "constructor" ∈ (natives.exportedProperties object.instance?).map (fun p => p.1.1) then
    (natives.constructorName object.instance?).1
  else e.env.className object.constructor

/-- `JSClass.init(value:)`, as far as it fails: the value must be an object, and
    its class name not `Object`. -/
def wrapClass (natives : Natives Get Set) (value : ScriptValue) (e : Engine Fn Get Set) :
    Option ScriptValue :=
  match value with
  | .object index =>
      match e.objects[index]? with
      | none => none
      | some object => if e.getClassName natives object = "Object" then none else some value
  | .undefined => none
  | _ => some value

/-- The first half of `export(instance:className:as:)`: the type is exported if
    nothing has the class name. -/
def ensureExported (type : MetaType) (className : CName) (x : TypeExports Fn Get Set)
    (e : Engine Fn Get Set) : Option (Engine Fn Get Set) :=
  if e.env.isExported className then some e else e.exportType type className x

/-- The second half: the instance waits on the class found by its type while the
    script makes an object. `order` is the order in which the classes are
    filtered. The wrapper returned is given by the value it wraps. -/
def attachInstance (order : List (Int32 × JSClassInfo)) (instance? : NativeRef)
    (className variableName : CName) (natives : Natives Get Set) (fresh : ℕ)
    (foreign : Option ScriptValue) (e : Engine Fn Get Set) :
    Option (Engine Fn Get Set × Option ScriptValue) :=
  match JSContext.findExportClassType order instance?.type with
  | none => some (e, none)
  | some (classID, _) => do
      let e := { e with context := e.context.setWaitingToAttach classID (some instance?) }
      let (e', r) ← e.evaluateLetNew variableName className natives fresh foreign
      let result := r.bind fun value => e'.wrapClass natives value
      some ({ e' with context := e'.context.setWaitingToAttach classID none }, result)

/-- `export(instance:className:as:)`. -/
def exportInstance (order : List (Int32 × JSClassInfo)) (instance? : NativeRef)
    (className variableName : CName) (x : TypeExports Fn Get Set) (natives : Natives Get Set)
    (fresh : ℕ) (foreign : Option ScriptValue) (e : Engine Fn Get Set) :
    Option (Engine Fn Get Set × Option ScriptValue) := do
  let e ← e.ensureExported instance?.type className x
  e.attachInstance order instance? className variableName natives fresh foreign

/-! ### Calls -/

/-- What calling a function object runs: the ID the callback gets, and what it
    finds there. -/
def invoke (e : Engine Fn Get Set) (f : CFunction) : Option (Int32 × Export Fn Get Set) :=
  (e.context.findExport f.cFunction f.passedMagic).map fun found => (f.passedMagic, found)

end Engine

end Substrata
