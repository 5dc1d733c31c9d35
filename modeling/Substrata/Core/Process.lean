import Substrata.Basis.Run
import Substrata.Core.Engine

/-!
# The process: several engines and the static tables they share

`exportMethod` and `exportProperty` of a class fill two dictionaries that are
stored properties of `JSExport` itself. Swift has one such property for the whole
process, whatever subclass it is reached through, so every subclass registers in
the same two dictionaries, in every engine. A name that is already there is kept.

`staticInit` is a list of registrations: what the method of that name does for a
class that conforms to `JSStatic`, and nothing for a class that does not.

An operation on an engine is an `Action`. It carries what the operation leaves
open: the order in which dictionaries are iterated, what native code does, and
what the scripts evaluated between two operations have made of the environment.

## Main definitions

* `Registration`: One call of `exportMethod` or `exportProperty`.
* `Statics`: The static tables of `JSExport`.
* `Program`: The native classes of the process.
* `Process`: Engines and static tables.
* `Action`: A public operation, or scripts running.
* `Process.Step`: What an action does.
* `Process.Reachable`: The states of a process.

## Theorems

* `Statics.staticInit_methods`, `Statics.staticInit_properties`: `staticInit` is
  first-wins registration in each of the two tables.
-/

namespace Substrata

/-- One call of the static `exportMethod` or `exportProperty`. -/
inductive Registration (Fn Get Set : Type)
  | method (named : CName) (function : Fn)
  | property (named : CName) (value : JSProperty Get Set)

/-- The static tables of `JSExport`. -/
structure Statics (Fn Get Set : Type) where
  exportedMethods : Dict CName Fn := ∅
  exportedProperties : Dict CName (JSProperty Get Set) := ∅

/-- The native classes: what the static methods of the console do, and what the
    host program's classes register. -/
structure Program (Fn Get Set : Type) where
  log : Fn
  error : Fn
  staticInit : ℕ → List (Registration Fn Get Set)

variable {Fn Get Set : Type}

/-- `ConsoleJS.staticInit` and that of the other classes. -/
def Program.registrations (program : Program Fn Get Set) :
    MetaType → List (Registration Fn Get Set)
  | .consoleJS =>
      [.method (cString "log") program.log, .method (cString "error") program.error]
  | .subclass n => program.staticInit n

/-- The methods among some registrations. -/
def methodsOf (l : List (Registration Fn Get Set)) : List (CName × Fn) :=
  l.filterMap fun
    | .method named function => some (named, function)
    | .property _ _ => none

/-- The properties among some registrations. -/
def propertiesOf (l : List (Registration Fn Get Set)) : List (CName × JSProperty Get Set) :=
  l.filterMap fun
    | .method _ _ => none
    | .property named value => some (named, value)

namespace Statics

/-- `exportMethod(named:function:)` or `exportProperty(named:getter:setter:)`. -/
def register (s : Statics Fn Get Set) : Registration Fn Get Set → Statics Fn Get Set
  | .method named function =>
      { s with exportedMethods := s.exportedMethods.insertNew named function }
  | .property named value =>
      { s with exportedProperties := s.exportedProperties.insertNew named value }

/-- Running the `staticInit` of a class. -/
def staticInit (s : Statics Fn Get Set) (l : List (Registration Fn Get Set)) :
    Statics Fn Get Set :=
  l.foldl register s

theorem staticInit_methods (s : Statics Fn Get Set) (l : List (Registration Fn Get Set)) :
    (s.staticInit l).exportedMethods = s.exportedMethods.registerAll (methodsOf l) := by
  induction l generalizing s with
  | nil => rfl
  | cons r l ih =>
      have hcons : s.staticInit (r :: l) = (s.register r).staticInit l := rfl
      rw [hcons, ih]
      cases r with
      | method named function => rfl
      | property named value => rfl

theorem staticInit_properties (s : Statics Fn Get Set) (l : List (Registration Fn Get Set)) :
    (s.staticInit l).exportedProperties = s.exportedProperties.registerAll (propertiesOf l) := by
  induction l generalizing s with
  | nil => rfl
  | cons r l ih =>
      have hcons : s.staticInit (r :: l) = (s.register r).staticInit l := rfl
      rw [hcons, ih]
      cases r with
      | method named function => rfl
      | property named value => rfl

end Statics

/-- The lists iterate over the static tables. -/
structure TypeExports.Reads (x : TypeExports Fn Get Set) (s : Statics Fn Get Set) : Prop where
  methods : s.exportedMethods.Enumerates x.staticMethods
  properties : s.exportedProperties.Enumerates x.staticProperties

/-! ### A new engine -/

/-- The properties that `JS_NewContext` gives a global object and that cannot be
    configured, the bridge, and the built-in functions. -/
def permanentGlobals : List String :=
  ["Infinity", "NaN", "undefined", "dataBridge", "_hasMethod", "_getInstanceMethodNames"]

/-- The properties that `JS_NewContext` gives a global object and that can be
    configured. -/
def configurableGlobals : List String :=
  ["Object", "Function", "Error", "EvalError", "RangeError", "ReferenceError", "SyntaxError",
    "TypeError", "URIError", "InternalError", "AggregateError", "Iterator", "Array", "parseInt",
    "parseFloat", "isNaN", "isFinite", "queueMicrotask", "decodeURI", "decodeURIComponent",
    "encodeURI", "encodeURIComponent", "escape", "unescape", "Number", "Boolean", "String",
    "Math", "Reflect", "Symbol", "eval", "globalThis", "Date", "RegExp", "JSON", "Proxy", "Map",
    "Set", "WeakMap", "WeakSet", "ArrayBuffer", "SharedArrayBuffer", "Uint8ClampedArray",
    "Int8Array", "Uint8Array", "Int16Array", "Uint16Array", "Int32Array", "Uint32Array",
    "BigInt64Array", "BigUint64Array", "Float16Array", "Float32Array", "Float64Array", "DataView",
    "Atomics", "Promise", "BigInt", "WeakRef", "FinalizationRegistry", "performance"]

/-- The properties of `Object.prototype`. -/
def objectPrototypeNames : List String :=
  ["constructor", "toString", "toLocaleString", "valueOf", "hasOwnProperty", "isPrototypeOf",
    "propertyIsEnumerable", "__proto__", "__defineGetter__", "__defineSetter__",
    "__lookupGetter__", "__lookupSetter__"]

/-- The properties of the global object when `setupDefaultObjects` exports the
    console. -/
def initialGlobals : List (CName × GlobalProperty) :=
  permanentGlobals.map (fun name => (cString name, { value := .other, configurable := false })) ++
    configurableGlobals.map (fun name => (cString name, { value := .other, configurable := true }))

/-- The environment in which `setupDefaultObjects` exports the console. -/
def Environment.initial : Environment where
  global := Dict.registerAll ∅ initialGlobals
  extensible := true
  inherited := Dict.registerAll ∅ (objectPrototypeNames.map fun name => (cString name, .other))
  lexical := ∅
  classNames := ∅
  unsettable := ["length", "name", "prototype", "__proto__", "caller", "arguments", "fileName",
    "lineNumber", "columnNumber"]

/-- Scripts only hold function objects and objects that exist. -/
def ScriptValue.Exists (e : Engine Fn Get Set) : ScriptValue → Prop
  | .function index => index < e.built.length
  | .object index => index < e.objects.length
  | .undefined => True
  | .other => True

/-- The values bound in an environment exist. -/
structure Environment.Within (env : Environment) (e : Engine Fn Get Set) : Prop where
  global : ∀ name property, env.global.lookup name = some property → property.value.Exists e
  inherited : ∀ name value, env.inherited.lookup name = some value → value.Exists e
  lexical : ∀ name value, env.lexical.lookup name = some (some value) → value.Exists e

/-! ### Processes -/

/-- Engines, the static tables, and how many native instances were made. -/
structure Process (Fn Get Set : Type) where
  statics : Statics Fn Get Set := {}
  serial : ℕ := 0
  engines : List (Engine Fn Get Set) := []

/-- An operation of the host program on an engine, or scripts running in one. -/
inductive Action (Fn Get Set : Type)
  | newEngine (x : TypeExports Fn Get Set)
  | newInstance (type : MetaType)
  | exportFunction (engine : ℕ) (name : CName) (function : Fn)
  | exportType (engine : ℕ) (type : MetaType) (className : CName) (x : TypeExports Fn Get Set)
  | exportInstance (engine : ℕ) (order : List (Int32 × JSClassInfo)) (instance? : NativeRef)
      (className variableName : CName) (x : TypeExports Fn Get Set) (natives : Natives Get Set)
      (foreign : Option ScriptValue)
  | construct (engine : ℕ) (index : ℕ) (natives : Natives Get Set)
  | script (engine : ℕ) (env : Environment)

namespace Process

/-- The static tables after an export of a type: `staticInit` runs unless the
    export is refused. -/
def staticsAfter (program : Program Fn Get Set) (p : Process Fn Get Set)
    (e : Engine Fn Get Set) (type : MetaType) (className : CName) : Statics Fn Get Set :=
  if e.env.isExported className then p.statics
  else p.statics.staticInit (program.registrations type)

/-- What an action does to the process. There is no step for an operation that
    traps, nor for one on an engine that is not there. -/
inductive Step (program : Program Fn Get Set) :
    Process Fn Get Set → Action Fn Get Set → Process Fn Get Set → Prop
  | newEngine {p : Process Fn Get Set} {x : TypeExports Fn Get Set} {s : Statics Fn Get Set}
      {e : Engine Fn Get Set} :
      s = p.staticsAfter program { env := .initial } .consoleJS (cString "console") →
      x.Reads s → x.dummyInstanceExports = [] →
      Engine.exportType .consoleJS (cString "console") x { env := .initial } = some e →
      Step program p (.newEngine x) { p with statics := s, engines := p.engines ++ [e] }
  | newInstance {p : Process Fn Get Set} {type : MetaType} :
      Step program p (.newInstance type) { p with serial := p.serial + 1 }
  | exportFunction {p : Process Fn Get Set} {k : ℕ} {e e' : Engine Fn Get Set} {name : CName}
      {function : Fn} {result : Option ℕ} :
      p.engines[k]? = some e → e.exportFunction name function = some (e', result) →
      Step program p (.exportFunction k name function) { p with engines := p.engines.set k e' }
  | exportType {p : Process Fn Get Set} {k : ℕ} {e e' : Engine Fn Get Set} {type : MetaType}
      {className : CName} {x : TypeExports Fn Get Set} {s : Statics Fn Get Set} :
      p.engines[k]? = some e → s = p.staticsAfter program e type className → x.Reads s →
      e.exportType type className x = some e' →
      Step program p (.exportType k type className x)
        { p with statics := s, engines := p.engines.set k e' }
  | exportInstance {p : Process Fn Get Set} {k : ℕ} {e e₁ e' : Engine Fn Get Set}
      {order : List (Int32 × JSClassInfo)} {instance? : NativeRef}
      {className variableName : CName} {x : TypeExports Fn Get Set} {natives : Natives Get Set}
      {foreign result : Option ScriptValue} {s : Statics Fn Get Set} :
      p.engines[k]? = some e → instance?.serial < p.serial →
      (∀ value, foreign = some value → value.Exists e) →
      s = p.staticsAfter program e instance?.type className → x.Reads s →
      e.ensureExported instance?.type className x = some e₁ →
      e₁.context.classes.Enumerates order →
      e.exportInstance order instance? className variableName x natives p.serial foreign
        = some (e', result) →
      Step program p
        (.exportInstance k order instance? className variableName x natives foreign)
        { statics := s, serial := p.serial + 1, engines := p.engines.set k e' }
  | construct {p : Process Fn Get Set} {k index : ℕ} {e e' : Engine Fn Get Set}
      {natives : Natives Get Set} {result : Option ScriptValue} :
      p.engines[k]? = some e →
      e.new (.function index) natives p.serial none = some (e', result) →
      Step program p (.construct k index natives)
        { p with serial := p.serial + 1, engines := p.engines.set k e' }
  | script {p : Process Fn Get Set} {k : ℕ} {e : Engine Fn Get Set} {env : Environment} :
      p.engines[k]? = some e → env.Within e →
      Step program p (.script k env) { p with engines := p.engines.set k { e with env := env } }

/-- The states a process gets into. -/
def Reachable (program : Program Fn Get Set) : Process Fn Get Set → Prop :=
  Transition.Reachable (fun p => p = {}) (Step program)

end Process

end Substrata
