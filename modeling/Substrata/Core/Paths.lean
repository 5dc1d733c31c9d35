import Substrata.Core.Convert

/-!
# Key paths

`JSEngine.value(for:)` and `JSEngine.setValue(_:for:)`, and the data bridge, which puts its
own name before the key.

Both take a path of names joined by dots. The getter has the engine evaluate the path as a
script. The setter evaluates all but the last name, and assigns a property to what comes
out; a single name is assigned to the global object, without a script.

What a script does is left to the engine, but for one kind of script, which is followed
here: paths of identifiers, with commas between them. The first name of a path is a global
variable, where `let`, `const` and `class` come before the properties of the global object,
and each further name is a property. All other scripts stop the model, and so do accessors
that run one. Of identifiers the model reads those in ASCII.

An exception is only a tag. The error object that the engine makes for it is not put on the
heap, and what the exception handler does is not followed. An assignment to an element or
the length of an array, or through an accessor, stops the model as well.

## Main definitions

* `components`: `components(separatedBy: ".")`.
* `Realm`: The global state that scripts share.
* `Realm.jsGetGlobalVar`, `Realm.jsGetProperty`: What the names of a path are.
* `Realm.evalScript`: Evaluation of paths.
* `Extends`: An engine that evaluates paths so, and whatever else it can.
* `Realm.jsSetPropertyStr`: An assignment, with its result.
* `Realm.value`, `Realm.setValue`: The operations of `JSEngine`.
* `DataBridge.value`, `DataBridge.setValue`: Those of `JSDataBridge`.
-/

namespace Substrata

/-! ## Names -/

/-- `components(separatedBy: ".")`. -/
def components (s : String) : List String := (s.toList.splitOn '.').map String.ofList

/-- `joined(separator: ".")`. -/
def joined (names : List String) : String := ".".intercalate names

def isIdentFirst (c : Char) : Bool := c.isAlpha || c == '$' || c == '_'

def isIdentNext (c : Char) : Bool := isIdentFirst c || c.isDigit

def isIdentifierName (s : String) : Bool :=
  match s.toList with
  | [] => false
  | c :: cs => isIdentFirst c && cs.all isIdentNext

/-- The atoms that the parser takes for keywords. -/
def keywords : List String :=
  ["null", "false", "true", "if", "else", "return", "var", "this", "delete", "void", "typeof",
    "new", "in", "instanceof", "do", "while", "for", "break", "continue", "switch", "case",
    "default", "throw", "try", "catch", "finally", "function", "debugger", "with",
    "class", "const", "enum", "export", "extends", "import", "super",
    "implements", "interface", "let", "package", "private", "protected", "public", "static",
    "yield", "await"]

/-- A name that can stand on its own. The last of the keywords can as well in some places;
    they are left to the parser. -/
def isReference (s : String) : Bool := isIdentifierName s && !keywords.contains s

/-- A path as a script has it: a variable, and properties. -/
structure Path where
  first : String
  rest : List String
  deriving DecidableEq

def Path.ofNames : List String → Option Path
  | first :: rest =>
    if isReference first && rest.all isIdentifierName then some { first, rest } else none
  | [] => none

/-- What the parser makes of a script, if it is paths with commas between them. -/
def readScript (script : String) : Option (List Path) :=
  (script.toList.splitOn ',').mapM fun operand =>
    Path.ofNames (components (String.ofList (operand.dropWhile fun c => c == ' ')))

/-! ## The global state -/

/-- The prototypes of primitive values. -/
structure PrimitiveProtos where
  bigInt : ℕ
  number : ℕ
  boolean : ℕ
  string : ℕ
  symbol : ℕ
  deriving DecidableEq

/-- `JS_GetPrototypePrimitive`. -/
def PrimitiveProtos.jsGetPrototypePrimitive (p : PrimitiveProtos) : JSValue → Option ℕ
  | .bigInt _ => some p.bigInt
  | .int _ => some p.number
  | .float64 _ => some p.number
  | .bool _ => some p.boolean
  | .string _ => some p.string
  | .symbol _ => some p.symbol
  | _ => none

/-- What scripts share: the heap, the global object, and the bindings that `let`, `const` and
    `class` made outside of functions. A binding in its dead zone has no value. -/
structure Realm where
  heap : Heap
  globalObj : ℕ
  globalVars : List (Atom × Option JSValue) := []
  protos : PrimitiveProtos
  deriving DecidableEq

namespace Realm

/-- `JS_GetGlobalVar`. A name that is nowhere is a `ReferenceError`. -/
def jsGetGlobalVar (s : Realm) (prop : Atom) : Outcome JSValue :=
  match s.globalVars.lookup prop with
  | some (some v) => .ok v
  | some none => .ok .exception
  | none =>
    if s.heap.hasProperty s.globalObj prop then s.heap.getProperty s.globalObj prop
    else .ok .exception

/-- A property that a primitive value has from its prototype. -/
def getInherited (s : Realm) (obj : JSValue) (prop : Atom) : Outcome JSValue :=
  match s.protos.jsGetPrototypePrimitive obj with
  | none => .ok jsUndefined
  | some p =>
    match s.heap.findProperty p prop with
    | none => .ok jsUndefined
    | some (.value v _ _) => .ok v
    | some (.getSet _ _) => .error .script

/-- `JS_GetProperty`. -/
def jsGetProperty (s : Realm) (obj : JSValue) (prop : Atom) : Outcome JSValue :=
  match obj with
  | .nullTag _ => .ok .exception
  | .undefinedTag _ => .ok .exception
  | .exception => .ok .exception
  | .object ref => s.heap.getProperty ref prop
  | .string str =>
    match prop with
    | .index idx =>
      match str[idx]? with
      | some ch => .ok (.string [ch])
      | none => s.getInherited obj prop
    | .name _ =>
      if prop = Heap.atomLength then .ok (jsNewInt32 (Int32.ofNat str.length))
      else s.getInherited obj prop
  | _ => s.getInherited obj prop

/-- One path. -/
def evalPath (s : Realm) (path : Path) : Outcome JSValue := do
  let v ← s.jsGetGlobalVar (jsNewAtom path.first)
  path.rest.foldlM (fun v name => s.jsGetProperty v (jsNewAtom name)) v

/-- The comma operator: the last value counts. An exception ends it. -/
def evalPaths (s : Realm) : List Path → Outcome JSValue
  | [] => .error .script
  | [path] => s.evalPath path
  | path :: paths =>
    match s.evalPath path with
    | .error stop => .error stop
    | .ok .exception => .ok .exception
    | .ok _ => s.evalPaths paths

/-- `JS_Eval`, where it is followed. -/
def evalScript (script : String) (s : Realm) : Outcome (JSValue × Realm) :=
  match readScript script with
  | none => .error .script
  | some paths =>
    match s.evalPaths paths with
    | .error stop => .error stop
    | .ok v => .ok (v, s)

end Realm

/-- An engine evaluates paths as they are followed here, and other scripts somehow. -/
def Extends (eval : String → Realm → Outcome (JSValue × Realm)) : Prop :=
  ∀ script s r, s.evalScript script = .ok r → eval script s = .ok r

/-! ## Assignments -/

/-- Whether an assignment is to an element or the length of an array. -/
def Heap.isArraySlot (h : Heap) (ref : ℕ) (prop : Atom) : Bool :=
  match h.objects[ref]? with
  | some { u := .array _, .. } =>
    match prop with
    | .index _ => true
    | .name _ => prop = Heap.atomLength
  | _ => false

/-- `JS_SetPropertyInternal2` on an object, with its result. -/
def Heap.jsSetProperty (h : Heap) (ref : ℕ) (prop : Atom) (val : JSValue) :
    Outcome (Bool × Heap) :=
  match h.own prop ref with
  | some (.value _ enumerable true) =>
    .ok (true, h.update ref fun o => o.put prop (.value val enumerable true))
  | some (.value _ _ false) => .ok (false, h)
  | some (.getSet _ _) => .error .script
  | none =>
    match (h.guards prop (h.protoChain ref).tail).findSome? (h.inheritedGuard prop) with
    | some (some _) => .error .script
    | some none => .ok (false, h)
    | none =>
      match h.objects[ref]? with
      | some o =>
        if o.extensible then
          .ok (true, h.update ref fun o => o.put prop (.value val true true))
        else
          .ok (false, h)
      | none => .ok (false, h)

namespace Realm

/-- `0 < JS_SetPropertyStr`. On a primitive value it fails, unless a setter is in the way. -/
def jsSetPropertyStr (s : Realm) (thisObj : JSValue) (prop : String) (val : JSValue) :
    Outcome (Bool × Realm) :=
  match thisObj with
  | .object ref =>
    if s.heap.isArraySlot ref (jsNewAtom prop) then .error .script
    else
      match s.heap.jsSetProperty ref (jsNewAtom prop) val with
      | .error stop => .error stop
      | .ok (result, h) => .ok (result, { s with heap := h })
  | _ =>
    match s.protos.jsGetPrototypePrimitive thisObj with
    | none => .ok (false, s)
    | some p =>
      match s.heap.findProperty p (jsNewAtom prop) with
      | some (.getSet _ _) => .error .script
      | _ => .ok (false, s)

/-! ## The operations -/

/-- What `evaluate(script:)` returns: the `JSError` of an exception, or a value. -/
inductive Evaluated
  | error
  | value (x : Option JSConvertible)

/-- `toJSConvertible` on what a script returned. -/
def evaluated (ext : Externals) (h : Heap) (fuel : ℕ) : JSValue → Outcome Evaluated
  | .exception => .ok .error
  | v =>
    match toJSConvertible ext h fuel v with
    | .error stop => .error stop
    | .ok x => .ok (.value x)

section Operations

variable (ext : Externals) (eval : String → Realm → Outcome (JSValue × Realm))

/-- `JSEngine.value(for:)`. -/
def value (fuel : ℕ) (keyPath : String) (s : Realm) : Outcome (Evaluated × Realm) :=
  if keyPath.isEmpty then .ok (.value none, s)
  else
    match eval keyPath s with
    | .error stop => .error stop
    | .ok (v, s') =>
      match evaluated ext s'.heap fuel v with
      | .error stop => .error stop
      | .ok result => .ok (result, s')

/-- `JSEngine.setValue(_:for:)`. -/
def setValue (value : Option JSConvertible) (keyPath : String) (s : Realm) :
    Outcome (Bool × Realm) :=
  if keyPath.isEmpty then .ok (false, s)
  else
    match Route.engineSetValue.hand value s.heap with
    | .error stop => .error stop
    | .ok (v, h) =>
      let s := { s with heap := h }
      let names := components keyPath
      let last := names.getLastD ""
      let path := joined names.dropLast
      if path.isEmpty then
        -- they're referencing the global object
        s.jsSetPropertyStr (.object s.globalObj) last v
      else
        match eval path s with
        | .error stop => .error stop
        | .ok (pathValue, s') => s'.jsSetPropertyStr pathValue last v

end Operations

end Realm

namespace DataBridge

def dataBridgeKey : String := "dataBridge"

def keyed (keyPath : String) : String := dataBridgeKey ++ "." ++ keyPath

variable (ext : Externals) (eval : String → Realm → Outcome (JSValue × Realm))

/-- `JSDataBridge.value(for:)`. -/
def value (fuel : ℕ) (keyPath : String) (s : Realm) : Outcome (Realm.Evaluated × Realm) :=
  s.value ext eval fuel (keyed keyPath)

/-- `JSDataBridge.setValue(_:for:)`. -/
def setValue (value : Option JSConvertible) (keyPath : String) (s : Realm) :
    Outcome (Bool × Realm) :=
  s.setValue eval value (keyed keyPath)

end DataBridge

end Substrata
