import Substrata.Core.Value

/-!
# The heap

The objects of a context and the property operations that Swift calls on them.

An object has a class, a prototype, named properties, and a union `u` whose use
depends on the class: the elements of an array, the value inside a `Date`, or
the pointer that `JS_SetOpaque` writes. Objects are numbered in the order they
are made, and nothing is removed.

Property names are atoms. A name that reads as a whole number up to `2 ^ 31 - 1`
is stored as that number, any other name as its string, so `JS_NewAtom` and
`JS_AtomToCString` invert each other.

Lookups walk the prototype chain. The engine refuses to close a chain, so no
chain is longer than the heap, and that is the bound of the walk. Of accessors
only `__proto__` is native; any other runs a script, and there the model stops.
Proxies are left out, and so are the attributes that no modelled operation
reads. Allocation succeeds: the memory limits of the runtime are not modelled.

## Main definitions

* `Atom`, `jsNewAtom`, `Atom.toJSString`: Property names.
* `JSObject`: An object.
* `Heap`: The objects, and where the built-in prototypes are.
* `Stop`: Why a computation has no result.
* `Heap.protoChain`: An object and what it inherits from.
* `Heap.getProperty`, `Heap.hasProperty`: Reading.
* `Heap.setProperty`, `Heap.setPropertyUint32`: Writing.
* `Heap.ownPropertyNames`: What an enumeration lists.

## Theorems

* `Atom.toJSString_ofString`: Atoms spell what they were made from.
* `Atom.ofString_injective`: Different names are different atoms.
-/

namespace Substrata

/-! ## Atoms -/

/-- A property name: a number stored in the atom, or a string. -/
inductive Atom
  | index (n : ℕ)
  | name (s : JSString)
  deriving DecidableEq

/-- A number in decimal. -/
def decimal (n : ℕ) : JSString := Utf16.encode (toString n).toList

/-- The number that a string of digits denotes. -/
def digitsValue (s : JSString) : ℕ := s.foldl (fun n u => 10 * n + (u.toNat - 48)) 0

/-- `JS_NewAtomStr`: names that read as numbers up to `JS_ATOM_MAX_INT` become
    numbers. -/
def Atom.ofString (s : JSString) : Atom :=
  if digitsValue s ≤ 2 ^ 31 - 1 ∧ decimal (digitsValue s) = s then
    .index (digitsValue s)
  else
    .name s

/-- `JS_AtomToCString`, before the conversion to UTF-8. -/
def Atom.toJSString : Atom → JSString
  | .index n => decimal n
  | .name s => s

/-- `JS_NewAtom` on a Swift string. -/
def jsNewAtom (s : String) : Atom := Atom.ofString (JSString.ofSwift s)

/-- `JS_NewAtomInt64`, on an array index. -/
def Atom.ofIndex (i : ℕ) : Atom := if i ≤ 2 ^ 31 - 1 then .index i else .name (decimal i)

/-- Atoms spell what they were made from. -/
theorem Atom.toJSString_ofString (s : JSString) : (Atom.ofString s).toJSString = s := by
  unfold Atom.ofString
  by_cases h : digitsValue s ≤ 2 ^ 31 - 1 ∧ decimal (digitsValue s) = s
  · rw [if_pos h]
    exact h.2
  · rw [if_neg h]
    rfl

/-- Different names are different atoms. -/
theorem Atom.ofString_injective {s t : JSString} (h : Atom.ofString s = Atom.ofString t) :
    s = t := by
  rw [← Atom.toJSString_ofString s, h, Atom.toJSString_ofString]

theorem jsNewAtom_injective {s t : String} (h : jsNewAtom s = jsNewAtom t) :
    (cString s).1 = (cString t).1 :=
  JSString.ofSwift_injective (Atom.ofString_injective h)

/-! ## Objects -/

/-- Accessor properties: `__proto__` of `Object.prototype`, and those that run a
    script. -/
inductive Accessor
  | proto
  | script
  deriving DecidableEq

/-- A property slot. -/
inductive Property
  | value (v : JSValue) (enumerable writable : Bool)
  | getSet (accessor : Accessor) (enumerable : Bool)
  deriving DecidableEq

def Property.isEnumerable : Property → Bool
  | .value _ enumerable _ => enumerable
  | .getSet _ enumerable => enumerable

/-- The union `u` of an object, by use. -/
inductive ObjectUnion
  | pointer (info : Option ℕ)
  | array (values : List JSValue)
  | objectData (v : JSValue)
  | record
  deriving DecidableEq

/-- An object. -/
structure JSObject where
  classID : ℕ
  proto : Option ℕ
  extensible : Bool := true
  properties : List (Atom × Property) := []
  u : ObjectUnion := .pointer none
  deriving DecidableEq

def jsClassObject : ℕ := 1

def jsClassArray : ℕ := 2

def jsClassError : ℕ := 3

def jsClassDate : ℕ := 10

/-- The predefined classes with a `call` handler, and bytecode functions. -/
def callableClasses : List ℕ := [12, 13, 14, 15, 16, 50, 51, 52, 53, 54, 56]

/-- An own property. The elements of an array are properties by index. -/
def JSObject.own (o : JSObject) (atom : Atom) : Option Property :=
  match o.u, atom with
  | .array values, .index n =>
    match values[n]? with
    | some v => some (.value v true true)
    | none => o.properties.lookup atom
  | _, _ => o.properties.lookup atom

/-- Write a slot that is there, or add one. -/
def JSObject.put (o : JSObject) (atom : Atom) (property : Property) : JSObject :=
  { o with
    properties :=
      if (o.properties.lookup atom).isSome then
        o.properties.map fun p => if p.1 = atom then (atom, property) else p
      else
        o.properties ++ [(atom, property)] }

/-- The objects of a context, in the order they were made, with the built-in
    prototypes. -/
structure Heap where
  objects : List JSObject
  context : ℕ
  objectProto : ℕ
  arrayProto : ℕ
  errorProto : ℕ
  dateProto : ℕ
  deriving DecidableEq

/-- Why there is no result: a trap of the host, an unfinished recursion, or a
    script that would have to run. -/
inductive Stop
  | trap
  | outOfFuel
  | script
  deriving DecidableEq

/-- A computation that may stop. -/
abbrev Outcome := Except Stop

namespace Heap

/-- A new object with its number. -/
def allocate (h : Heap) (o : JSObject) : Heap × ℕ :=
  ({ h with objects := h.objects ++ [o] }, h.objects.length)

/-- `JS_NewObject`. -/
def newObject (h : Heap) : Heap × ℕ :=
  h.allocate { classID := jsClassObject, proto := some h.objectProto }

def atomLength : Atom := jsNewAtom "length"

/-- `JS_NewArray`. The length is the first property of an array. -/
def newArray (h : Heap) : Heap × ℕ :=
  h.allocate
    { classID := jsClassArray
      proto := some h.arrayProto
      properties := [(atomLength, .value (jsNewInt32 0) false true)]
      u := .array [] }

/-- `JS_NewError`. -/
def newError (h : Heap) : Heap × ℕ :=
  h.allocate { classID := jsClassError, proto := some h.errorProto }

/-- `JS_NewDate`. -/
def newDate (h : Heap) (ms : Double) : Heap × ℕ :=
  h.allocate
    { classID := jsClassDate, proto := some h.dateProto, u := .objectData (jsNewFloat64 ms) }

/-- The first `n` objects of a prototype chain. -/
def chain (h : Heap) : ℕ → ℕ → List ℕ
  | 0, _ => []
  | n + 1, ref =>
    match h.objects[ref]? with
    | none => []
    | some o =>
      match o.proto with
      | none => [ref]
      | some p => ref :: h.chain n p

/-- An object and what it inherits from. -/
def protoChain (h : Heap) (ref : ℕ) : List ℕ := h.chain h.objects.length ref

/-- An own property of the object with a number. -/
def own (h : Heap) (atom : Atom) (ref : ℕ) : Option Property :=
  match h.objects[ref]? with
  | none => none
  | some o => o.own atom

/-- The property that a lookup finds. -/
def findProperty (h : Heap) (ref : ℕ) (atom : Atom) : Option Property :=
  (h.protoChain ref).findSome? (h.own atom)

/-- `JS_HasProperty`. -/
def hasProperty (h : Heap) (ref : ℕ) (atom : Atom) : Bool := (h.findProperty ref atom).isSome

/-- The getter of `__proto__`. -/
def getProto (h : Heap) (ref : ℕ) : JSValue :=
  match h.objects[ref]? with
  | some { proto := some p, .. } => .object p
  | _ => jsNull

/-- `JS_GetProperty` on an object. -/
def getProperty (h : Heap) (ref : ℕ) (atom : Atom) : Outcome JSValue :=
  match h.findProperty ref atom with
  | none => .ok jsUndefined
  | some (.value v _ _) => .ok v
  | some (.getSet .proto _) => .ok (h.getProto ref)
  | some (.getSet .script _) => .error .script

/-- An object changes. -/
def update (h : Heap) (ref : ℕ) (f : JSObject → JSObject) : Heap :=
  { h with objects := h.objects.modify ref f }

/-- The setter of `__proto__`, `JS_SetPrototypeInternal`. An exception leaves
    the heap as it is. -/
def setProto (h : Heap) (ref : ℕ) : JSValue → Heap
  | .object p =>
    match h.objects[ref]? with
    | some o =>
      if o.extensible ∧ ref ∉ h.protoChain p ∧ ref ≠ h.objectProto then
        h.update ref fun o => { o with proto := some p }
      else
        h
    | none => h
  | .nullTag _ =>
    match h.objects[ref]? with
    | some o =>
      if o.extensible ∧ ref ≠ h.objectProto then
        h.update ref fun o => { o with proto := none }
      else
        h
    | none => h
  | _ => h

/-- What an inherited property means for an assignment: a setter, or a refusal.
    A writable value further up means nothing, and the walk goes on. -/
def inheritedGuard (h : Heap) (atom : Atom) (ref : ℕ) : Option (Option Accessor) :=
  match h.own atom ref with
  | some (.getSet accessor _) => some (some accessor)
  | some (.value _ _ false) => some none
  | _ => none

/-- Whether an object has an element under an index. -/
def hasElement (h : Heap) (atom : Atom) (ref : ℕ) : Bool :=
  match h.objects[ref]?, atom with
  | some { u := .array values, .. }, .index n => n < values.length
  | _, _ => false

/-- The objects above that an assignment looks at. The walk ends where there is
    an element of that index. -/
def guards (h : Heap) (atom : Atom) (above : List ℕ) : List ℕ :=
  above.takeWhile fun ref => !h.hasElement atom ref

def callSetter (h : Heap) (ref : ℕ) (v : JSValue) : Accessor → Outcome Heap
  | .proto => .ok (h.setProto ref v)
  | .script => .error .script

/-- `JS_SetProperty` on an object that is no array. A refused assignment throws,
    which its callers ignore. -/
def setProperty (h : Heap) (ref : ℕ) (atom : Atom) (v : JSValue) : Outcome Heap :=
  match h.own atom ref with
  | some (.value _ enumerable true) =>
    .ok (h.update ref fun o => o.put atom (.value v enumerable true))
  | some (.value _ _ false) => .ok h
  | some (.getSet accessor _) => h.callSetter ref v accessor
  | none =>
    match (h.guards atom (h.protoChain ref).tail).findSome? (h.inheritedGuard atom) with
    | some (some accessor) => h.callSetter ref v accessor
    | some none => .ok h
    | none =>
      match h.objects[ref]? with
      | some o =>
        if o.extensible then
          .ok (h.update ref fun o => o.put atom (.value v true true))
        else
          .ok h
      | none => .ok h

/-- `add_fast_array_element`: the length is an `int`. -/
def appendElement (v : JSValue) (o : JSObject) : JSObject :=
  match o.u with
  | .array values =>
    { o.put atomLength (.value (jsNewInt32 (Int32.ofNat (values.length + 1))) false true) with
      u := .array (values ++ [v]) }
  | _ => o

/-- `JS_SetPropertyUint32` on an array, at its end or before. No prototype of an
    array has elements. The index of an element is an `int`; further elements
    would need more property slots than an object has. -/
def setPropertyUint32 (h : Heap) (ref idx : ℕ) (v : JSValue) : Heap :=
  h.update ref fun o =>
    match o.u with
    | .array values =>
      if idx < values.length then
        { o with u := .array (values.set idx v) }
      else if idx = values.length ∧ idx ≤ 2 ^ 31 - 1 ∧ o.extensible then
        appendElement v o
      else
        o
    | _ => o

/-- `JS_IsInstanceOf` with the constructor `Date`: a walk up the prototypes. -/
def isInstanceOfDate (h : Heap) (ref : ℕ) : Bool := h.dateProto ∈ (h.protoChain ref).tail

/-- Whether an object has a class, for `JS_IsArray`, `JS_IsFunction` and
    `JS_IsError`. -/
def hasClass (h : Heap) (classes : List ℕ) : JSValue → Bool
  | .object ref =>
    match h.objects[ref]? with
    | some o => o.classID ∈ classes
    | none => false
  | _ => false

def isArray (h : Heap) (v : JSValue) : Bool := h.hasClass [jsClassArray] v

def isFunction (h : Heap) (v : JSValue) : Bool := h.hasClass callableClasses v

def isError (h : Heap) (v : JSValue) : Bool := h.hasClass [jsClassError] v

/-- `JS_GetOwnPropertyNames` with `JS_GPN_ENUM_ONLY | JS_GPN_STRING_MASK`. The
    engine lists numbers first. The list is only read into a dictionary, where the
    order matters between equivalent keys, and a number is equivalent to no other. -/
def ownPropertyNames (h : Heap) (ref : ℕ) : List Atom :=
  match h.objects[ref]? with
  | none => []
  | some o =>
    (match o.u with
      | .array values => (List.range values.length).map Atom.index
      | _ => []) ++ (o.properties.filter fun p => Property.isEnumerable p.2).map Prod.fst

end Heap

end Substrata
