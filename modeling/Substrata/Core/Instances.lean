import Substrata.Basis.Run
import Substrata.Core.Engine
import Substrata.Core.Heap

/-!
# Instances behind objects

`typedConstruct` allocates a `JSClassInstanceInfo` for each object it makes, and
leaves the pointer in the object with `JS_SetOpaque`. `typedInstanceMethod` takes the
pointer out of the object it is called on. The class that it asks `JS_GetOpaque` for
is what `this.__instanceAtom` converts to, an ordinary property.

The union `u` of an object begins with the opaque pointer, and with something else if
the class has another use for the union. `JS_GetOpaque` returns that first word as a
pointer, whatever it is. Which of these words are zero is the engine's affair, and a
parameter here.

Scripts change objects in any way that leaves the class alone, and the pointer of an
object whose class is not predefined. What `__instanceAtom` reads as is found in the
heap when it is a plain value; a getter, or the conversion of an object, runs a script
and may come to anything.

## Main definitions

* `InstanceInfo`: A `JSClassInstanceInfo` with the object it was made for.
* `Instances`: The heap with the infos.
* `Instances.Step`: What changes it.
* `jsGetOpaque`: The first word of an object's union.
* `Instances.Reads`: What `__instanceAtom` converts to.
* `Instances.typedInstanceMethod`: The callback behind an instance method.
-/

namespace Substrata

open Transition (Run)

/-- A `JSClassInstanceInfo` in memory: its instance, the object whose pointer it is,
    and whether it was deallocated. `constructing` tells that `construct(args:)` has
    not returned. -/
structure InstanceInfo where
  instance? : NativeRef
  object : ℕ
  constructing : Bool
  deallocated : Bool := false
  deriving DecidableEq

/-- The heap, the class IDs and the method IDs that were handed out, and the infos in
    the order of their allocation. -/
structure Instances where
  heap : Heap
  jsClassIDAlloc : ℕ
  methodIDs : Dict Int32 CName
  infos : List InstanceInfo

/-- The first word of a union as a pointer. -/
inductive OpaqueWord
  | null
  | info (n : ℕ)
  -- what the class of the object keeps there
  | other
  deriving DecidableEq

/-- `u.opaque`. `zero` tells which of the other uses of the union begin with a word that
    is zero. -/
def ObjectUnion.firstWord (zero : ObjectUnion → Bool) : ObjectUnion → OpaqueWord
  | .pointer none => .null
  | .pointer (some n) => .info n
  | u => if zero u then .null else .other

/-- `JS_GetOpaque`. -/
def jsGetOpaque (zero : ObjectUnion → Bool) (h : Heap) (obj : JSValue) (classID : ℕ) :
    OpaqueWord :=
  match obj with
  | .object ref =>
    match h.objects[ref]? with
    | none => .null
    | some o => if o.classID = classID then o.u.firstWord zero else .null
  | _ => .null

def instanceAtom : Atom := jsNewAtom "__instanceAtom"

namespace Instances

/-- What happens on the heap. -/
inductive Event
  | object (o : JSObject)
  | change (ref : ℕ) (o : JSObject)
  | exportType
  | exportMethod (methodID : Int32) (name : CName)
  | construct (classID : ℕ) (proto : Option ℕ) (instance? : NativeRef) (waiting : Bool)
  | constructed (n : ℕ)
  | threw (n : ℕ)

/-- `JS_SetOpaque` and `JS_SetProperty(result, "__instanceAtom", classID)` on a new
    object. A setter for the property that is a script runs after this, and the object
    is passed to it. -/
def makeInstance (classID : ℕ) (proto : Option ℕ) (n : ℕ) (h : Heap) : Heap :=
  let made := h.allocate { classID := classID, proto := proto, u := .pointer (some n) }
  match made.1.setProperty made.2 instanceAtom (jsNewInt32 (Int32.ofNat classID)) with
  | .ok h' => h'
  | .error _ => made.1

/-- The info at an index changes. -/
def update (n : ℕ) (f : InstanceInfo → InstanceInfo) (s : Instances) : Instances :=
  { s with infos := s.infos.modify n f }

/-- Scripts, the engine and `typedConstruct`. -/
inductive Step : Instances → Event → Instances → Prop
  /-- An object of a predefined class is made. -/
  | object {s : Instances} {o : JSObject} :
      o.classID < jsClassInitCount → (∀ n, o.u ≠ .pointer (some n)) →
      Step s (.object o) { s with heap := (s.heap.allocate o).1 }
  /-- Properties, prototype and extensibility of an object change in any way. A
      predefined class may change what it keeps in the union. -/
  | change {s : Instances} {ref : ℕ} {o o' : JSObject} :
      s.heap.objects[ref]? = some o → o'.classID = o.classID →
      (o'.u = o.u ∨ o.classID < jsClassInitCount ∧ ∀ n, o'.u ≠ .pointer (some n)) →
      Step s (.change ref o') { s with heap := s.heap.update ref fun _ => o' }
  | exportType {s : Instances} :
      Step s .exportType { s with jsClassIDAlloc := s.jsClassIDAlloc + 1 }
  | exportMethod {s : Instances} {methodID : Int32} {name : CName} :
      Step s (.exportMethod methodID name)
        { s with methodIDs := s.methodIDs.insert methodID name }
  /-- `typedConstruct` makes an object, and an info for it. An instance that waited is
      not constructed. -/
  | construct {s : Instances} {classID : ℕ} {proto : Option ℕ} {instance? : NativeRef}
      {waiting : Bool} :
      jsClassInitCount ≤ classID → classID < s.jsClassIDAlloc →
      Step s (.construct classID proto instance? waiting)
        { s with
          heap := makeInstance classID proto s.infos.length s.heap
          infos := s.infos ++ [⟨instance?, s.heap.objects.length, !waiting, false⟩] }
  | constructed {s : Instances} {n : ℕ} {info : InstanceInfo} :
      s.infos[n]? = some info → info.constructing = true →
      Step s (.constructed n) (s.update n fun info => { info with constructing := false })
  /-- `construct(args:)` throws: `ptr.deallocate()`. The object stays if anything else
      refers to it. -/
  | threw {s : Instances} {n : ℕ} {info : InstanceInfo} :
      s.infos[n]? = some info → info.constructing = true →
      Step s (.threw n)
        (s.update n fun info => { info with constructing := false, deallocated := true })

/-- A context before anything is exported to it: no object has an info. -/
def Initial (s : Instances) : Prop :=
  s.jsClassIDAlloc = jsClassInitCount ∧ s.infos = [] ∧
    ∀ o ∈ s.heap.objects, o.classID < jsClassInitCount ∧ ∀ n, o.u ≠ .pointer (some n)

/-- The states that scripts get to. -/
def Reachable : Instances → Prop := Transition.Reachable Initial Step

/-! ### `typedInstanceMethod` -/

/-- `JS_GetProperty(this, "__instanceAtom")` and `JS_ToInt32`, which leaves zero when it
    fails. Where a script runs, the number and what has become of the heap are anything. -/
inductive Reads (c : Coercions) (s : Instances) : JSValue → Int32 → Instances → Prop
  | plain {ref : ℕ} {v : JSValue} :
      s.heap.getProperty ref instanceAtom = .ok v → (∀ p, v ≠ .object p) →
      Reads c s (.object ref) ((jsToInt32Free c v).getD 0) s
  | converted {ref p : ℕ} {k : Int32} {s' : Instances} {events : List Event} :
      s.heap.getProperty ref instanceAtom = .ok (.object p) → Run Step s events s' →
      Reads c s (.object ref) k s'
  | getter {ref : ℕ} {k : Int32} {s' : Instances} {events : List Event} :
      s.heap.getProperty ref instanceAtom = .error .script → Run Step s events s' →
      Reads c s (.object ref) k s'
  /-- The property of a primitive value is found on the prototype of its class. -/
  | primitive {this : JSValue} {k : Int32} {s' : Instances} {events : List Event} :
      (∀ ref, this ≠ .object ref) → Run Step s events s' → Reads c s this k s'

/-- What comes of a call: nothing is looked at, the conversion to `JSClassID` traps, or
    the memory that a word points to is read as an info, and a method is called or
    not. -/
inductive MethodResult
  | undefined
  | trap
  | dereferenced (word : OpaqueWord) (method : Option (NativeRef × CName))
  deriving DecidableEq

/-- The rest of `typedInstanceMethod`, once the property is read. Memory that is no info
    says nothing about a method. -/
def callInstance (zero : ObjectUnion → Bool) (exportedMethods : NativeRef → List CName)
    (methodName : CName) (this : JSValue) (classID : Int32) (s : Instances) : MethodResult :=
  if classID.toInt < 0 then .trap
  else
    match jsGetOpaque zero s.heap this classID.toInt.toNat with
    | .null => .undefined
    | .other => .dereferenced .other none
    | .info n =>
      match s.infos[n]? with
      | none => .dereferenced (.info n) none
      | some info =>
        if info.deallocated = false ∧ methodName ∈ exportedMethods info.instance? then
          .dereferenced (.info n) (some (info.instance?, methodName))
        else .dereferenced (.info n) none

/-- `typedInstanceMethod`. `classID` is what the property converts to, and `s'` what the
    heap has become by then. -/
def typedInstanceMethod (zero : ObjectUnion → Bool) (exportedMethods : NativeRef → List CName)
    (this : JSValue) (magic classID : Int32) (s' s : Instances) : MethodResult :=
  match s.methodIDs.lookup magic with
  | none => .undefined
  | some methodName => callInstance zero exportedMethods methodName this classID s'

end Instances

end Substrata
