import Substrata.Core.Instances
import Substrata.Core.Scripted

/-!
# Constructing an instance

`typedConstruct` between the arguments of a script and the object that it gets back.

The arguments come from a script: from the call itself, or from the constructors of
subclasses, each of which hands some up with `super(…)`. What those constructors do, and
what the decoding of an argument runs, is up to scripts, so both are computations over the
state that native code and scripts share. From there on native code is by itself: it makes
an object, leaves an info and the class ID in it, and has the instance construct itself.

An instance that throws leaves the object to the collector, which has no finalizer for it.
The info is deallocated, and an error object with the description becomes the pending
exception. Otherwise the exported properties become accessors of the object.

## Main definitions

* `Stage`: What native code and scripts share.
* `Constructions`: How native instances behave.
* `jsArgsToTypes`: The arguments of a call.
* `superArgs`: The arguments that arrive at the exported constructor.
* `Stage.contextThrowError`: `throwError`.
* `Stage.typedConstruct`: `typedConstruct`, once the arguments are decoded.
* `construct`: `new` on an exported constructor or one of its subclasses.
-/

namespace Substrata

/-- An engine with the heap of its context, and the infos of the instances that were made.
    `classProto` is the array `class_proto`, `serial` counts the native instances, and
    `exception` is the exception that is pending. -/
structure Stage (Fn Get Set : Type) where
  engine : Engine Fn Get Set
  heap : Heap
  classProto : ℕ → Option ℕ
  infos : List InstanceInfo := []
  serial : ℕ := 0
  exception : Option JSValue := none

/-- How native instances behave: the properties each exports, and the
    `localizedDescription` of what `construct(args:)` throws. -/
structure Constructions (Get Set : Type) where
  exportedProperties : NativeRef → List (CName × JSProperty Get Set)
  construct : NativeRef → List JSConvertible → Option String

variable {Fn Get Set : Type}

/-- `jsArgsToTypes`. An argument without a value is `NSNull`. -/
def jsArgsToTypes {σ : Type} (replies : Replies σ) (ext : Externals) (context fuel : ℕ)
    (argv : List JSValue) : Conversion σ (List JSConvertible) :=
  argv.mapM fun v => do
    return (← replies.toJSConvertible ext context fuel v).getD .nsNull

/-- The constructors of subclasses from the outermost on: each makes of its arguments those
    that it hands to `super`. One that the class does not write hands on what it got. -/
def superArgs {σ : Type} (levels : List (List JSValue → Conversion σ (List JSValue)))
    (argv : List JSValue) : Conversion σ (List JSValue) :=
  levels.foldlM (fun argv level => level argv) argv

def atomPrototype : Atom := jsNewAtom "prototype"

namespace Stage

/-- The prototype of an instance: what `prototype` of the new target reads as, if that is an
    object. There is one realm. -/
def instanceProto (classID : ℕ) (s : Stage Fn Get Set) : JSValue → Option ℕ
  | .object p => some p
  | _ => s.classProto classID

/-- `js_create_from_ctor`. -/
def jsCreateFromCtor (newTarget classID : ℕ) (s : Stage Fn Get Set) :
    Outcome (ℕ × Stage Fn Get Set) :=
  match s.heap.getProperty newTarget atomPrototype with
  | .error stop => .error stop
  | .ok v =>
    let made := s.heap.allocate { classID := classID, proto := s.instanceProto classID v }
    .ok (made.2, { s with heap := made.1 })

/-- `JS_SetOpaque` with a new info, and `__instanceAtom`. -/
def attachInfo (result : ℕ) (classType : JSClassInfo) (instance? : NativeRef)
    (s : Stage Fn Get Set) : Outcome (Stage Fn Get Set) :=
  let attached := s.heap.update result fun o => { o with u := .pointer (some s.infos.length) }
  match attached.setProperty result instanceAtom (jsNewInt32 (Int32.ofNat classType.classID)) with
  | .error stop => .error stop
  | .ok h =>
    .ok { s with
      heap := h
      infos := s.infos ++ [⟨instance?, result, classType.waitingToAttach.isNone, false⟩] }

/-- The object, the instance and the info, before the instance is constructed. -/
def makeInstance (newTarget : ℕ) (classType : JSClassInfo) (s : Stage Fn Get Set) :
    Outcome (ℕ × NativeRef × Stage Fn Get Set) :=
  match s.jsCreateFromCtor newTarget classType.classID with
  | .error stop => .error stop
  | .ok (result, s') =>
    let instance? := classType.waitingToAttach.getD ⟨classType.type, s.serial⟩
    match { s' with serial := s.serial + 1 }.attachInfo result classType instance? with
    | .error stop => .error stop
    | .ok s'' => .ok (result, instance?, s'')

/-- `throwError`, on the description of the error. -/
def contextThrowError (localizedDescription : String) (s : Stage Fn Get Set) :
    Outcome (JSValue × Stage Fn Get Set) :=
  match JSConvertible.toJSValue
      (.jsError (some "Native Code Exception") (some localizedDescription) none none) s.heap with
  | .error stop => .error stop
  | .ok (errorValue, h) =>
    match errorValue with
    | some v => .ok (.exception, { s with heap := h, exception := some v })
    | none =>
      .ok (.exception,
        { s with heap := h.newError.1, exception := some (.object h.newError.2) })

/-- `construct(args:)` has returned. -/
def constructed (n : ℕ) (s : Stage Fn Get Set) : Stage Fn Get Set :=
  { s with infos := s.infos.modify n fun info => { info with constructing := false } }

/-- `ptr.deallocate()`. -/
def deallocate (n : ℕ) (s : Stage Fn Get Set) : Stage Fn Get Set :=
  { s with
    infos := s.infos.modify n fun info =>
      { info with constructing := false, deallocated := true } }

/-- One turn of the loop over the exported properties. The function objects behind an
    accessor are among those that the engine has built. -/
def defineExported (result : ℕ) (s : Stage Fn Get Set) (property : CName × JSProperty Get Set) :
    Outcome (Stage Fn Get Set) :=
  match s.engine.exportProperty property with
  | none => .error .trap
  | some e =>
    .ok { s with
      engine := e
      heap := s.heap.update result fun o =>
        o.put (jsNewAtom property.1.1) (.getSet .script false) }

/-- `typedConstruct` on decoded arguments, called with `magic`. -/
def typedConstruct (natives : Constructions Get Set) (magic : Int32) (newTarget : ℕ)
    (args : List JSConvertible) (s : Stage Fn Get Set) : Outcome (JSValue × Stage Fn Get Set) :=
  match s.engine.context.classes.lookup magic with
  | none => .ok (jsUndefined, s)
  | some classType =>
    match s.makeInstance newTarget classType with
    | .error stop => .error stop
    | .ok (result, instance?, s') =>
      -- an instance that waited is not constructed
      match if classType.waitingToAttach = none then natives.construct instance? args else none with
      | some localizedDescription =>
        (s'.deallocate s.infos.length).contextThrowError localizedDescription
      | none =>
        match (natives.exportedProperties instance?).foldlM (defineExported result)
            (s'.constructed s.infos.length) with
        | .error stop => .error stop
        | .ok s'' => .ok (.object result, s'')

end Stage

/-- `new` on the exported constructor that is called with `magic`, or on one of its
    subclasses, whose constructors are `levels`. -/
def construct (replies : Replies (Stage Fn Get Set)) (ext : Externals) (context : ℕ)
    (natives : Constructions Get Set) (levels : List (List JSValue →
      Conversion (Stage Fn Get Set) (List JSValue)))
    (magic : Int32) (newTarget : ℕ) (argv : List JSValue) (fuel : ℕ) :
    Conversion (Stage Fn Get Set) JSValue := do
  let args ← jsArgsToTypes replies ext context fuel (← superArgs levels argv)
  fun s => s.typedConstruct natives magic newTarget args

end Substrata
