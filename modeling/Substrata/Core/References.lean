import Substrata.Basis.Counting
import Substrata.Basis.Run

/-!
# References to objects

Each object of the engine has a reference count. The functions of the engine's interface
return references, duplicate them, or consume the one that they are passed, and the
callers in `Engine.swift` and `Callbacks.swift` give up what is left with
`JSValue.free`. What an operation does to the counts is a plan of effects: it pauses
where native code of an exported type or a script may run, and with it any other
operation.

What the engine decides is chosen with the operation: whether an assignment stores the
value, calls a setter or is refused, and whether a property can be defined. Scripts make
objects, and link and unlink those that exist, between these operations; the collector
only unlinks. Strings are counted as well, but nothing here keeps one.

## Main definitions

* `Slot`: What may refer to an object.
* `jsSetPropertyStr`, `jsDefineProperty` and others: The functions of the engine.
* `Operation.plan`: What an operation does to the counts.
* `References`: Counts and slots with the operations under way.
* `References.Step`: Operations, their pauses, and scripts.
-/

namespace Substrata

open Counting (Effect Ledger Office Plan)

/-- What may refer to an object. A property without an owner is one of the global
    object. -/
inductive Slot
  | property (owner : Option ℕ) (key : String)
  | getter (owner : Option ℕ) (key : String)
  | setter (owner : Option ℕ) (key : String)
  | classProto (classID : ℕ)
  -- a live `JSFunction` or `JSClass`
  | wrapper (n : ℕ)
  -- `current_exception`
  | exception
  -- what scripts keep elsewhere: bindings, closures, stacks
  | kept (n : ℕ)
  deriving DecidableEq

/-- Whether scripts write the slot. -/
def Slot.isScripted : Slot → Bool
  | .classProto _ => false
  | .wrapper _ => false
  | _ => true

/-- Effects without a pause. -/
def effects (es : List (Effect ℕ Slot)) : Plan ℕ Slot := es.map some

/-- Native code of an exported type, or a script, runs. -/
def pause : Plan ℕ Slot := [none]

/-- What becomes of a value that is assigned to a property. -/
inductive Assignment
  | stored
  -- passed to the setter of an accessor property
  | setter
  | refused (error : ℕ)

/-! ## The engine -/

/-- `JS_NewObject`, `JS_NewCFunctionMagic`, `JS_NewError`. -/
def jsNew (o : ℕ) : Plan ℕ Slot := effects [.create o]

/-- `JS_DupValue`, and the reference that `JS_GetPropertyStr` and `JS_Eval` return. -/
def jsDupValue (o : ℕ) : Plan ℕ Slot := effects [.dup o]

/-- `JS_FreeValue`. -/
def jsFreeValue (o : ℕ) : Plan ℕ Slot := effects [.release o]

/-- `JS_Throw` consumes the value. -/
def jsThrow (obj : ℕ) : Plan ℕ Slot := effects [.store .exception obj]

/-- `JS_SetPropertyStr` consumes the value. -/
def jsSetPropertyStr (thisObj : Option ℕ) (prop : String) (val : ℕ) : Assignment → Plan ℕ Slot
  | .stored => effects [.store (.property thisObj prop) val]
  | .setter => pause ++ jsFreeValue val
  | .refused error => jsFreeValue val ++ jsNew error ++ jsThrow error

/-- `JS_DefinePropertyValueStr` consumes the value: `JS_DefineProperty` duplicates it if
    the property can be defined, and then it is freed. -/
def jsDefinePropertyValueStr (thisObj : Option ℕ) (prop : String) (val : ℕ) (defined : Bool) :
    Plan ℕ Slot :=
  (if defined then
    effects [.clear (.getter thisObj prop), .clear (.setter thisObj prop)] ++ jsDupValue val ++
      effects [.store (.property thisObj prop) val]
  else []) ++ jsFreeValue val

/-- `JS_DefineProperty` with a getter, and a setter or none, duplicates them. -/
def jsDefineProperty (thisObj : Option ℕ) (prop : String) (getter : ℕ) (setter : Option ℕ)
    (defined : Bool) : Plan ℕ Slot :=
  if defined then
    effects [.clear (.property thisObj prop)] ++ jsDupValue getter ++
      effects [.store (.getter thisObj prop) getter] ++
      match setter with
      | some setter => jsDupValue setter ++ effects [.store (.setter thisObj prop) setter]
      | none => []
  else []

/-- `JS_SetConstructor` duplicates both. -/
def jsSetConstructor (funcObj proto : ℕ) : Plan ℕ Slot :=
  jsDupValue proto ++ jsDefinePropertyValueStr (some funcObj) "prototype" proto true ++
    jsDupValue funcObj ++ jsDefinePropertyValueStr (some proto) "constructor" funcObj true

/-- `JS_SetClassProto` consumes the value. -/
def jsSetClassProto (classID obj : ℕ) : Plan ℕ Slot :=
  effects [.store (.classProto classID) obj]

/-! ## The operations -/

/-- A method that is exported, with its function object. -/
structure MethodExport where
  key : String
  method : ℕ
  assigned : Assignment

/-- A property that is exported, with its function objects. -/
structure PropertyExport where
  key : String
  getter : ℕ
  setter : Option ℕ
  defined : Bool

/-- `JSFunction.init`. The name that it reads is a string. -/
def jsFunctionInit (value wrapper : ℕ) : Plan ℕ Slot :=
  jsDupValue value ++ effects [.store (.wrapper wrapper) value]

/-- `JSClass.init`. The name of the class is that of what `constructor` reads as, and
    anything but an instance of `Object` is wrapped. -/
def jsClassInit (value : ℕ) (const : Option ℕ) (isPlain : Bool) (wrapper : ℕ) :
    Plan ℕ Slot :=
  jsDupValue value ++
    (match const with
    | some const => jsDupValue const ++ jsFreeValue const
    | none => []) ++
    if isPlain then jsFreeValue value else effects [.store (.wrapper wrapper) value]

/-- One round of the loops over methods. -/
def MethodExport.plan (owner : ℕ) (x : MethodExport) : Plan ℕ Slot :=
  jsNew x.method ++ jsSetPropertyStr (some owner) x.key x.method x.assigned

/-- One round of the loops over properties. -/
def PropertyExport.plan (owner : ℕ) (x : PropertyExport) : Plan ℕ Slot :=
  jsNew x.getter ++ (x.setter.elim [] jsNew) ++
    jsDefineProperty (some owner) x.key x.getter x.setter x.defined ++
    jsFreeValue x.getter ++ x.setter.elim [] jsFreeValue

/-- What native code asks of the engine, and the callback behind `new`, with what the
    engine decides. Objects that the operation makes are given by their numbers. -/
inductive Operation
  /-- `export(name:function:)` of a name that is not exported. -/
  | exportFunction (name : String) (newFunction wrapper error : ℕ)
  /-- `export(type:className:)` of a name that is not exported. -/
  | exportType (className : String) (classID instanceProto constructor : ℕ)
      (exportedMethods staticMethods : List MethodExport)
      (staticProperties : List PropertyExport)
  /-- `typedConstruct`. `construct(args:)` throws an error, or the object is returned to
      a script. -/
  | typedConstruct (result : ℕ) (error : Option ℕ) (exportedProperties : List PropertyExport)
      (returned : ℕ)
  /-- `export(instance:className:as:)` from the return of `JS_Eval` with an object; the
      class was exported before, and the script was run. The slots are where the object
      and its `constructor` are found. -/
  | exportInstance (r : ℕ) (found : Slot) (const : Option (ℕ × Slot)) (isPlain : Bool)
      (wrapper : ℕ)
  /-- `deinit` of a `JSFunction` or a `JSClass`. -/
  | deinit (wrapper : ℕ)

namespace Operation

/-- What an operation does to the counts. New properties can be added to the global object
    if it is extensible. -/
def plan (extensible : Bool) : Operation → Plan ℕ Slot
  | .exportFunction name newFunction wrapper error =>
    jsNew newFunction ++
      jsSetPropertyStr none name newFunction (if extensible then .stored else .refused error) ++
      jsFunctionInit newFunction wrapper ++
      jsFreeValue newFunction
  | .exportType className classID instanceProto constructor exportedMethods staticMethods
      staticProperties =>
    jsNew instanceProto ++ jsNew constructor ++
      jsDefinePropertyValueStr none className constructor extensible ++
      jsSetConstructor constructor instanceProto ++
      -- `type.init()` and `exportedMethods`
      pause ++
      exportedMethods.flatMap (MethodExport.plan instanceProto) ++
      jsSetClassProto classID instanceProto ++
      -- `staticInit()` and the static tables
      pause ++
      staticMethods.flatMap (MethodExport.plan constructor) ++
      pause ++
      staticProperties.flatMap (PropertyExport.plan constructor)
  | .typedConstruct result error exportedProperties returned =>
    jsNew result ++
      -- a setter for `__instanceAtom`, `type.init()` and `construct(args:)`
      pause ++
      match error with
      | some error => jsFreeValue result ++ jsNew error ++ jsThrow error
      | none =>
        exportedProperties.flatMap (PropertyExport.plan result) ++
          effects [.store (.kept returned) result]
  | .exportInstance r _ const isPlain wrapper =>
    jsDupValue r ++ jsClassInit r (const.map Prod.fst) isPlain wrapper ++ jsFreeValue r
  | .deinit wrapper => effects [.clear (.wrapper wrapper)]

/-- Where an operation finds the objects that it does not make. -/
def found : Operation → List (Slot × ℕ)
  | .exportInstance r found const _ _ => (found, r) :: const.toList.map Prod.swap
  | _ => []

/-- Whether an operation keeps counts: it is not `export(name:function:)`, and a class gets
    its global property. -/
def keeps (extensible : Bool) : Operation → Bool
  | .exportFunction .. => false
  | .exportType .. => extensible
  | _ => true

end Operation

/-- The objects that a plan makes. -/
def created (es : Plan ℕ Slot) : List ℕ :=
  es.filterMap fun e => match e with
    | some (.create o) => some o
    | _ => none

/-! ## Runs -/

/-- Counts and slots with the operations under way, the number of the next object, and
    whether the global object is extensible. -/
structure References where
  office : Office ℕ Slot
  next : ℕ
  extensible : Bool

namespace References

/-- What happens. -/
inductive Event
  | operation (op : Operation)
  | resume
  | link (s : Slot) (o : ℕ) (found : Slot)
  | unlink (s : Slot)
  | make (s : Slot)
  | preventExtensions

/-- A plan begins, and what it makes is new. -/
def begin (es : Plan ℕ Slot) (s : References) : References :=
  { s with office := s.office.begin es, next := s.next + (created es).length }

/-- The operation that runs goes on. -/
def resume (s : References) : References := { s with office := s.office.resume }

/-- Operations begin while others are paused, and scripts run. -/
inductive Step : References → Event → References → Prop
  | operation {s : References} {op : Operation} :
      created (op.plan s.extensible)
        = List.range' s.next (created (op.plan s.extensible)).length →
      op.found ⊆ s.office.ledger.slots →
      Step s (.operation op) (s.begin (op.plan s.extensible))
  | resume {s : References} : Step s .resume s.resume
  /-- A script refers to an object from one more slot. -/
  | link {s : References} {slot found : Slot} {o : ℕ} :
      slot.isScripted → (found, o) ∈ s.office.ledger.slots →
      Step s (.link slot o found) (s.begin (effects [.dup o, .store slot o]))
  /-- A script, or the collector, empties a slot. -/
  | unlink {s : References} {slot : Slot} :
      slot.isScripted → Step s (.unlink slot) (s.begin (effects [.clear slot]))
  | make {s : References} {slot : Slot} :
      slot.isScripted →
      Step s (.make slot) (s.begin (effects [.create s.next, .store slot s.next]))
  | preventExtensions {s : References} :
      Step s .preventExtensions { s with extensible := false }

/-- Whether what happens keeps counts. -/
def Keeps (s : References) : Event → Prop
  | .operation op => op.keeps s.extensible
  | _ => True

/-- No object yet. -/
def start : References where
  office := { ledger := { count := fun _ => 0, slots := [], freed := [] }, underway := [] }
  next := 0
  extensible := true

end References

end Substrata
