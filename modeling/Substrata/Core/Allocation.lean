import Substrata.Core.Engine
import Substrata.Core.Native

/-!
# IDs on several threads

Threads that hand out IDs and register exports under them. The four allocators, the five
`addExport`s and the `findExport`s each take `exportLock` for themselves, so each is one
step, and other threads may come in between an allocation and the registration that belongs
to it.

In between the two the same thread may do more of the same: `JS_SetPropertyStr` runs a
setter if a script has put one in its way, and the setter may call native code that exports.
So an ID is in flight while other code of the thread runs, and `Issuing` nests. What native
code does with the engine leaves no trace here.

`issued` records the IDs that were handed out, and `ignored` that an entry was already there
when one was added; nothing in the code reads them.

## Main definitions

* `Issuing`: What a thread does with IDs and tables.
* `exportFunction`, `exportType`, `typedConstruct`: The code of the exports.
* `Allocation`: A context and the threads that use it.
* `Allocation.step`: One step of a thread.
-/

namespace Substrata

variable {ι Fn Get Set : Type}

/-- The callback that finds an export. -/
def Export.callback : Export Fn Get Set → Callback
  | .function _ => .typedCall
  | .method _ => .typedInstanceMethod
  | .constructor .. => .typedConstruct
  | .getter _ => .typedGetter
  | .setter _ => .typedSetter

/-- An export under an ID. -/
def Export.entry (id : Int32) : Export Fn Get Set → Entry Fn Get Set
  | .function value => .function id value
  | .method name => .method id name
  | .constructor name type classID =>
    .constructor id { name := name, type := type, classID := classID }
  | .getter value => .getter id value
  | .setter value => .setter id value

/-- `newContextClassID`, `newContextFunctionID`, `newMethodID` and `newPropertyID`. -/
def JSContext.newID (c : JSContext Fn Get Set) :
    Counter → Option (Int32 × JSContext Fn Get Set)
  | .classCounter => c.newContextClassID
  | .functionCounter => c.newContextFunctionID
  | .methodCounter => c.newMethodID
  | .propertyCounter => c.newPropertyID

/-- What a thread does with IDs and tables: nothing more, an export with what runs before it
    is registered, or a lookup. -/
inductive Issuing (Fn Get Set : Type)
  | done
  | register (value : Export Fn Get Set) (meanwhile next : Issuing Fn Get Set)
  | find (callback : Callback) (id : Int32)
      (next : Option (Export Fn Get Set) → Issuing Fn Get Set)

namespace Issuing

/-- One after the other. -/
def andThen : Issuing Fn Get Set → Issuing Fn Get Set → Issuing Fn Get Set
  | .done, k => k
  | .register value meanwhile next, k => .register value meanwhile (next.andThen k)
  | .find callback id next, k => .find callback id fun found => (next found).andThen k

/-- `export(name:function:)`. Scripts may run when the property is set. -/
def exportFunction (function : Fn) (scripts : Issuing Fn Get Set) : Issuing Fn Get Set :=
  .register (.function function) scripts .done

/-- The loop over the methods of a dummy instance. -/
def exportMethods (methods : List (CName × Issuing Fn Get Set)) (next : Issuing Fn Get Set) :
    Issuing Fn Get Set :=
  methods.foldr (fun method next => .register (.method method.1) method.2 next) next

/-- The loop over the static methods, which are registered before they are set. -/
def exportStatics (methods : List (Fn × Issuing Fn Get Set)) (next : Issuing Fn Get Set) :
    Issuing Fn Get Set :=
  methods.foldr (fun method next => .register (.function method.1) .done (method.2.andThen next))
    next

/-- The getter of a property, and the setter if it has one. -/
def exportProperty (property : JSProperty Get Set) (next : Issuing Fn Get Set) :
    Issuing Fn Get Set :=
  .register (.getter property.getter) .done <|
    match property.setter with
    | none => next
    | some setter => .register (.setter setter) .done next

/-- The loops over properties. -/
def exportProperties (properties : List (JSProperty Get Set × Issuing Fn Get Set))
    (next : Issuing Fn Get Set) : Issuing Fn Get Set :=
  properties.foldr (fun property next => exportProperty property.1 (property.2.andThen next)) next

/-- `export(type:className:)`, with what runs when the constructor has been registered and
    when the static tables are read. -/
def exportType (info : JSClassInfo) (installed staticInit : Issuing Fn Get Set)
    (methods : List (CName × Issuing Fn Get Set)) (statics : List (Fn × Issuing Fn Get Set))
    (properties : List (JSProperty Get Set × Issuing Fn Get Set)) : Issuing Fn Get Set :=
  .register info.toExport .done <| installed.andThen <| exportMethods methods <|
    staticInit.andThen <| exportStatics statics <| exportProperties properties .done

/-- `typedConstruct`, with what runs until the properties are set up. -/
def typedConstruct (magic : Int32) (constructs : Issuing Fn Get Set)
    (properties : List (JSProperty Get Set × Issuing Fn Get Set)) : Issuing Fn Get Set :=
  .find .typedConstruct magic fun found =>
    match found with
    | none => .done
    | some _ => constructs.andThen (exportProperties properties .done)

end Issuing

/-- An ID that has been handed out for an export, and what comes after. -/
structure Flight (Fn Get Set : Type) where
  value : Export Fn Get Set
  id : Int32
  next : Issuing Fn Get Set

/-- The counter with the ID that it handed out. -/
def Flight.key (flight : Flight Fn Get Set) : Counter × Int32 :=
  (flight.value.callback.counter, flight.id)

structure Worker (Fn Get Set : Type) where
  code : Issuing Fn Get Set
  flights : List (Flight Fn Get Set) := []

/-- A context and the threads that use it. -/
structure Allocation (ι Fn Get Set : Type) where
  context : JSContext Fn Get Set
  workers : ι → Worker Fn Get Set
  issued : List (Counter × Int32) := []
  ignored : Bool := false

namespace Allocation

variable [DecidableEq ι]

def setWorker (i : ι) (worker : Worker Fn Get Set) (s : Allocation ι Fn Get Set) :
    Allocation ι Fn Get Set :=
  { s with workers := Function.update s.workers i worker }

/-- One step of a thread: an allocation, a lookup, or a registration. -/
def step (s : Allocation ι Fn Get Set) (i : ι) : Option (Allocation ι Fn Get Set) :=
  let flights := (s.workers i).flights
  match (s.workers i).code with
  | .register value meanwhile next => do
    let (id, c) ← s.context.newID value.callback.counter
    let flight := { value := value, id := id, next := next }
    some { s.setWorker i { code := meanwhile, flights := flight :: flights } with
      context := c
      issued := s.issued ++ [flight.key] }
  | .find callback id next =>
    some (s.setWorker i { code := next (s.context.findExport callback id), flights := flights })
  | .done =>
    match flights with
    | [] => none
    | flight :: flights =>
      some { s.setWorker i { code := flight.next, flights := flights } with
        context := s.context.addExport (flight.value.entry flight.id)
        ignored := s.ignored ||
          (s.context.findExport flight.value.callback flight.id).isSome }

def Step (s : Allocation ι Fn Get Set) (i : ι) (s' : Allocation ι Fn Get Set) : Prop :=
  s.step i = some s'

/-- A new context, and threads at the beginning of their code. -/
def start (code : ι → Issuing Fn Get Set) : Allocation ι Fn Get Set where
  context := {}
  workers i := { code := code i }

end Allocation

end Substrata
