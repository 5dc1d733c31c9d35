import Substrata.Basis.Dict
import Substrata.Core.CFunction

/-!
# The context: IDs and export tables

`JSContext` as far as it keeps track of what has been exported: four counters
that hand out IDs, and five dictionaries that map IDs to what they stand for.

A counter is an `Int32`. Handing out an ID returns the counter and adds one to
it with Swift's checked addition, so the ID after `Int32.max` is a trap; a
computation that traps returns `none`.

Getters and setters of properties share one counter and have a dictionary each.
`addExport` keeps an entry that is already there, except for method names,
which it overwrites.

`findExport` is overloaded in the source, one function for each dictionary, and
each callback calls its own. Here the callback is an argument, and what is found
is an `Export`.

Every export allocates an ID and then adds an entry under it. `Registers` says
what the two together do, whatever the kind of export: the ID is the counter,
the counter moves on by one, and the entry is the only new one. It holds in a
context whose entries all have IDs below their counters (`Numbered`), and it
keeps a context like that.

## Main definitions

* `MetaType`: The identity of a subclass of `JSExport`.
* `JSClassInfo`: What the context knows of an exported class.
* `JSContext`: Counters and tables.
* `allocate`: Reading a counter and advancing it.
* `findExport`: The lookup a callback makes.
* `findExportClassType`: The lookup of a class by its Swift type.
* `Numbered`: Every entry has an ID that its counter has handed out.
* `Registers`: One export, as a step between two contexts.

## Theorems

* `allocate_spec`: What an ID allocation returns.
* `Registers.numbered`: An export keeps the numbering.
* `Registers.find_self`: What was exported is found.
* `Registers.find_of_some`: What was found before is still found.
* `registers_function`, `registers_method`, `registers_class`,
  `registers_getter`, `registers_setter`: The five kinds of export.
* `findExportClassType_mem`: The class found is registered and has the type.
* `findExportClassType_eq_none`: No class is found when none has the type.
-/

namespace Substrata

/-- The identity of a subclass of `JSExport`: the console, which every engine
    exports, or one of the host program's. -/
inductive MetaType
  | consoleJS
  | subclass (n : ℕ)
  deriving DecidableEq, Repr

/-- A reference to an instance of a subclass of `JSExport`: its dynamic type, and
    which one of all instances made it is. -/
structure NativeRef where
  type : MetaType
  serial : ℕ
  deriving DecidableEq, Repr

/-- What the context knows of an exported class. A `JSClassInfo` is an object,
    and a write to `waitingToAttach` shows wherever it is held; the dictionary
    is the only place that holds one between two operations. -/
structure JSClassInfo where
  name : CName
  type : MetaType
  classID : ℕ
  waitingToAttach : Option NativeRef := none
  deriving DecidableEq

/-- The counters that IDs come from. -/
inductive Counter
  | classCounter
  | functionCounter
  | methodCounter
  | propertyCounter
  deriving DecidableEq, Repr

/-- The counter behind the IDs a callback is passed. -/
def Callback.counter : Callback → Counter
  | .typedCall => .functionCounter
  | .typedInstanceMethod => .methodCounter
  | .typedConstruct => .classCounter
  | .typedGetter => .propertyCounter
  | .typedSetter => .propertyCounter

/-- What is registered under an ID. A class is known by its name, its Swift type
    and its engine class. -/
inductive Export (Fn Get Set : Type)
  | function (value : Fn)
  | method (name : CName)
  | constructor (name : CName) (type : MetaType) (classID : ℕ)
  | getter (value : Get)
  | setter (value : Set)
  deriving DecidableEq

/-- What a class is known by, without the instance waiting for it. -/
def JSClassInfo.toExport {Fn Get Set : Type} (info : JSClassInfo) : Export Fn Get Set :=
  .constructor info.name info.type info.classID

/-- The counters and tables of a context. `Fn`, `Get` and `Set` are the types
    of exported functions, property getters and property setters. -/
structure JSContext (Fn Get Set : Type) where
  classCounter : Int32 := 0
  functionCounter : Int32 := 0
  methodCounter : Int32 := 0
  propertyCounter : Int32 := 0
  classes : Dict Int32 JSClassInfo := ∅
  functions : Dict Int32 Fn := ∅
  propertyGetters : Dict Int32 Get := ∅
  propertySetters : Dict Int32 Set := ∅
  methodIDs : Dict Int32 CName := ∅

/-- `let new = counter; counter += 1; return new`, with the new counter. The
    addition traps at the largest `Int32`. -/
def allocate (counter : Int32) : Option (Int32 × Int32) :=
  if counter = Int32.maxValue then none else some (counter, counter + 1)

/-- An allocation returns the counter, and leaves one more in it. -/
theorem allocate_spec {counter new next : Int32} (h : allocate counter = some (new, next)) :
    new = counter ∧ next.toInt = counter.toInt + 1 := by
  unfold allocate at h
  by_cases hmax : counter = Int32.maxValue
  · rw [if_pos hmax] at h
    exact absurd h (by simp only [reduceCtorEq, not_false_eq_true])
  · rw [if_neg hmax, Option.some.injEq, Prod.mk.injEq] at h
    refine ⟨h.1.symm, ?_⟩
    have hlt : counter.toInt < 2 ^ 31 - 1 := by
      have hle := Int32.toInt_lt counter
      have hne : counter.toInt ≠ 2 ^ 31 - 1 := fun he =>
        hmax (Int32.toInt_inj.mp (he.trans Int32.toInt_maxValue.symm))
      omega
    have hge := Int32.le_toInt counter
    rw [← h.2, Int32.toInt_add]
    exact Int.bmod_eq_of_le (by simp only [Int32.toInt_one]; omega)
      (by simp only [Int32.toInt_one]; omega)

namespace JSContext

variable {Fn Get Set : Type}

/-- The value of a counter. -/
def counter (c : JSContext Fn Get Set) : Counter → Int32
  | .classCounter => c.classCounter
  | .functionCounter => c.functionCounter
  | .methodCounter => c.methodCounter
  | .propertyCounter => c.propertyCounter

def newContextClassID (c : JSContext Fn Get Set) : Option (Int32 × JSContext Fn Get Set) :=
  (allocate c.classCounter).map fun r => (r.1, { c with classCounter := r.2 })

def newContextFunctionID (c : JSContext Fn Get Set) : Option (Int32 × JSContext Fn Get Set) :=
  (allocate c.functionCounter).map fun r => (r.1, { c with functionCounter := r.2 })

def newMethodID (c : JSContext Fn Get Set) : Option (Int32 × JSContext Fn Get Set) :=
  (allocate c.methodCounter).map fun r => (r.1, { c with methodCounter := r.2 })

def newPropertyID (c : JSContext Fn Get Set) : Option (Int32 × JSContext Fn Get Set) :=
  (allocate c.propertyCounter).map fun r => (r.1, { c with propertyCounter := r.2 })

/-- `addExport(functionID:value:)`. -/
def addExportFunction (value : Fn) (functionID : Int32) (c : JSContext Fn Get Set) :
    JSContext Fn Get Set :=
  { c with functions := c.functions.insertNew functionID value }

/-- `addExport(propertyID:value:)` for a getter. -/
def addExportGetter (value : Get) (propertyID : Int32) (c : JSContext Fn Get Set) :
    JSContext Fn Get Set :=
  { c with propertyGetters := c.propertyGetters.insertNew propertyID value }

/-- `addExport(propertyID:value:)` for a setter. -/
def addExportSetter (value : Set) (propertyID : Int32) (c : JSContext Fn Get Set) :
    JSContext Fn Get Set :=
  { c with propertySetters := c.propertySetters.insertNew propertyID value }

/-- `addExport(classID:value:)`. -/
def addExportClass (value : JSClassInfo) (classID : Int32) (c : JSContext Fn Get Set) :
    JSContext Fn Get Set :=
  { c with classes := c.classes.insertNew classID value }

/-- `addExport(methodID:name:)`, the one that overwrites. -/
def addExportMethod (name : CName) (methodID : Int32) (c : JSContext Fn Get Set) :
    JSContext Fn Get Set :=
  { c with methodIDs := c.methodIDs.insert methodID name }

/-- The `findExport` that a callback calls with the ID it is passed. -/
def findExport (c : JSContext Fn Get Set) : Callback → Int32 → Option (Export Fn Get Set)
  | .typedCall, functionID => (c.functions.lookup functionID).map .function
  | .typedInstanceMethod, methodID => (c.methodIDs.lookup methodID).map .method
  | .typedConstruct, classID => (c.classes.lookup classID).map JSClassInfo.toExport
  | .typedGetter, propertyID => (c.propertyGetters.lookup propertyID).map .getter
  | .typedSetter, propertyID => (c.propertySetters.lookup propertyID).map .setter

/-- `findExport(classType:)`: the first class of the type that the iteration
    `order` over the dictionary comes across. -/
def findExportClassType (order : List (Int32 × JSClassInfo)) (classType : MetaType) :
    Option (Int32 × JSClassInfo) :=
  (order.filter fun found => found.2.type = classType).head?

/-- `classInfo.waitingToAttach = instance`, for the class registered under an
    ID. -/
def setWaitingToAttach (classID : Int32) (instance? : Option NativeRef)
    (c : JSContext Fn Get Set) : JSContext Fn Get Set :=
  match c.classes.lookup classID with
  | none => c
  | some info =>
      { c with classes := c.classes.insert classID { info with waitingToAttach := instance? } }

theorem findExportClassType_mem {c : JSContext Fn Get Set} {order : List (Int32 × JSClassInfo)}
    (horder : c.classes.Enumerates order) {classType : MetaType} {found : Int32 × JSClassInfo}
    (h : findExportClassType order classType = some found) :
    c.classes.lookup found.1 = some found.2 ∧ found.2.type = classType := by
  have hmem := List.mem_of_head? h
  rw [List.mem_filter] at hmem
  exact ⟨(horder.2 _ _).mp hmem.1, of_decide_eq_true hmem.2⟩

theorem findExportClassType_eq_none {c : JSContext Fn Get Set}
    {order : List (Int32 × JSClassInfo)} (horder : c.classes.Enumerates order)
    {classType : MetaType} (h : findExportClassType order classType = none)
    (classID : Int32) (info : JSClassInfo) (hinfo : c.classes.lookup classID = some info) :
    info.type ≠ classType := by
  intro htype
  have hmem : (classID, info) ∈ order.filter fun found => found.2.type = classType :=
    List.mem_filter.mpr ⟨(horder.2 _ _).mpr hinfo, decide_eq_true htype⟩
  rw [List.head?_eq_none_iff.mp h] at hmem
  exact absurd hmem (List.not_mem_nil)

/-- Every entry has an ID that its counter has handed out. -/
structure Numbered (c : JSContext Fn Get Set) : Prop where
  nonneg : ∀ k, 0 ≤ (c.counter k).toInt
  below : ∀ callback id value, c.findExport callback id = some value →
    0 ≤ id.toInt ∧ id.toInt < (c.counter callback.counter).toInt

/-- One export for a callback, from a context to another: a fresh ID, and an
    entry under it. -/
structure Registers (callback : Callback) (value : Export Fn Get Set) (c : JSContext Fn Get Set)
    (id : Int32) (c' : JSContext Fn Get Set) : Prop where
  id_eq : id = c.counter callback.counter
  counter : ∀ k, (c'.counter k).toInt
    = (c.counter k).toInt + if k = callback.counter then 1 else 0
  find : ∀ k i, c'.findExport k i = if k = callback ∧ i = id then some value else c.findExport k i

/-- The next ID has no entry yet. -/
theorem Numbered.findExport_counter {c : JSContext Fn Get Set} (hc : c.Numbered)
    (callback : Callback) : c.findExport callback (c.counter callback.counter) = none := by
  cases hfind : c.findExport callback (c.counter callback.counter) with
  | none => rfl
  | some value => exact absurd (hc.below _ _ _ hfind).2 (lt_irrefl _)

/-- A context with nothing in it. -/
theorem numbered_empty : ({} : JSContext Fn Get Set).Numbered where
  nonneg k := by cases k <;> exact le_refl _
  below callback id value h := by
    cases callback <;>
      exact absurd h (by simp only [findExport, Finmap.lookup_empty, Option.map_none,
        reduceCtorEq, not_false_eq_true])

namespace Registers

variable {callback : Callback} {value : Export Fn Get Set} {c c' : JSContext Fn Get Set}
  {id : Int32}

theorem find_self (h : Registers callback value c id c') :
    c'.findExport callback id = some value := by
  rw [h.find, if_pos ⟨rfl, rfl⟩]

/-- The entries that were there stay as they are. -/
theorem find_of_some (h : Registers callback value c id c') (hc : c.Numbered) {k : Callback}
    {i : Int32} {v : Export Fn Get Set} (hv : c.findExport k i = some v) :
    c'.findExport k i = some v := by
  rw [h.find, if_neg, hv]
  rintro ⟨rfl, rfl⟩
  rw [h.id_eq, hc.findExport_counter] at hv
  exact absurd hv (by simp only [reduceCtorEq, not_false_eq_true])

theorem id_nonneg (h : Registers callback value c id c') (hc : c.Numbered) : 0 ≤ id.toInt := by
  rw [h.id_eq]
  exact hc.nonneg _

theorem counter_le (h : Registers callback value c id c') (k : Counter) :
    (c.counter k).toInt ≤ (c'.counter k).toInt := by
  rw [h.counter]
  by_cases hk : k = callback.counter
  · rw [if_pos hk]; omega
  · rw [if_neg hk]; omega

theorem numbered (h : Registers callback value c id c') (hc : c.Numbered) : c'.Numbered where
  nonneg k := (hc.nonneg k).trans (h.counter_le k)
  below k i v hv := by
    rw [h.find] at hv
    by_cases hk : k = callback ∧ i = id
    · rcases hk with ⟨rfl, rfl⟩
      refine ⟨h.id_nonneg hc, ?_⟩
      rw [h.counter, if_pos rfl, h.id_eq]
      omega
    · rw [if_neg hk] at hv
      have hbelow := hc.below k i v hv
      exact ⟨hbelow.1, hbelow.2.trans_le (h.counter_le _)⟩

end Registers

/-! ### The five kinds of export -/

/-- An allocation and an insertion, for one counter and one table. -/
theorem registers_of {callback : Callback} {value : Export Fn Get Set}
    {c c' : JSContext Fn Get Set} {id next : Int32}
    (halloc : allocate (c.counter callback.counter) = some (id, next))
    (hcounter : ∀ k, c'.counter k = if k = callback.counter then next else c.counter k)
    (hfind : ∀ k i, c'.findExport k i
      = if k = callback ∧ i = id then some value else c.findExport k i) :
    Registers callback value c id c' where
  id_eq := (allocate_spec halloc).1
  counter k := by
    rw [hcounter]
    by_cases hk : k = callback.counter
    · rw [if_pos hk, if_pos hk, (allocate_spec halloc).2, hk]
    · rw [if_neg hk, if_neg hk, add_zero]
  find := hfind

/-- The table that gets a new entry. -/
theorem map_lookup_insertNew {ν : Type} {d : Dict Int32 ν} {id : Int32} (f : ν → Export Fn Get Set)
    (hnone : (d.lookup id).map f = none) (i : Int32) (v : ν) :
    ((d.insertNew id v).lookup i).map f = if i = id then some (f v) else (d.lookup i).map f := by
  rw [Dict.lookup_insertNew_of_none (Option.map_eq_none_iff.mp hnone)]
  by_cases hi : i = id
  · rw [if_pos hi, if_pos hi, Option.map_some]
  · rw [if_neg hi, if_neg hi]

/-- An ID that has just been handed out has no entry. -/
theorem Numbered.findExport_new {c : JSContext Fn Get Set} (hc : c.Numbered)
    (callback : Callback) {id next : Int32}
    (halloc : allocate (c.counter callback.counter) = some (id, next)) :
    c.findExport callback id = none := by
  rw [(allocate_spec halloc).1]
  exact hc.findExport_counter callback

theorem registers_function {c c1 : JSContext Fn Get Set} {id : Int32} (hc : c.Numbered)
    (h : c.newContextFunctionID = some (id, c1)) (value : Fn) :
    Registers .typedCall (.function value) c id (c1.addExportFunction value id) := by
  rcases Option.map_eq_some_iff.mp h with ⟨⟨new, next⟩, halloc, heq⟩
  rcases Prod.mk.inj heq with ⟨rfl, rfl⟩
  refine registers_of halloc (fun k => by cases k <;> rfl) (fun k i => ?_)
  cases k <;> simp only [findExport, addExportFunction, reduceCtorEq, false_and, if_false,
    true_and]
  exact map_lookup_insertNew .function (hc.findExport_new .typedCall halloc) i value

theorem registers_getter {c c1 : JSContext Fn Get Set} {id : Int32} (hc : c.Numbered)
    (h : c.newPropertyID = some (id, c1)) (value : Get) :
    Registers .typedGetter (.getter value) c id (c1.addExportGetter value id) := by
  rcases Option.map_eq_some_iff.mp h with ⟨⟨new, next⟩, halloc, heq⟩
  rcases Prod.mk.inj heq with ⟨rfl, rfl⟩
  refine registers_of halloc (fun k => by cases k <;> rfl) (fun k i => ?_)
  cases k <;> simp only [findExport, addExportGetter, reduceCtorEq, false_and, if_false,
    true_and]
  exact map_lookup_insertNew .getter (hc.findExport_new .typedGetter halloc) i value

theorem registers_setter {c c1 : JSContext Fn Get Set} {id : Int32} (hc : c.Numbered)
    (h : c.newPropertyID = some (id, c1)) (value : Set) :
    Registers .typedSetter (.setter value) c id (c1.addExportSetter value id) := by
  rcases Option.map_eq_some_iff.mp h with ⟨⟨new, next⟩, halloc, heq⟩
  rcases Prod.mk.inj heq with ⟨rfl, rfl⟩
  refine registers_of halloc (fun k => by cases k <;> rfl) (fun k i => ?_)
  cases k <;> simp only [findExport, addExportSetter, reduceCtorEq, false_and, if_false,
    true_and]
  exact map_lookup_insertNew .setter (hc.findExport_new .typedSetter halloc) i value

theorem registers_class {c c1 : JSContext Fn Get Set} {id : Int32} (hc : c.Numbered)
    (h : c.newContextClassID = some (id, c1)) (value : JSClassInfo) :
    Registers .typedConstruct value.toExport c id (c1.addExportClass value id) := by
  rcases Option.map_eq_some_iff.mp h with ⟨⟨new, next⟩, halloc, heq⟩
  rcases Prod.mk.inj heq with ⟨rfl, rfl⟩
  refine registers_of halloc (fun k => by cases k <;> rfl) (fun k i => ?_)
  cases k <;> simp only [findExport, addExportClass, reduceCtorEq, false_and, if_false,
    true_and]
  exact map_lookup_insertNew _ (hc.findExport_new .typedConstruct halloc) i value

theorem registers_method {c c1 : JSContext Fn Get Set} {id : Int32}
    (h : c.newMethodID = some (id, c1)) (name : CName) :
    Registers .typedInstanceMethod (.method name) c id (c1.addExportMethod name id) := by
  rcases Option.map_eq_some_iff.mp h with ⟨⟨new, next⟩, halloc, heq⟩
  rcases Prod.mk.inj heq with ⟨rfl, rfl⟩
  refine registers_of halloc (fun k => by cases k <;> rfl) (fun k i => ?_)
  cases k <;> simp only [findExport, addExportMethod, reduceCtorEq, false_and, if_false,
    true_and]
  rw [Dict.lookup_insert]
  by_cases hi : i = new
  · rw [if_pos hi, if_pos hi, Option.map_some]
  · rw [if_neg hi, if_neg hi]

end JSContext

end Substrata
