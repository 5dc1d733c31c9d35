import Substrata.Theory.Operations
import Mathlib.Tactic.Ring
import Mathlib.Tactic.NormNum

/-!
# The export tables in every reachable process

An engine is `Sound` when its tables and the function objects it built agree:
every function object was built for an ID that its counter has handed out, and
what its callback finds under that ID is what was registered for it. It is `Idle`
when no instance waits on a class.

Both hold of every engine of a reachable process. Minor changes and class
registrations keep the agreement because an ID is fresh when it is handed out and
an entry, once made, stays. `waitingToAttach` is no part of what a callback finds,
and an export of an instance clears what it sets.

What a function object passes to its callback is another matter. It is the ID
modulo `2 ^ 16`, so a function object reaches its own entry as long as its counter
has not passed `2 ^ 15`, and never afterwards.

## Main definitions

* `Built.RegisteredIn`: A function object agrees with the tables.
* `Engine.Sound`: All of them do, and the classes have all IDs handed out.
* `Engine.Idle`: No instance waits.

## Theorems

* `Sound.minors`, `Sound.registerClass`, `Sound.setWaitingToAttach`: What keeps
  the agreement.
* `sound_of_reachable`: Every engine of a reachable process is sound and idle.
* `invoke_eq_registered_iff`: Calling a function object reaches its own export
  exactly when its ID is below `2 ^ 15`.
* `exists_invoke_none`: A run after which a function object reaches nothing.
* `exists_newEngine`: The first engine of a process.
* `exportFunction_spec`: What exporting a function under a free name does.
-/

namespace Substrata

open Transition JSContext Engine

variable {Fn Get Set : Type}

/-- A function object was built for an ID, and the callback finds under it what
    was registered. Constructors are called as such. -/
structure Built.RegisteredIn (f : Built Fn Get Set) (c : JSContext Fn Get Set) : Prop where
  nonneg : 0 ≤ f.tableID.toInt
  made : ∃ name cproto,
    f.function = jsNewCFunctionMagic f.function.cFunction name 1 cproto f.tableID
  found : c.findExport f.function.cFunction f.tableID = some f.registered
  constructs : f.function.cFunction = .typedConstruct → f.function.cproto = .constructorMagic

namespace Engine

/-- The tables and the function objects agree. -/
structure Sound (e : Engine Fn Get Set) : Prop where
  numbered : e.context.Numbered
  built : ∀ f ∈ e.built, f.RegisteredIn e.context
  classes : ∀ id : Int32, 0 ≤ id.toInt →
    id.toInt < (e.context.counter .classCounter).toInt → e.context.classes.lookup id ≠ none

/-- No instance waits on a class. -/
def Idle (e : Engine Fn Get Set) : Prop :=
  ∀ id info, e.context.classes.lookup id = some info → info.waitingToAttach = none

/-! ### What keeps an engine sound -/

/-- A registration leaves the function objects registered, the new one
    included. -/
theorem registeredIn_build {e : Engine Fn Get Set} (he : e.Sound) {callback : Callback}
    {name : CName} {cproto : JSCFunctionEnum} {value : Export Fn Get Set} {id : Int32}
    {c : JSContext Fn Get Set} (hreg : Registers callback value e.context id c)
    (hcproto : callback = .typedConstruct → cproto = .constructorMagic) :
    ∀ f ∈ (e.build callback name cproto value id c).built, f.RegisteredIn c := by
  intro f hf
  rcases List.mem_append.mp hf with hold | hnew
  · have hin := he.built f hold
    exact ⟨hin.nonneg, hin.made, hreg.find_of_some he.numbered hin.found, hin.constructs⟩
  · rw [List.mem_singleton] at hnew
    subst hnew
    exact ⟨hreg.id_nonneg he.numbered, ⟨name, cproto, rfl⟩, hreg.find_self, hcproto⟩

theorem Sound.minor {e e' : Engine Fn Get Set} (he : e.Sound) (h : Minor e e') : e'.Sound := by
  have hclasses : ∀ id : Int32, 0 ≤ id.toInt →
      id.toInt < (e'.context.counter .classCounter).toInt →
      e'.context.classes.lookup id ≠ none := by
    intro id h0 hlt
    rw [h.classes_eq]
    rw [h.classCounter_eq] at hlt
    exact he.classes id h0 hlt
  refine ⟨h.numbered he.numbered, ?_, hclasses⟩
  cases h with
  | registers hne hreg _ =>
      exact registeredIn_build he hreg fun hcallback => absurd hcallback hne
  | other hc hbuilt =>
      rw [hc, hbuilt]
      exact he.built

theorem Sound.minors {e e' : Engine Fn Get Set} (he : e.Sound) (h : Minors e e') : e'.Sound := by
  induction h with
  | refl => exact he
  | tail _ hlast ih => exact ih.minor hlast

/-- Registering a class takes up the next class ID. -/
theorem Sound.registerClass {e : Engine Fn Get Set} (he : e.Sound) {info : JSClassInfo}
    {name : CName} {id : Int32} {c : JSContext Fn Get Set}
    (hreg : Registers .typedConstruct info.toExport e.context id c)
    (hclasses : c.classes = e.context.classes.insertNew id info) :
    (e.build .typedConstruct name .constructorMagic info.toExport id c).Sound := by
  refine ⟨hreg.numbered he.numbered, registeredIn_build he hreg fun _ => rfl, ?_⟩
  intro i h0 hlt
  change c.classes.lookup i ≠ none
  change i.toInt < (c.counter .classCounter).toInt at hlt
  rw [hclasses, Dict.lookup_insertNew]
  by_cases hi : i = id
  · rw [if_pos hi]
    cases e.context.classes.lookup i with
    | none => exact Option.some_ne_none _
    | some v => exact Option.some_ne_none _
  · rw [if_neg hi, Option.or_none]
    refine he.classes i h0 ?_
    -- the only new ID is the counter itself
    have hcounter := hreg.counter .classCounter
    rw [if_pos (show Counter.classCounter = Callback.typedConstruct.counter from rfl)] at hcounter
    have hne : i.toInt ≠ (e.context.counter .classCounter).toInt := by
      intro heq
      exact hi ((Int32.toInt_inj.mp heq).trans hreg.id_eq.symm)
    omega

theorem counter_setWaitingToAttach (c : JSContext Fn Get Set) (id : Int32)
    (instance? : Option NativeRef) (k : Counter) :
    (c.setWaitingToAttach id instance?).counter k = c.counter k := by
  unfold JSContext.setWaitingToAttach
  cases c.classes.lookup id with
  | none => rfl
  | some info => cases k <;> rfl

/-- A class is found under the same IDs as before. -/
theorem lookup_setWaitingToAttach (c : JSContext Fn Get Set) (id i : Int32)
    (instance? : Option NativeRef) :
    (c.setWaitingToAttach id instance?).classes.lookup i
      = (c.classes.lookup i).map fun info =>
          if i = id then { info with waitingToAttach := instance? } else info := by
  unfold JSContext.setWaitingToAttach
  cases hid : c.classes.lookup id with
  | none =>
      by_cases hi : i = id
      · subst hi
        rw [hid, Option.map_none]
      · simp only [if_neg hi, Option.map_id']
  | some info =>
      simp only [Dict.lookup_insert]
      by_cases hi : i = id
      · subst hi
        simp only [if_true, hid, Option.map_some]
      · simp only [if_neg hi, Option.map_id']

/-- A callback does not see who waits. -/
theorem findExport_setWaitingToAttach (c : JSContext Fn Get Set) (id : Int32)
    (instance? : Option NativeRef) (callback : Callback) (i : Int32) :
    (c.setWaitingToAttach id instance?).findExport callback i = c.findExport callback i := by
  have hclasses := lookup_setWaitingToAttach c id i instance?
  cases callback with
  | typedConstruct =>
      unfold findExport
      dsimp only
      rw [hclasses, Option.map_map]
      congr 1
      funext info
      by_cases hi : i = id
      · simp only [Function.comp_apply, if_pos hi, JSClassInfo.toExport]
      · simp only [Function.comp_apply, if_neg hi]
  | typedCall => unfold JSContext.setWaitingToAttach; cases c.classes.lookup id <;> rfl
  | typedInstanceMethod => unfold JSContext.setWaitingToAttach; cases c.classes.lookup id <;> rfl
  | typedGetter => unfold JSContext.setWaitingToAttach; cases c.classes.lookup id <;> rfl
  | typedSetter => unfold JSContext.setWaitingToAttach; cases c.classes.lookup id <;> rfl

theorem Sound.setWaitingToAttach {e : Engine Fn Get Set} (he : e.Sound) (id : Int32)
    (instance? : Option NativeRef) :
    ({ e with context := e.context.setWaitingToAttach id instance? } : Engine Fn Get Set).Sound where
  numbered := by
    constructor
    · intro k
      rw [counter_setWaitingToAttach]
      exact he.numbered.nonneg k
    · intro callback i value hvalue
      rw [findExport_setWaitingToAttach] at hvalue
      rw [counter_setWaitingToAttach]
      exact he.numbered.below callback i value hvalue
  built f hf := by
    have hin := he.built f hf
    refine ⟨hin.nonneg, hin.made, ?_, hin.constructs⟩
    rw [findExport_setWaitingToAttach]
    exact hin.found
  classes i h0 hlt := by
    rw [counter_setWaitingToAttach] at hlt
    rw [lookup_setWaitingToAttach]
    intro hnone
    exact he.classes i h0 hlt (Option.map_eq_none_iff.mp hnone)

/-! ### The operations -/

/-- Nothing waits on a class that has just been registered. -/
theorem Idle.registerClass {e : Engine Fn Get Set} (he : e.Idle) {info : JSClassInfo} {id : Int32}
    {c : JSContext Fn Get Set} (hclasses : c.classes = e.context.classes.insertNew id info)
    (hinfo : info.waitingToAttach = none) (i : Int32) (found : JSClassInfo)
    (hfound : c.classes.lookup i = some found) : found.waitingToAttach = none := by
  rw [hclasses, Dict.lookup_insertNew] at hfound
  rcases Option.or_eq_some_iff.mp hfound with hold | ⟨_, hnew⟩
  · exact he i found hold
  · by_cases hi : i = id
    · rw [if_pos hi] at hnew
      cases hnew
      exact hinfo
    · rw [if_neg hi] at hnew
      cases hnew

theorem sound_exportType {e e' : Engine Fn Get Set} (he : e.Sound ∧ e.Idle) {type : MetaType}
    {className : CName} {x : TypeExports Fn Get Set}
    (h : e.exportType type className x = some e') : e'.Sound ∧ e'.Idle := by
  rcases exportType_cases he.1.numbered h with ⟨_, rfl⟩ | ⟨_, id, c, info, rfl, hreg, hclasses, hrest⟩
  · exact he
  · refine ⟨(he.1.registerClass hreg hclasses).minors hrest, ?_⟩
    intro i found hfound
    rw [hrest.classes_eq] at hfound
    exact he.2.registerClass hclasses rfl i found hfound

theorem sound_minors {e e' : Engine Fn Get Set} (he : e.Sound ∧ e.Idle) (h : Minors e e') :
    e'.Sound ∧ e'.Idle := by
  refine ⟨he.1.minors h, ?_⟩
  intro id info hinfo
  rw [h.classes_eq] at hinfo
  exact he.2 id info hinfo

theorem sound_ensureExported {e e' : Engine Fn Get Set} (he : e.Sound ∧ e.Idle)
    {type : MetaType} {className : CName} {x : TypeExports Fn Get Set}
    (h : e.ensureExported type className x = some e') : e'.Sound ∧ e'.Idle := by
  unfold ensureExported at h
  by_cases hname : e.env.isExported className
  · rw [if_pos hname] at h
    cases h
    exact he
  · rw [if_neg hname] at h
    exact sound_exportType he h

/-- The instance that waited is taken off the class again. -/
theorem sound_attachInstance {e e' : Engine Fn Get Set} (he : e.Sound ∧ e.Idle)
    {order : List (Int32 × JSClassInfo)} {instance? : NativeRef} {className variableName : CName}
    {natives : Natives Get Set} {fresh : ℕ} {foreign result : Option ScriptValue}
    (h : e.attachInstance order instance? className variableName natives fresh foreign
      = some (e', result)) : e'.Sound ∧ e'.Idle := by
  rcases attachInstance_cases h with ⟨_, rfl, _⟩ | ⟨id, info, e1, r, _, heval, _, rfl⟩
  · exact he
  · have hwait := he.1.setWaitingToAttach id (some instance?)
    have hminors := evaluateLetNew_minor hwait.numbered heval
    refine ⟨(hwait.minors hminors).setWaitingToAttach id none, ?_⟩
    intro i found hfound
    dsimp only at hfound
    rw [lookup_setWaitingToAttach, hminors.classes_eq, lookup_setWaitingToAttach,
      Option.map_map] at hfound
    rcases Option.map_eq_some_iff.mp hfound with ⟨info', hinfo', rfl⟩
    by_cases hi : i = id
    · simp only [Function.comp_apply, if_pos hi]
    · simp only [Function.comp_apply, if_neg hi]
      exact he.2 i info' hinfo'

/-- A new engine, before the console is exported. -/
theorem sound_initial : ({ env := .initial } : Engine Fn Get Set).Sound ∧
    ({ env := .initial } : Engine Fn Get Set).Idle := by
  refine ⟨⟨numbered_empty, ?_, ?_⟩, ?_⟩
  · intro f hf
    exact absurd hf List.not_mem_nil
  · intro id h0 hlt
    have hzero : (({} : JSContext Fn Get Set).counter .classCounter).toInt = 0 := rfl
    rw [hzero] at hlt
    omega
  · intro id info hinfo
    rw [Finmap.lookup_empty] at hinfo
    cases hinfo

end Engine

namespace Process

open Engine

/-- An operation on one engine keeps what holds of all engines. -/
theorem forall_mem_set {P : Engine Fn Get Set → Prop} {l : List (Engine Fn Get Set)} {k : ℕ}
    {e e' : Engine Fn Get Set} (hl : ∀ a ∈ l, P a) (hk : l[k]? = some e) (h : P e → P e') :
    ∀ a ∈ l.set k e', P a := by
  intro a ha
  rcases List.mem_or_eq_of_mem_set ha with hold | rfl
  · exact hl a hold
  · exact h (hl e (List.mem_of_getElem? hk))

theorem sound_step {program : Program Fn Get Set} {p p' : Process Fn Get Set}
    {a : Action Fn Get Set} (hp : ∀ e ∈ p.engines, e.Sound ∧ e.Idle)
    (h : Step program p a p') : ∀ e ∈ p'.engines, e.Sound ∧ e.Idle := by
  cases h with
  | newEngine _ _ _ hexport =>
      intro e he
      rcases List.mem_append.mp he with hold | hnew
      · exact hp e hold
      · rw [List.mem_singleton] at hnew
        subst hnew
        exact sound_exportType sound_initial hexport
  | newInstance => exact hp
  | exportFunction hk hexport =>
      exact forall_mem_set hp hk fun he =>
        sound_minors he (exportFunction_minor he.1.numbered hexport)
  | exportType hk _ _ hexport =>
      exact forall_mem_set hp hk fun he => sound_exportType he hexport
  | exportInstance hk _ _ _ _ _ _ hexport =>
      refine forall_mem_set hp hk fun he => ?_
      rcases Option.bind_eq_some_iff.mp hexport with ⟨e1, hensure, hattach⟩
      exact sound_attachInstance (sound_ensureExported he hensure) hattach
  | construct hk hnew =>
      exact forall_mem_set hp hk fun he => sound_minors he (new_minor he.1.numbered hnew)
  | script hk _ =>
      exact forall_mem_set hp hk fun he => sound_minors he (minors_other rfl rfl)

/-- The tables and the function objects of every engine agree, and nothing is
    left waiting. -/
theorem sound_of_reachable {program : Program Fn Get Set} {p : Process Fn Get Set}
    (hp : p.Reachable program) : ∀ e ∈ p.engines, e.Sound ∧ e.Idle := by
  refine Transition.Reachable.invariant (P := fun p => ∀ e ∈ p.engines, e.Sound ∧ e.Idle)
    ?_ (fun _ _ _ => sound_step) hp
  rintro s rfl e he
  exact absurd he List.not_mem_nil

end Process

/-! ### Calling what was exported -/

/-- A function object that agrees with the tables runs its own export exactly
    when the ID it was built for fits the 16 bits it is kept in. -/
theorem Built.RegisteredIn.invoke_iff {e : Engine Fn Get Set} {f : Built Fn Get Set}
    (hf : f.RegisteredIn e.context) :
    e.invoke f.function = some (f.tableID, f.registered) ↔ f.tableID.toInt < 2 ^ 15 := by
  rcases hf.made with ⟨name, cproto, hmade⟩
  have hmagic : f.function.passedMagic = f.tableID ↔ f.tableID.toInt < 2 ^ 15 := by
    rw [hmade]
    exact passedMagic_eq_iff _ name 1 cproto _ hf.nonneg
  constructor
  · intro h
    rcases Option.map_eq_some_iff.mp h with ⟨found, _, heq⟩
    exact hmagic.mp (Prod.mk.inj heq).1
  · intro h
    unfold Engine.invoke
    rw [hmagic.mpr h, hf.found, Option.map_some]

/-! ### Runs from a new process -/

/-- What the first export of the console reads. -/
def consoleExports (program : Program Fn Get Set) : TypeExports Fn Get Set where
  dummyInstanceExports := []
  staticMethods := [(cString "log", program.log), (cString "error", program.error)]
  staticProperties := []

/-- The static tables once the console has been exported. -/
theorem consoleExports_reads (program : Program Fn Get Set) :
    (consoleExports program).Reads
      (Statics.staticInit {} (program.registrations .consoleJS)) where
  methods := by
    rw [Statics.staticInit_methods]
    refine Dict.enumerates_registerAll ?_
    show [cString "log", cString "error"].Nodup
    decide
  properties := by
    rw [Statics.staticInit_properties]
    exact Dict.enumerates_registerAll List.nodup_nil

/-- The names that scripts see in a new engine, before the console. -/
def intrinsicNames : List String :=
  permanentGlobals ++ configurableGlobals ++ objectPrototypeNames

theorem isExported_initial {name : CName} (hname : ∀ n ∈ intrinsicNames, cString n ≠ name) :
    ¬ Environment.initial.isExported name := by
  have hglobal : (Dict.registerAll ∅ initialGlobals).lookup name = none := by
    refine Dict.lookup_registerAll_eq_none ?_
    intro hmem
    rcases List.mem_map.mp hmem with ⟨p, hp, rfl⟩
    rcases List.mem_append.mp hp with hp | hp
    · rcases List.mem_map.mp hp with ⟨n, hn, rfl⟩
      exact hname n (List.mem_append_left _ (List.mem_append_left _ hn)) rfl
    · rcases List.mem_map.mp hp with ⟨n, hn, rfl⟩
      exact hname n (List.mem_append_left _ (List.mem_append_right _ hn)) rfl
  have hinherited : (Dict.registerAll ∅
      (objectPrototypeNames.map fun n => (cString n, ScriptValue.other))).lookup name = none := by
    refine Dict.lookup_registerAll_eq_none ?_
    intro hmem
    rcases List.mem_map.mp hmem with ⟨p, hp, rfl⟩
    rcases List.mem_map.mp hp with ⟨n, hn, rfl⟩
    exact hname n (List.mem_append_right _ hn) rfl
  unfold Environment.isExported Environment.initial
  rw [hglobal, hinherited]
  decide

/-- The first engine of a process, with the console exported. -/
structure Engine.Started (e : Engine Fn Get Set) : Prop where
  env : e.env = (Environment.initial.defineGlobal (cString "console") (.function 0)).nameClass 0
    (cString "console")
  built : e.built ≠ []
  classCounter : e.context.classCounter = 1
  functionCounter : e.context.functionCounter = 2
  jsClassIDAlloc : e.jsClassIDAlloc = jsClassInitCount + 1
  room : e.Room (2 ^ 30)

/-- Exporting the console from a context with nothing in it. -/
theorem exportType_console (program : Program Fn Get Set) {env : Environment}
    (hname : ¬ env.isExported (cString "console")) :
    ∃ e : Engine Fn Get Set,
      Engine.exportType .consoleJS (cString "console") (consoleExports program) { env := env }
        = some e ∧
      e.env = (env.defineGlobal (cString "console") (.function 0)).nameClass 0
        (cString "console") ∧ e.built ≠ [] ∧
      e.context.classCounter = 1 ∧ e.context.functionCounter = 2 ∧
      e.jsClassIDAlloc = jsClassInitCount + 1 ∧ e.Room (2 ^ 30) := by
  unfold Engine.exportType
  rw [if_neg hname]
  refine ⟨_, rfl, rfl, List.cons_ne_nil _ _, rfl, rfl, rfl, fun k => ?_⟩
  cases k with
  | classCounter => exact (by decide : (1 : Int32).toInt + (2 ^ 30 : ℕ) ≤ 2 ^ 31 - 1)
  | functionCounter => exact (by decide : (2 : Int32).toInt + (2 ^ 30 : ℕ) ≤ 2 ^ 31 - 1)
  | methodCounter => exact (by decide : (0 : Int32).toInt + (2 ^ 30 : ℕ) ≤ 2 ^ 31 - 1)
  | propertyCounter => exact (by decide : (0 : Int32).toInt + (2 ^ 30 : ℕ) ≤ 2 ^ 31 - 1)

/-- The engine that `JSEngine.init` makes first in a process. -/
theorem exists_newEngine (program : Program Fn Get Set) :
    ∃ e : Engine Fn Get Set, e.Started ∧
      Process.Step program {} (.newEngine (consoleExports program))
        { statics := Statics.staticInit {} (program.registrations .consoleJS),
          engines := [e] } := by
  have hname : ¬ Environment.initial.isExported (cString "console") :=
    isExported_initial (by decide +kernel)
  rcases exportType_console program hname
    with ⟨e, he, henv, hbuilt, hclass, hfunction, halloc, hroom⟩
  have hstatics : (({} : Process Fn Get Set).staticsAfter program { env := .initial } .consoleJS
      (cString "console")) = Statics.staticInit {} (program.registrations .consoleJS) := by
    unfold Process.staticsAfter
    rw [if_neg hname]
  refine ⟨e, ⟨henv, hbuilt, hclass, hfunction, halloc, hroom⟩, ?_⟩
  exact Process.Step.newEngine hstatics.symm (consoleExports_reads program) rfl he

theorem isExported_defineGlobal {env : Environment} {name name' : CName} {value : ScriptValue}
    (hne : name' ≠ name) :
    (env.defineGlobal name value).isExported name' = env.isExported name' := by
  unfold Environment.defineGlobal Environment.isExported
  by_cases hext : env.extensible
  · rw [if_pos hext]
    dsimp only
    rw [Dict.lookup_insert, if_neg hne]
  · rw [if_neg hext]

theorem isExported_nameClass (env : Environment) (constructor : ℕ) (name name' : CName) :
    (env.nameClass constructor name).isExported name' = env.isExported name' :=
  rfl

/-- Exporting a function under a free name takes the next function ID, and no
    other name is taken by it. -/
theorem exportFunction_spec {e : Engine Fn Get Set} {name : CName}
    (hname : ¬ e.env.isExported name)
    (hcounter : e.context.functionCounter.toInt < 2 ^ 31 - 1) (function : Fn) :
    ∃ e' f, e.exportFunction name function = some (e', some e.built.length) ∧
      e'.built = e.built ++ [f] ∧ f.tableID = e.context.functionCounter ∧
      e'.context.functionCounter.toInt = e.context.functionCounter.toInt + 1 ∧
      ∀ name', name' ≠ name → e'.env.isExported name' = e.env.isExported name' := by
  have halloc := allocate_eq_some e.context.functionCounter (by omega)
  have hnew : e.context.newContextFunctionID = some (e.context.functionCounter,
      { e.context with functionCounter := e.context.functionCounter + 1 }) := by
    unfold newContextFunctionID
    rw [halloc, Option.map_some]
  unfold Engine.exportFunction Engine.exportCall
  rw [if_neg hname, hnew]
  refine ⟨_, _, rfl, rfl, rfl, (allocate_spec halloc).2, fun name' hne' => ?_⟩
  exact isExported_defineGlobal hne'

/-- The name with `k + 1` letters. -/
def longName (k : ℕ) : CName :=
  ⟨String.ofList (List.replicate (k + 1) 'f'), by
    intro h
    rw [String.toList_ofList] at h
    exact absurd (List.eq_of_mem_replicate h) (by decide)⟩

theorem longName_injective {j k : ℕ} (h : longName j = longName k) : j = k := by
  have hlist := congrArg (fun name => name.1.toList.length) h
  unfold longName at hlist
  simp only [String.toList_ofList, List.length_replicate] at hlist
  omega

theorem longName_ne_cString {s : String} (h : ∃ c ∈ (cString s).1.toList, c ≠ 'f') (k : ℕ) :
    cString s ≠ longName k := by
  intro heq
  rcases h with ⟨c, hc, hne⟩
  rw [heq] at hc
  unfold longName at hc
  rw [String.toList_ofList] at hc
  exact hne (List.eq_of_mem_replicate hc)

theorem intrinsicNames_ne : ∀ s ∈ intrinsicNames, ∃ c ∈ (cString s).1.toList, c ≠ 'f' := by
  have hall : intrinsicNames.all (fun s => (cString s).1.toList.any (· != 'f')) = true := by
    decide +kernel
  intro s hs
  rcases List.any_eq_true.mp (List.all_eq_true.mp hall s hs) with ⟨c, hc, hne⟩
  exact ⟨c, hc, bne_iff_ne.mp hne⟩

/-- In the first engine these names are free. -/
theorem Engine.Started.isExported_longName {e : Engine Fn Get Set} (h : e.Started) (k : ℕ) :
    ¬ e.env.isExported (longName k) := by
  have hinit : ¬ Environment.initial.isExported (longName k) :=
    isExported_initial fun s hs => longName_ne_cString (intrinsicNames_ne s hs) k
  have hletter : ∃ c ∈ (cString "console").1.toList, c ≠ 'f' := ⟨'c', by decide, by decide⟩
  have hconsole : longName k ≠ cString "console" := (longName_ne_cString hletter k).symm
  rw [h.env, isExported_nameClass, isExported_defineGlobal hconsole]
  exact hinit

/-- Exporting functions under `n` different names hands out `n` function IDs. -/
theorem exists_run_exportFunction (program : Program Fn Get Set) (function : Fn) (n : ℕ)
    (hn : n < 2 ^ 30) :
    ∃ as p e, Run (Process.Step program) {} as p ∧ p.engines = [e] ∧
      e.context.functionCounter.toInt = n + 2 ∧
      (0 < n → ∃ f ∈ e.built, f.tableID.toInt = n + 1) := by
  rcases exists_newEngine program with ⟨e0, hstarted, hstep⟩
  -- stage `k`: `k` functions exported, and the longer names free
  let P : ℕ → Process Fn Get Set → Prop := fun k p => ∃ e, p.engines = [e] ∧
    e.context.functionCounter.toInt = k + 2 ∧ (0 < k → ∃ f ∈ e.built, f.tableID.toInt = k + 1) ∧
    ∀ j, k ≤ j → ¬ e.env.isExported (longName j)
  have hstart : P 0 ⟨Statics.staticInit {} (program.registrations .consoleJS), 0, [e0]⟩ :=
    ⟨e0, rfl, by rw [hstarted.functionCounter]; rfl, fun h => absurd h (lt_irrefl _), fun j _ => hstarted.isExported_longName j⟩
  rcases @Run.iterate _ _ (Process.Step program) P _ hstart n (by
    rintro k p hk ⟨e, hp, hc, _, hnames⟩
    have hlt : e.context.functionCounter.toInt < 2 ^ 31 - 1 := by
      rw [hc]
      omega
    rcases exportFunction_spec (hnames k (le_refl k)) hlt function
      with ⟨e', f, hexport, hbuilt, hid, hcounter', hothers⟩
    refine ⟨[.exportFunction 0 (longName k) function], _,
      Run.single (Process.Step.exportFunction (k := 0) (by rw [hp]; rfl) hexport), e', ?_, ?_, ?_, ?_⟩
    · show p.engines.set 0 e' = [e']
      rw [hp]
      rfl
    · rw [hcounter', hc]
      push_cast
      ring
    · intro _
      refine ⟨f, ?_, ?_⟩
      · rw [hbuilt]
        exact List.mem_append_right _ (List.mem_singleton.mpr rfl)
      · rw [hid, hc]
        push_cast
        ring
    · intro j hj
      rw [hothers _ fun heq => absurd (longName_injective heq) (by omega)]
      exact hnames j (by omega)) with ⟨as, p, hrun, e, hp, hc, hlast, _⟩
  exact ⟨_, p, e, Run.cons hstep hrun, hp, hc, hlast⟩

/-- In every reachable process, calling a function object that an engine built for
    an export runs what was registered for it exactly when its ID is below
    `2 ^ 15`. -/
theorem invoke_eq_registered_iff (program : Program Fn Get Set) {p : Process Fn Get Set}
    (hp : p.Reachable program) {e : Engine Fn Get Set} (he : e ∈ p.engines)
    {f : Built Fn Get Set} (hf : f ∈ e.built) :
    e.invoke f.function = some (f.tableID, f.registered) ↔ f.tableID.toInt < 2 ^ 15 :=
  (((Process.sound_of_reachable hp e he).1).built f hf).invoke_iff

/-- The console's constructor is such a function object. -/
theorem invoke_eq_registered_console :
    ∃ (p : Process ℕ Unit Unit) (e : Engine ℕ Unit Unit) (f : Built ℕ Unit Unit),
      p.Reachable ⟨0, 1, fun _ => []⟩ ∧ e ∈ p.engines ∧ f ∈ e.built ∧
      (e.invoke f.function = some (f.tableID, f.registered) ↔ f.tableID.toInt < 2 ^ 15) := by
  rcases exists_newEngine (⟨0, 1, fun _ => []⟩ : Program ℕ Unit Unit)
    with ⟨e, hstarted, hstep⟩
  rcases List.exists_mem_of_ne_nil _ hstarted.built with ⟨f, hf⟩
  have hp : Process.Reachable ⟨0, 1, fun _ => []⟩ _ := ⟨_, _, rfl, Run.single hstep⟩
  exact ⟨_, e, f, hp, List.mem_singleton.mpr rfl, hf,
    invoke_eq_registered_iff _ hp (List.mem_singleton.mpr rfl) hf⟩

/-- After `2 ^ 15 - 1` functions have been exported under names of their own,
    calling the last one runs nothing. -/
theorem exists_invoke_none :
    ∃ (as : List (Action ℕ Unit Unit)) (p : Process ℕ Unit Unit) (e : Engine ℕ Unit Unit)
      (f : Built ℕ Unit Unit),
      Run (Process.Step ⟨0, 1, fun _ => []⟩) {} as p ∧ e ∈ p.engines ∧ f ∈ e.built ∧
      f.tableID.toInt = 2 ^ 15 ∧ e.invoke f.function ≠ some (f.tableID, f.registered) := by
  rcases exists_run_exportFunction (⟨0, 1, fun _ => []⟩ : Program ℕ Unit Unit) 2 (2 ^ 15 - 1)
    (by decide) with ⟨as, p, e, hrun, hp, _, hlast⟩
  rcases hlast (by decide) with ⟨f, hf, hid⟩
  have he : e ∈ p.engines := by
    rw [hp]
    exact List.mem_singleton.mpr rfl
  have hid' : f.tableID.toInt = 2 ^ 15 := by
    rw [hid]
    norm_num
  refine ⟨as, p, e, f, hrun, he, hf, hid', ?_⟩
  intro h
  have hsound := (Process.sound_of_reachable ⟨_, _, rfl, hrun⟩ e he).1
  have hlt := ((hsound.built f hf).invoke_iff).mp h
  omega

end Substrata
