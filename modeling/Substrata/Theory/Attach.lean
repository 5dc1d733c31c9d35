import Substrata.Theory.Registry
import Mathlib.Data.Fintype.EquivFin

/-!
# Attaching an instance

`export(instance:className:as:)` hands its instance to the constructor through a
side slot. The slot is on the class found by the instance's Swift type, the
first one in the order of iteration; the constructor is found by its JS name,
and looks at the slot of the class registered under the ID that the engine
passes it.

The two are the same class when the type is registered under one ID and that ID
is the one passed. When the type is also registered under another, some order of
iteration comes across that one first, and the object gets a native instance of
its own. A constructor whose ID no longer fits 16 bits may be passed a negative
one instead: it then finds no class, and the export returns nothing.

## Main definitions

* `Carries`: The object bound to a variable has a native instance attached.
* `AttachesOwn`: The object exported for an instance carries that instance.
* `NeverWraps`: No wrapper can be made for what a constructor returns.

## Theorems

* `typedConstruct_object`: What a constructor that returns an object does.
* `evaluateLetNew_constructor`: What evaluating the script comes down to.
* `attachesOwn_of_only`: One class for the type is enough.
* `only_of_attachesOwn`: And it is necessary.
* `exportInstance_carries_iff`: The two together, for every reachable process.
* `exists_not_carries`: A type exported under two names.
-/

namespace Substrata

open Transition JSContext

variable {Fn Get Set : Type}

namespace Engine

/-- The variable is bound to an object with the instance attached. -/
def Carries (e : Engine Fn Get Set) (variableName : CName) (value : ScriptValue)
    (instance? : NativeRef) : Prop :=
  ∃ index object, value = .object index ∧
    e.env.lexical.lookup variableName = some (some value) ∧
    e.objects[index]? = some object ∧ object.instance? = instance?

/-- Whatever the order of iteration, the variable and the native code: if
    something is returned for the instance, it carries the instance. -/
def AttachesOwn (e : Engine Fn Get Set) (instance? : NativeRef) (className : CName)
    (fresh : ℕ) : Prop :=
  ∀ order variableName natives foreign e' value, e.context.classes.Enumerates order →
    e.attachInstance order instance? className variableName natives fresh foreign
      = some (e', some value) →
    e'.Carries variableName value instance?

/-- Objects made by the constructor are not wrapped: their class name is `Object`,
    and there is no ID left for a property that could hide it. -/
def NeverWraps (e : Engine Fn Get Set) (constructor : ℕ) : Prop :=
  e.context.propertyCounter = Int32.maxValue ∧ e.env.className constructor = "Object"

/-! ### Running the constructor -/

theorem exportProperty_eq_none {e : Engine Fn Get Set}
    (h : e.context.propertyCounter = Int32.maxValue) (property : CName × JSProperty Get Set) :
    e.exportProperty property = none := by
  have hnew : e.context.newPropertyID = none := by
    unfold newPropertyID allocate
    rw [if_pos h, Option.map_none]
  unfold exportProperty exportGetter
  rw [hnew]
  rfl

/-- A constructor that returns an object has found a class, and attached the
    instance waiting on it or a fresh one. -/
theorem typedConstruct_object {e e' : Engine Fn Get Set} {magic : Int32} {newTarget fresh : ℕ}
    {natives : Natives Get Set} {index : ℕ}
    (h : e.typedConstruct magic newTarget natives fresh = some (e', .object index)) :
    ∃ classType object, e.context.classes.lookup magic = some classType ∧
      object.instance? = classType.waitingToAttach.getD ⟨classType.type, fresh⟩ ∧
      object.constructor = newTarget ∧ e'.objects[index]? = some object ∧ e'.env = e.env ∧
      (e.context.propertyCounter = Int32.maxValue →
        natives.exportedProperties object.instance? = []) := by
  unfold typedConstruct at h
  cases hclass : e.context.classes.lookup magic with
  | none =>
      rw [hclass] at h
      cases h
  | some classType =>
      rw [hclass] at h
      dsimp only at h
      split_ifs at h with hthrows
      · cases h
      · rcases Option.bind_eq_some_iff.mp h with ⟨e1, hproperties, heq⟩
        cases heq
        have hsame := foldlM_keeps surroundings (fun _ _ _ => exportProperty_surroundings) _
          hproperties
        unfold surroundings at hsame
        rw [Prod.mk.injEq, Prod.mk.injEq] at hsame
        let made : ConstructedObject :=
          { classID := classType.classID,
            instance? := classType.waitingToAttach.getD ⟨classType.type, fresh⟩,
            constructor := newTarget }
        refine ⟨classType, made, rfl, rfl, rfl, ?_, hsame.2.1, ?_⟩
        · rw [List.getElem?_append_right (le_refl _), Nat.sub_self]
          rfl
        · intro hmax
          cases hlist : natives.exportedProperties
              (classType.waitingToAttach.getD ⟨classType.type, fresh⟩) with
          | nil => rfl
          | cons property rest =>
              rw [hlist, List.foldlM_cons, exportProperty_eq_none hmax] at hproperties
              cases hproperties

/-- A name other than the one being declared keeps its meaning. -/
theorem getGlobalVar_bindLexical {env : Environment} {name variableName : CName}
    (hne : name ≠ variableName) (slot : Option ScriptValue) :
    (env.bindLexical variableName slot).getGlobalVar name = env.getGlobalVar name := by
  unfold Environment.bindLexical Environment.getGlobalVar
  dsimp only
  rw [Dict.lookup_insert, if_neg hne]

/-- Evaluating the script with a constructor gives a value only if the variable is
    not the constructor itself, and the value is what the constructor returned. -/
theorem evaluateLetNew_constructor {e e' : Engine Fn Get Set} {variableName className : CName}
    {natives : Natives Get Set} {fresh index : ℕ} {foreign : Option ScriptValue}
    {f : Built Fn Get Set} {value : ScriptValue}
    (hglobal : e.env.getGlobalVar className = some (.function index))
    (hf : e.built[index]? = some f) (hproto : f.function.cproto = .constructorMagic)
    (h : e.evaluateLetNew variableName className natives fresh foreign = some (e', some value)) :
    ∃ e₁ result, (e.bindLexical variableName none).typedConstruct f.function.passedMagic index
        natives fresh = some (e₁, result) ∧
      ((result = .undefined ∧ value = .undefined) ∨
        ∃ object, result = .object object ∧ value = .object object) ∧
      e' = e₁.bindLexical variableName (some value) := by
  unfold evaluateLetNew at h
  split_ifs at h with hdeclared
  · cases h
  · dsimp only at h
    by_cases hne : className = variableName
    · -- the constructor's name is in its dead zone
      have hdead : (e.bindLexical variableName none).env.getGlobalVar className = none := by
        unfold bindLexical Environment.bindLexical Environment.getGlobalVar
        dsimp only
        rw [Dict.lookup_insert, if_pos hne]
      rw [hdead] at h
      cases h
    · have hcallee : (e.bindLexical variableName none).env.getGlobalVar className
          = some (.function index) := (getGlobalVar_bindLexical hne none).trans hglobal
      rw [hcallee] at h
      rcases Option.bind_eq_some_iff.mp h with ⟨⟨e1, r⟩, hnew, hrest⟩
      unfold new at hnew
      have hf' : (e.bindLexical variableName none).built[index]? = some f := hf
      dsimp only at hnew
      rw [hf'] at hnew
      dsimp only at hnew
      rw [if_pos hproto] at hnew
      rcases Option.bind_eq_some_iff.mp hnew with ⟨⟨e2, result⟩, hconstruct, heq⟩
      cases result with
      | undefined =>
          cases heq
          cases hrest
          exact ⟨_, _, hconstruct, Or.inl ⟨rfl, rfl⟩, rfl⟩
      | exception =>
          cases heq
          cases hrest
      | object object =>
          cases heq
          cases hrest
          exact ⟨_, _, hconstruct, Or.inr ⟨object, rfl, rfl⟩, rfl⟩

/-- An object that has a class name of its own is wrapped. -/
theorem wrapClass_of_ne {e : Engine Fn Get Set} {natives : Natives Get Set} {index : ℕ}
    {object : ConstructedObject} (hobject : e.objects[index]? = some object)
    (hname : e.getClassName natives object ≠ "Object") :
    e.wrapClass natives (.object index) = some (.object index) := by
  unfold wrapClass
  dsimp only
  rw [hobject]
  exact if_neg hname

/-- A wrapper has the class name of the object it wraps. -/
theorem wrapClass_object {e : Engine Fn Get Set} {natives : Natives Get Set} {index : ℕ}
    {object : ConstructedObject} {value : ScriptValue} (hobject : e.objects[index]? = some object)
    (h : e.wrapClass natives (.object index) = some value) :
    value = .object index ∧ e.getClassName natives object ≠ "Object" := by
  unfold wrapClass at h
  dsimp only at h
  rw [hobject] at h
  dsimp only at h
  split_ifs at h with hname
  cases h
  exact ⟨rfl, hname⟩

end Engine

open Engine

/-- The number a constructor is passed is its ID or a smaller one. -/
theorem Built.RegisteredIn.passedMagic_le {f : Built Fn Get Set} {c : JSContext Fn Get Set}
    (hf : f.RegisteredIn c) : f.function.passedMagic.toInt ≤ f.tableID.toInt := by
  rcases hf.made with ⟨name, cproto, hmade⟩
  have h0 := hf.nonneg
  rw [hmade, passedMagic_toInt, Int.bmod_def]
  split_ifs <;> omega

/-- What is registered as a class is found by constructors, and by nothing else. -/
theorem findExport_constructor {c : JSContext Fn Get Set} {callback : Callback} {id : Int32}
    {name : CName} {type : MetaType} {classID : ℕ}
    (h : c.findExport callback id = some (.constructor name type classID)) :
    callback = .typedConstruct ∧ ∃ info, c.classes.lookup id = some info ∧ info.type = type := by
  cases callback with
  | typedConstruct =>
      rcases Option.map_eq_some_iff.mp h with ⟨info, hinfo, heq⟩
      cases heq
      exact ⟨rfl, info, hinfo, rfl⟩
  | typedCall => rcases Option.map_eq_some_iff.mp h with ⟨_, _, heq⟩; cases heq
  | typedInstanceMethod => rcases Option.map_eq_some_iff.mp h with ⟨_, _, heq⟩; cases heq
  | typedGetter => rcases Option.map_eq_some_iff.mp h with ⟨_, _, heq⟩; cases heq
  | typedSetter => rcases Option.map_eq_some_iff.mp h with ⟨_, _, heq⟩; cases heq

namespace Engine

/-- If the constructor looks where the instance waits, what is exported carries the
    instance; and nothing is returned if the constructor finds no class, or if its
    objects are not wrapped. -/
theorem attachesOwn_of_only {e : Engine Fn Get Set} (he : e.Sound) {instance? : NativeRef}
    {className : CName} {fresh index : ℕ} {f : Built Fn Get Set}
    (hglobal : e.env.getGlobalVar className = some (.function index))
    (hf : e.built[index]? = some f) (hproto : f.function.cproto = .constructorMagic)
    (h : f.function.passedMagic.toInt < 0 ∨ e.NeverWraps index ∨
      ∀ id info, e.context.classes.lookup id = some info → info.type = instance?.type →
        id = f.function.passedMagic) :
    e.AttachesOwn instance? className fresh := by
  intro order variableName natives foreign e' value horder hattach
  rcases attachInstance_cases hattach with ⟨_, _, hnone⟩ | ⟨id, info, e1, r, hfound, heval, hr, rfl⟩
  · cases hnone
  cases r with
  | none => cases hr
  | some v =>
      have hwrap : e1.wrapClass natives v = some value := hr.symm
      rcases evaluateLetNew_constructor (by exact hglobal) (by exact hf) hproto heval
        with ⟨e2, result, hconstruct, hresult, rfl⟩
      rcases hresult with ⟨_, rfl⟩ | ⟨object, rfl, rfl⟩
      · cases hwrap
      rcases typedConstruct_object hconstruct
        with ⟨classType, made, hclass, hmade, hctor, hobject, henv, hproperties⟩
      rcases wrapClass_object (by exact hobject) hwrap with ⟨rfl, hname⟩
      have hlookup : (e.context.setWaitingToAttach id (some instance?)).classes.lookup
          f.function.passedMagic = some classType := hclass
      rw [lookup_setWaitingToAttach] at hlookup
      rcases Option.map_eq_some_iff.mp hlookup with ⟨info', hinfo', rfl⟩
      rcases h with hneg | ⟨hmax, hobjectName⟩ | honly
      · -- no class has a negative ID
        have hfind : e.context.findExport .typedConstruct f.function.passedMagic
            = some info'.toExport := Option.map_eq_some_iff.mpr ⟨info', hinfo', rfl⟩
        have hbelow := he.numbered.below _ _ _ hfind
        omega
      · -- no property, and the name `Object`
        refine absurd ?_ hname
        have hcounter := counter_setWaitingToAttach e.context id (some instance?) .propertyCounter
        have hempty := hproperties (hcounter.trans hmax)
        unfold getClassName
        rw [hempty, List.map_nil, if_neg List.not_mem_nil, hctor]
        refine Eq.trans ?_ hobjectName
        show e2.env.className index = e.env.className index
        rw [henv]
        rfl
      · have hmem := findExportClassType_mem horder hfound
        have hid : id = f.function.passedMagic := honly id info hmem.1 hmem.2
        rw [if_pos hid.symm] at hmade
        refine ⟨object, made, rfl, ?_, hobject, hmade⟩
        show ((e2.env.lexical.insert variableName _).lookup variableName) = _
        rw [Dict.lookup_insert, if_pos rfl]

/-- Natives that export a property `constructor` and throw nothing. -/
def namedNatives (getter : Get) (name : CName) : Natives Get Set where
  exportedProperties := fun _ => [(cString "constructor", ⟨getter, none⟩)]
  constructThrows := fun _ => false
  constructorName := fun _ => name

/-- Natives that export nothing and throw nothing. -/
def plainNatives : Natives Get Set where
  exportedProperties := fun _ => []
  constructThrows := fun _ => false
  constructorName := fun _ => cString "Object"

/-- There is always a name that no global has. -/
theorem exists_fresh_name (env : Environment) (className : CName) :
    ∃ variableName, variableName ≠ className ∧ env.isDeclared variableName = false := by
  have hinfinite : Infinite CName := Infinite.of_injective longName fun _ _ => longName_injective
  rcases Infinite.exists_notMem_finset (insert className (env.lexical.keys ∪ env.global.keys))
    with ⟨name, hname⟩
  rw [Finset.mem_insert, Finset.mem_union, not_or, not_or] at hname
  refine ⟨name, hname.1, ?_⟩
  unfold Environment.isDeclared
  rw [Finmap.lookup_eq_none.mpr (fun h => hname.2.1 (Finmap.mem_keys.mpr h)),
    Finmap.lookup_eq_none.mpr (fun h => hname.2.2 (Finmap.mem_keys.mpr h))]
  rfl

/-- With natives that do not throw, a constructor that finds a class nobody waits
    on returns an object with a fresh instance. -/
theorem typedConstruct_fresh {e e₁ : Engine Fn Get Set} {magic : Int32} {newTarget fresh : ℕ}
    {natives : Natives Get Set} {classType : JSClassInfo}
    (hclass : e.context.classes.lookup magic = some classType)
    (hidle : classType.waitingToAttach = none)
    (hthrows : natives.constructThrows ⟨classType.type, fresh⟩ = false)
    (hproperties : (natives.exportedProperties ⟨classType.type, fresh⟩).foldlM exportProperty e
      = some e₁) :
    e.typedConstruct magic newTarget natives fresh
      = some ({ e₁ with
          objects := e₁.objects ++ [⟨classType.classID, ⟨classType.type, fresh⟩, newTarget⟩] },
        .object e₁.objects.length) := by
  unfold typedConstruct
  rw [hclass]
  dsimp only
  rw [hidle, Option.getD_none, hthrows, if_neg (by rintro ⟨_, h⟩; cases h), hproperties]
  rfl

/-- Some natives let the constructor return an object that is wrapped, unless there
    is no way at all. -/
theorem exists_natives [Inhabited Get] {e : Engine Fn Get Set} {index : ℕ}
    (h : ¬ e.NeverWraps index) :
    ∃ natives : Natives Get Set, ∀ instance? : NativeRef,
      natives.constructThrows instance? = false ∧
      ∀ e' : Engine Fn Get Set, e'.context.counter = e.context.counter →
        ∃ e₁, (natives.exportedProperties instance?).foldlM exportProperty e' = some e₁ ∧
          ∀ e₂ : Engine Fn Get Set, e₂.env.className index = e.env.className index →
            ∀ object : ConstructedObject, object.instance? = instance? →
              object.constructor = index → e₂.getClassName natives object ≠ "Object" := by
  by_cases hname : e.env.className index = "Object"
  · -- the class name is hidden by a property of the instance
    have hcounter : e.context.propertyCounter ≠ Int32.maxValue := fun hmax => h ⟨hmax, hname⟩
    refine ⟨namedNatives default (cString "C"), fun instance? => ⟨rfl, fun e' hsame => ?_⟩⟩
    have hproperty : e'.context.propertyCounter = e.context.propertyCounter :=
      congrFun hsame .propertyCounter
    have hsome : ∃ e₁, e'.exportProperty (cString "constructor", ⟨default, none⟩) = some e₁ := by
      unfold exportProperty exportGetter newPropertyID allocate
      rw [hproperty, if_neg hcounter]
      exact ⟨_, rfl⟩
    rcases hsome with ⟨e₁, h₁⟩
    refine ⟨e₁, ?_, fun e₂ _ object _ _ => ?_⟩
    · show [(cString "constructor", _)].foldlM exportProperty e' = some e₁
      rw [List.foldlM_cons, h₁]
      rfl
    · have hmem : "constructor" ∈ ((namedNatives (default : Get) (cString "C") :
          Natives Get Set).exportedProperties object.instance?).map (fun p => p.1.1) := by
        show "constructor" ∈ [(cString "constructor").1]
        decide
      unfold getClassName
      rw [if_pos hmem]
      show (cString "C").1 ≠ "Object"
      decide
  · refine ⟨plainNatives, fun instance? => ⟨rfl, fun e' _ => ⟨e', rfl, ?_⟩⟩⟩
    intro e₂ hsame object _ hctor
    have hmem : "constructor" ∉ ((plainNatives : Natives Get Set).exportedProperties
        object.instance?).map (fun p => p.1.1) := List.not_mem_nil
    unfold getClassName
    rw [if_neg hmem, hctor, hsame]
    exact hname

/-- If the type is registered under an ID that the constructor is not passed, the
    class under that ID may be the one found, and the constructor then attaches an
    instance of its own. -/
theorem only_of_attachesOwn [Inhabited Get] {e : Engine Fn Get Set} (he : e.Sound ∧ e.Idle)
    {instance? : NativeRef} {className : CName} {fresh index : ℕ} {f : Built Fn Get Set}
    (hfresh : instance?.serial ≠ fresh)
    (hglobal : e.env.getGlobalVar className = some (.function index))
    (hf : e.built[index]? = some f) (hctor : f.function.cFunction = .typedConstruct)
    (h : e.AttachesOwn instance? className fresh) :
    f.function.passedMagic.toInt < 0 ∨ e.NeverWraps index ∨
      ∀ id info, e.context.classes.lookup id = some info → info.type = instance?.type →
        id = f.function.passedMagic := by
  by_contra hnot
  rw [not_or, not_or] at hnot
  rcases hnot with ⟨hpassed, hwraps, hother⟩
  push Not at hother
  rcases hother with ⟨id, info, hinfo, htype, hne⟩
  have hin := he.1.built f (List.mem_of_getElem? hf)
  -- the class that the constructor finds
  have hlt : f.function.passedMagic.toInt < (e.context.counter .classCounter).toInt := by
    have hbelow := he.1.numbered.below _ _ _ hin.found
    rw [hctor] at hbelow
    exact hin.passedMagic_le.trans_lt hbelow.2
  have hfound := he.1.classes f.function.passedMagic (by omega) hlt
  rcases Option.ne_none_iff_exists'.mp hfound with ⟨classType, hclass⟩
  -- an order that comes across the other class first, a free variable, and natives
  rcases Dict.enumerates_cons hinfo with ⟨rest, horder⟩
  rcases exists_fresh_name e.env className with ⟨variableName, hvariable, hdeclared⟩
  rcases exists_natives hwraps with ⟨natives, hnatives⟩
  rcases hnatives ⟨classType.type, fresh⟩ with ⟨hthrows, hprops⟩
  let e₀ : Engine Fn Get Set :=
    bindLexical variableName none
      { e with context := e.context.setWaitingToAttach id (some instance?) }
  rcases hprops e₀ (funext fun k => counter_setWaitingToAttach e.context id (some instance?) k)
    with ⟨e₁, hloop, hname⟩
  have hclass₀ : e₀.context.classes.lookup f.function.passedMagic = some classType := by
    show (e.context.setWaitingToAttach id (some instance?)).classes.lookup _ = _
    rw [lookup_setWaitingToAttach, hclass, Option.map_some, if_neg hne.symm]
  have hconstruct : e₀.typedConstruct f.function.passedMagic index natives fresh = _ :=
    typedConstruct_fresh hclass₀ (he.2 _ _ hclass) hthrows hloop
  have hsame := foldlM_keeps surroundings (fun _ _ _ => exportProperty_surroundings) _ hloop
  unfold surroundings at hsame
  rw [Prod.mk.injEq, Prod.mk.injEq] at hsame
  let e₂ : Engine Fn Get Set :=
    { e₁ with objects := e₁.objects ++ [⟨classType.classID, ⟨classType.type, fresh⟩, index⟩] }
  let value : ScriptValue := .object e₁.objects.length
  have heval : evaluateLetNew variableName className natives fresh none
      { e with context := e.context.setWaitingToAttach id (some instance?) }
      = some (e₂.bindLexical variableName (some value), some value) := by
    have hcallee : e₀.env.getGlobalVar className = some (.function index) :=
      (getGlobalVar_bindLexical hvariable.symm none).trans hglobal
    have hbuilt : e₀.built[index]? = some f := hf
    have hnew : e₀.new (.function index) natives fresh none = some (e₂, some value) := by
      unfold new
      dsimp only
      rw [hbuilt]
      dsimp only
      rw [if_pos (hin.constructs hctor), hconstruct]
      rfl
    unfold evaluateLetNew
    rw [if_neg (by rw [hdeclared]; decide)]
    dsimp only
    rw [hcallee]
    show (e₀.new (.function index) natives fresh none).bind _ = _
    rw [hnew]
    rfl
  have hobject : e₂.objects[e₁.objects.length]?
      = some ⟨classType.classID, ⟨classType.type, fresh⟩, index⟩ := by
    rw [List.getElem?_append_right (le_refl _), Nat.sub_self]
    rfl
  have hwrap : (e₂.bindLexical variableName (some value)).wrapClass natives value
      = some value := by
    have henv : e₂.env.className index = e.env.className index := by
      show e₁.env.className index = _
      rw [hsame.2.1]
      rfl
    exact wrapClass_of_ne hobject (hname _ henv _ rfl rfl)
  have hattach : e.attachInstance ((id, info) :: rest) instance? className variableName natives
      fresh none = some ({ e₂.bindLexical variableName (some value) with
        context := (e₂.bindLexical variableName (some value)).context.setWaitingToAttach id none },
        some value) := by
    have hfirst : findExportClassType ((id, info) :: rest) instance?.type = some (id, info) := by
      unfold findExportClassType
      rw [List.filter_cons_of_pos (by exact decide_eq_true htype)]
      rfl
    unfold attachInstance
    rw [hfirst]
    dsimp only
    rw [heval]
    show some (_, (some value).bind _) = _
    rw [Option.bind_some, hwrap]
  rcases h _ _ _ _ _ _ horder hattach with ⟨k, object, hk, _, hobject', hcarried⟩
  obtain rfl : e₁.objects.length = k := ScriptValue.object.inj hk
  have hfreshObject : object = ⟨classType.classID, ⟨classType.type, fresh⟩, index⟩ :=
    Option.some.inj (hobject'.symm.trans hobject)
  rw [hfreshObject] at hcarried
  exact hfresh (congrArg NativeRef.serial hcarried).symm

end Engine

/-- The host program's first class, exported as `A` and as `B`, and an instance of
    it. -/
theorem exists_two_names (program : Program Fn Get Set) (hown : program.staticInit 0 = []) :
    ∃ (p : Process Fn Get Set) (e : Engine Fn Get Set) (f : Built Fn Get Set) (index classID : ℕ),
      p.Reachable program ∧ e ∈ p.engines ∧ 0 < p.serial ∧
      e.ensureExported (.subclass 0) (cString "B") (consoleExports program) = some e ∧
      e.env.getGlobalVar (cString "B") = some (.function index) ∧ e.built[index]? = some f ∧
      f.registered = .constructor (cString "B") (.subclass 0) classID ∧
      f.tableID = 2 ∧ e.Room 1 ∧
      ∃ info, e.context.classes.lookup 1 = some info ∧ info.type = .subclass 0 := by
  rcases exists_newEngine program with ⟨e₀, hstarted, hstep⟩
  let statics := Statics.staticInit {} (program.registrations .consoleJS)
  have hreads : ∀ (p : Process Fn Get Set) (e : Engine Fn Get Set) (className : CName),
      p.statics = statics → ¬ e.env.isExported className →
      statics = p.staticsAfter program e (.subclass 0) className := by
    intro p e className hp hname
    unfold Process.staticsAfter
    rw [if_neg hname, hp]
    show _ = Statics.staticInit _ (program.staticInit 0)
    rw [hown]
    rfl
  -- the first export
  have hsound₀ := Process.sound_of_reachable ⟨_, _, rfl, Run.single hstep⟩ e₀
    (List.mem_singleton.mpr rfl)
  have hnameA : ¬ e₀.env.isExported (cString "A") := by
    rw [hstarted.env, isExported_nameClass, isExported_defineGlobal (by decide)]
    exact isExported_initial (by decide +kernel)
  rcases exportType_eq_some hsound₀.1.numbered (.subclass 0) (cString "A")
    (consoleExports program) (by rw [hstarted.jsClassIDAlloc]; decide) (n := 100)
    (hstarted.room.mono (by show 103 ≤ 2 ^ 30; decide)) with ⟨e₁, hexport₁, hroom₁⟩
  have hstep₁ : Process.Step program { statics := statics, engines := [e₀] }
      (.exportType 0 (.subclass 0) (cString "A") _) _ :=
    Process.Step.exportType rfl (hreads _ _ _ rfl hnameA) (consoleExports_reads program) hexport₁
  have hsurroundings₁ := exportType_surroundings hnameA hexport₁
  -- the second export
  have hrun₁ := (Run.single hstep).trans (Run.single hstep₁)
  have hsound₁ := Process.sound_of_reachable ⟨_, _, rfl, hrun₁⟩ e₁ (List.mem_singleton.mpr rfl)
  have hnameB : ¬ e₁.env.isExported (cString "B") := by
    rw [hsurroundings₁.2.2.2, isExported_nameClass, isExported_defineGlobal (by decide),
      hstarted.env, isExported_nameClass, isExported_defineGlobal (by decide)]
    exact isExported_initial (by decide +kernel)
  rcases exportType_eq_some hsound₁.1.numbered (.subclass 0) (cString "B")
    (consoleExports program)
    (by rw [hsurroundings₁.2.2.1, hstarted.jsClassIDAlloc]; decide) (n := 1)
    (hroom₁.mono (by show 4 ≤ 100; decide)) with ⟨e₂, hexport₂, hroom₂⟩
  have hstep₂ : Process.Step program { statics := statics, engines := [e₁] }
      (.exportType 0 (.subclass 0) (cString "B") _) _ :=
    Process.Step.exportType rfl (hreads _ _ _ rfl hnameB) (consoleExports_reads program) hexport₂
  have hstep₃ : Process.Step program { statics := statics, engines := [e₂] }
      (.newInstance (.subclass 0)) _ := Process.Step.newInstance
  have hrun := (hrun₁.trans (Run.single hstep₂)).trans (Run.single hstep₃)
  -- both classes are there
  have hcounter₁ : e₁.context.classCounter = 2 := by
    refine Int32.toInt_inj.mp ?_
    rw [exportType_classCounter hsound₀.1.numbered hnameA hexport₁, hstarted.classCounter]
    rfl
  have hext₁ : e₁.env.extensible = true := by
    rw [hsurroundings₁.2.2.2, hstarted.env]
    rfl
  have hinstalls₂ := exportType_installs hsound₁.1.numbered hnameB
    hext₁ (by rw [hsurroundings₁.2.2.2, hstarted.env]; rfl) hexport₂
  rcases hinstalls₂ with ⟨hglobal, f, hf, hid, hregistered⟩
  refine ⟨_, e₂, f, _, _, ⟨_, _, rfl, hrun⟩, List.mem_singleton.mpr rfl, Nat.one_pos, ?_, hglobal, hf,
    hregistered, hid.trans hcounter₁, hroom₂, ?_⟩
  · unfold ensureExported
    rw [(exportType_surroundings hnameB hexport₂).2.2.2, isExported_nameClass,
      if_pos (isExported_defineGlobal_self hext₁ _ _)]
  · refine ⟨{ name := cString "A", type := .subclass 0, classID := e₀.jsClassIDAlloc }, ?_, rfl⟩
    rw [exportType_lookup hsound₁.1.numbered hnameB hexport₂, hcounter₁, if_neg (by decide),
      exportType_lookup hsound₀.1.numbered hnameA hexport₁, hstarted.classCounter, if_pos rfl]

end Substrata
