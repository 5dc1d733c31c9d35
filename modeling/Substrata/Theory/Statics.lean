import Substrata.Theory.Registry

/-!
# Statics of exported classes

What `export(type:className:)` places on a constructor is what the shared tables
hold once the `staticInit` of the type has run. A name that was there before
keeps its old entry, and names that the type never registered are placed as well.

So a constructor gets exactly its own statics if and only if the shared tables
were `Undisturbed` for the type: nothing that an earlier class left there can
show on the constructor unless the type registers the very same thing, and the
type's own names are ones the engine can place. The console is exported by every
engine before anything else, and leaves `log` and `error` behind.

## Main definitions

* `Statics.Has`: A table holds a static under a name.
* `Program.own`: The tables a type fills when it is alone.
* `Statics.Undisturbed`: The tables hold nothing that disturbs an export.

## Theorems

* `lookup_placeStatics`: What an export places on a constructor.
* `placeStatics_iff`: When that is what the type registers.
* `export_places_own_iff`: The same for every export in every reachable process.
* `export_after_console`: A class that registers `log` gets the console's.
-/

namespace Substrata

open Transition Engine

variable {Fn Get Set : Type}

/-- The tables hold a static under a name. -/
def Statics.Has (s : Statics Fn Get Set) (key : CName) : Static Fn Get Set → Prop
  | .method function => s.exportedMethods.lookup key = some function
  | .property value => s.exportedProperties.lookup key = some value

/-- What a type registers, with no other type around. -/
def Program.own (program : Program Fn Get Set) (type : MetaType) : Statics Fn Get Set :=
  Statics.staticInit {} (program.registrations type)

/-- The tables before an export hold nothing that shows on the constructor and that
    the type does not register itself, and the names of the type can be placed. -/
structure Statics.Undisturbed (unsettable : List String) (shared own : Statics Fn Get Set) :
    Prop where
  methods_settable : ∀ key function, own.exportedMethods.lookup key = some function →
    key.1 ∉ unsettable ∧ own.exportedProperties.lookup key = none
  properties_definable : ∀ key value, own.exportedProperties.lookup key = some value →
    key.1 ≠ "prototype"
  leftover_methods : ∀ key function, shared.exportedMethods.lookup key = some function →
    key.1 ∉ unsettable →
    own.exportedMethods.lookup key = some function ∨ own.exportedProperties.lookup key ≠ none
  leftover_properties : ∀ key value, shared.exportedProperties.lookup key = some value →
    key.1 ≠ "prototype" → own.exportedProperties.lookup key = some value

/-- A property wins over a method of the same name, and either is placed only
    under a name that allows it. -/
theorem lookup_placeStatics {s : Statics Fn Get Set} {x : TypeExports Fn Get Set} (hx : x.Reads s)
    (unsettable : List String) (key : CName) :
    (Engine.placeStatics unsettable x).lookup key =
      (if key.1 = "prototype" then none else (s.exportedProperties.lookup key).map .property).or
        (if key.1 ∈ unsettable then none else (s.exportedMethods.lookup key).map .method) := by
  have hproperties := Dict.lookup_foldl_insert hx.properties
    (fun key : CName => key.1 = "prototype") (Static.property : _ → Static Fn Get Set)
    (x.staticMethods.foldl (Engine.setStatic unsettable) ∅) key
  have hmethods := Dict.lookup_foldl_insert hx.methods (fun key : CName => key.1 ∈ unsettable)
    (Static.method : _ → Static Fn Get Set) ∅ key
  rw [Finmap.lookup_empty, Option.or_none] at hmethods
  unfold Engine.placeStatics
  refine hproperties.trans ?_
  rw [show (x.staticMethods.foldl (Engine.setStatic unsettable) ∅).lookup key = _ from hmethods]
  by_cases hkey : key.1 = "prototype"
  · rw [if_pos hkey, if_pos hkey, Option.none_or]
  · rw [if_neg hkey, if_neg hkey]

/-- A table after `staticInit` shadows what the type registers by what was there
    before. -/
theorem lookup_staticInit_methods (program : Program Fn Get Set) (s : Statics Fn Get Set)
    (type : MetaType) (key : CName) :
    (s.staticInit (program.registrations type)).exportedMethods.lookup key
      = (s.exportedMethods.lookup key).or ((program.own type).exportedMethods.lookup key) := by
  unfold Program.own
  rw [Statics.staticInit_methods, Statics.staticInit_methods]
  exact Dict.lookup_registerAll _ _ key

theorem lookup_staticInit_properties (program : Program Fn Get Set) (s : Statics Fn Get Set)
    (type : MetaType) (key : CName) :
    (s.staticInit (program.registrations type)).exportedProperties.lookup key
      = (s.exportedProperties.lookup key).or
        ((program.own type).exportedProperties.lookup key) := by
  unfold Program.own
  rw [Statics.staticInit_properties, Statics.staticInit_properties]
  exact Dict.lookup_registerAll _ _ key

/-- The static under a name, on a constructor whose type was exported into the
    shared tables. -/
theorem lookup_placeStatics_eq (program : Program Fn Get Set) {shared : Statics Fn Get Set}
    {type : MetaType} {x : TypeExports Fn Get Set}
    (hx : x.Reads (shared.staticInit (program.registrations type))) (unsettable : List String)
    (key : CName) :
    (Engine.placeStatics unsettable x).lookup key =
      (if key.1 = "prototype" then none else
        ((shared.exportedProperties.lookup key).or
          ((program.own type).exportedProperties.lookup key)).map .property).or
        (if key.1 ∈ unsettable then none else
          ((shared.exportedMethods.lookup key).or
            ((program.own type).exportedMethods.lookup key)).map .method) := by
  rw [lookup_placeStatics hx, lookup_staticInit_methods, lookup_staticInit_properties]

/-- What undisturbed tables place is what the type registers. -/
theorem Statics.Undisturbed.placed (program : Program Fn Get Set) {shared : Statics Fn Get Set}
    {type : MetaType} {x : TypeExports Fn Get Set}
    (hx : x.Reads (shared.staticInit (program.registrations type))) {unsettable : List String}
    (h : Statics.Undisturbed unsettable shared (program.own type)) (key : CName) :
    (Engine.placeStatics unsettable x).lookup key =
      (((program.own type).exportedProperties.lookup key).map .property).or
        (((program.own type).exportedMethods.lookup key).map .method) := by
  rw [lookup_placeStatics_eq program hx]
  have hproperties : (if key.1 = "prototype" then none else
      ((shared.exportedProperties.lookup key).or
        ((program.own type).exportedProperties.lookup key)).map (Static.property : _ → Static Fn Get Set))
      = ((program.own type).exportedProperties.lookup key).map .property := by
    by_cases hkey : key.1 = "prototype"
    · rw [if_pos hkey]
      cases hown : (program.own type).exportedProperties.lookup key with
      | none => rfl
      | some value => exact absurd hkey (h.properties_definable key value hown)
    · rw [if_neg hkey]
      cases hshared : shared.exportedProperties.lookup key with
      | none => rw [Option.none_or]
      | some value => rw [h.leftover_properties key value hshared hkey, Option.some_or]
  rw [hproperties]
  cases hproperty : (program.own type).exportedProperties.lookup key with
  | some value => rfl
  | none =>
      rw [Option.map_none, Option.none_or, Option.none_or]
      by_cases hkey : key.1 ∈ unsettable
      · rw [if_pos hkey]
        cases hown : (program.own type).exportedMethods.lookup key with
        | none => rfl
        | some function => exact absurd hkey (h.methods_settable key function hown).1
      · rw [if_neg hkey]
        cases hshared : shared.exportedMethods.lookup key with
        | none => rw [Option.none_or]
        | some function =>
            rcases h.leftover_methods key function hshared hkey with hown | hown
            · rw [hown, Option.some_or]
            · exact absurd hproperty hown

/-- If every static on the constructor is one the type registers, and the other
    way around, the tables were undisturbed. -/
theorem undisturbed_of_placed (program : Program Fn Get Set) {shared : Statics Fn Get Set}
    {type : MetaType} {x : TypeExports Fn Get Set}
    (hx : x.Reads (shared.staticInit (program.registrations type))) {unsettable : List String}
    (h : ∀ key static, (Engine.placeStatics unsettable x).lookup key = some static ↔
      (program.own type).Has key static) :
    Statics.Undisturbed unsettable shared (program.own type) := by
  have hplaced := lookup_placeStatics_eq program hx unsettable
  -- a property that is there before and can be placed is the type's own
  have hleft : ∀ key value, shared.exportedProperties.lookup key = some value →
      key.1 ≠ "prototype" → (program.own type).exportedProperties.lookup key = some value := by
    intro key value hshared hkey
    refine (h key (.property value)).mp ?_
    rw [hplaced, if_neg hkey, hshared, Option.some_or, Option.map_some, Option.some_or]
  refine ⟨?_, ?_, ?_, hleft⟩
  · intro key function hown
    have hstatic := (h key (.method function)).mpr hown
    rw [hplaced] at hstatic
    constructor
    · intro hkey
      rw [if_pos hkey, Option.or_none] at hstatic
      split_ifs at hstatic
      rcases Option.map_eq_some_iff.mp hstatic with ⟨_, _, heq⟩
      cases heq
    · cases hproperty : (program.own type).exportedProperties.lookup key with
      | none => rfl
      | some value =>
          have hother := (h key (.property value)).mpr hproperty
          rw [hplaced] at hother
          rw [hother] at hstatic
          cases hstatic
  · intro key value hown hkey
    have hstatic := (h key (.property value)).mpr hown
    rw [hplaced, if_pos hkey, Option.none_or] at hstatic
    split_ifs at hstatic
    rcases Option.map_eq_some_iff.mp hstatic with ⟨_, _, heq⟩
    cases heq
  · intro key function hshared hkey
    by_cases hproperty : (program.own type).exportedProperties.lookup key = none
    · refine Or.inl ((h key (.method function)).mp ?_)
      rw [hplaced, hproperty, Option.or_none, if_neg hkey, hshared, Option.some_or,
        Option.map_some]
      split_ifs with hname
      · rfl
      · cases hleftover : shared.exportedProperties.lookup key with
        | none => rfl
        | some value =>
            rw [hleft key value hleftover hname] at hproperty
            cases hproperty
    · exact Or.inr hproperty

/-- An export places exactly what its type registers if and only if the shared
    tables were undisturbed. -/
theorem placeStatics_iff (program : Program Fn Get Set) {shared : Statics Fn Get Set}
    {type : MetaType} {x : TypeExports Fn Get Set}
    (hx : x.Reads (shared.staticInit (program.registrations type))) (unsettable : List String) :
    (∀ key static, (Engine.placeStatics unsettable x).lookup key = some static ↔
      (program.own type).Has key static) ↔
    Statics.Undisturbed unsettable shared (program.own type) := by
  refine ⟨undisturbed_of_placed program hx, ?_⟩
  intro h key static
  rw [h.placed program hx]
  cases static with
  | property value =>
      show _ ↔ (program.own type).exportedProperties.lookup key = some value
      cases (program.own type).exportedProperties.lookup key with
      | none =>
          rw [Option.map_none, Option.none_or]
          constructor
          · intro heq
            rcases Option.map_eq_some_iff.mp heq with ⟨_, _, hv⟩
            cases hv
          · intro heq
            cases heq
      | some v =>
          rw [Option.map_some, Option.some_or, Option.some.injEq, Option.some.injEq,
            Static.property.injEq]
  | method function =>
      show _ ↔ (program.own type).exportedMethods.lookup key = some function
      cases hown : (program.own type).exportedMethods.lookup key with
      | none =>
          rw [Option.map_none, Option.or_none]
          constructor
          · intro heq
            rcases Option.map_eq_some_iff.mp heq with ⟨_, _, hv⟩
            cases hv
          · intro heq
            cases heq
      | some f =>
          rw [(h.methods_settable key f hown).2, Option.map_none, Option.none_or, Option.map_some,
            Option.some.injEq, Option.some.injEq, Static.method.injEq]

/-! ### Runs -/

namespace Engine

/-- A class of the type has the statics on its constructor. -/
def Placed (e : Engine Fn Get Set) (id : Int32) (type : MetaType)
    (placed : Dict CName (Static Fn Get Set)) : Prop :=
  (e.context.classes.lookup id).map JSClassInfo.type = some type ∧
    e.statics.lookup id = some placed

/-- Every constructor has exactly the statics that its type registers. -/
def PlacesOwn (program : Program Fn Get Set) (e : Engine Fn Get Set) : Prop :=
  ∀ id type placed, e.Placed id type placed →
    ∀ key static, placed.lookup key = some static ↔ (program.own type).Has key static

/-- Nothing is placed by what leaves the types and the statics of the classes
    alone. -/
theorem placesOwn_congr {program : Program Fn Get Set} {e e' : Engine Fn Get Set}
    (hclasses : ∀ id, (e'.context.classes.lookup id).map JSClassInfo.type
      = (e.context.classes.lookup id).map JSClassInfo.type)
    (hstatics : e'.statics = e.statics) : e'.PlacesOwn program ↔ e.PlacesOwn program := by
  unfold PlacesOwn Placed
  rw [hstatics]
  constructor
  · intro h id type placed hplaced
    refine h id type placed ?_
    rw [hclasses]
    exact hplaced
  · intro h id type placed hplaced
    refine h id type placed ?_
    rw [← hclasses]
    exact hplaced

/-- After an export, one constructor more has to have what its type registers. -/
theorem placesOwn_exportType {program : Program Fn Get Set} {e e' : Engine Fn Get Set}
    (he : e.context.Numbered) {type : MetaType} {className : CName} {x : TypeExports Fn Get Set}
    {shared : Statics Fn Get Set} (hname : ¬ e.env.isExported className)
    (hx : x.Reads (shared.staticInit (program.registrations type)))
    (h : e.exportType type className x = some e') :
    e'.PlacesOwn program ↔ e.PlacesOwn program ∧
      Statics.Undisturbed e.env.unsettable shared (program.own type) := by
  have hstatics := (exportType_surroundings hname h).1
  have hlookup := exportType_lookup he hname h
  have hnone : e.context.classes.lookup e.context.classCounter = none :=
    Option.map_eq_none_iff.mp (he.findExport_counter .typedConstruct)
  -- the classes that were there, and the new one
  have hold : ∀ i t placed, e.Placed i t placed → e'.Placed i t placed := by
    intro i t placed hplaced
    have hne : i ≠ e.context.classCounter := by
      rintro rfl
      rw [Placed, hnone] at hplaced
      cases hplaced.1
    refine ⟨?_, ?_⟩
    · rw [hlookup, if_neg hne]
      exact hplaced.1
    · rw [hstatics, Dict.lookup_insert, if_neg hne]
      exact hplaced.2
  have hnew : e'.Placed e.context.classCounter type (placeStatics e.env.unsettable x) := by
    refine ⟨?_, ?_⟩
    · rw [hlookup, if_pos rfl, Option.map_some]
    · rw [hstatics, Dict.lookup_insert, if_pos rfl]
  rw [← placeStatics_iff program hx]
  constructor
  · intro hown
    exact ⟨fun i t placed hplaced => hown i t placed (hold i t placed hplaced),
      hown _ type _ hnew⟩
  · rintro ⟨hown, hlast⟩ i t placed ⟨htype, hplaced⟩
    by_cases hi : i = e.context.classCounter
    · rw [hstatics, Dict.lookup_insert, if_pos hi, Option.some.injEq] at hplaced
      rw [hlookup, if_pos hi, Option.map_some, Option.some.injEq] at htype
      rw [← hplaced, ← htype]
      exact hlast
    · rw [hlookup, if_neg hi] at htype
      rw [hstatics, Dict.lookup_insert, if_neg hi] at hplaced
      exact hown i t placed ⟨htype, hplaced⟩

end Engine

namespace Process

open Engine

/-- Every constructor of every engine has exactly the statics that its type
    registers. -/
def PlacesOwn (program : Program Fn Get Set) (p : Process Fn Get Set) : Prop :=
  ∀ (k : ℕ) (e : Engine Fn Get Set), p.engines[k]? = some e → e.PlacesOwn program

/-- An export of a type finds the shared tables undisturbed, if it is not
    refused. -/
def ExportsUndisturbed (program : Program Fn Get Set) (p : Process Fn Get Set) (k : ℕ)
    (type : MetaType) (className : CName) : Prop :=
  ∀ e, p.engines[k]? = some e → ¬ e.env.isExported className →
    Statics.Undisturbed e.env.unsettable p.statics (program.own type)

/-- The condition on an action: what it exports, it exports undisturbed. -/
def Undisturbing (program : Program Fn Get Set) (p : Process Fn Get Set) :
    Action Fn Get Set → Prop
  | .newEngine _ =>
      Statics.Undisturbed Environment.initial.unsettable p.statics (program.own .consoleJS)
  | .exportType k type className _ => p.ExportsUndisturbed program k type className
  | .exportInstance k _ instance? className _ _ _ _ =>
      p.ExportsUndisturbed program k instance?.type className
  | .newInstance _ => True
  | .exportFunction _ _ _ => True
  | .construct _ _ _ => True
  | .script _ _ => True

/-- What holds of all engines after an operation on one of them. -/
theorem forall_getElem?_set {P : Engine Fn Get Set → Prop} {Q : Prop}
    {l : List (Engine Fn Get Set)} {k : ℕ} {e e' : Engine Fn Get Set} (hk : l[k]? = some e)
    (h : P e' ↔ P e ∧ Q) :
    (∀ (j : ℕ) (a : Engine Fn Get Set), (l.set k e')[j]? = some a → P a) ↔
      (∀ (j : ℕ) (a : Engine Fn Get Set), l[j]? = some a → P a) ∧ Q := by
  have hlt : k < l.length := (List.getElem?_eq_some_iff.mp hk).1
  have hset : (l.set k e')[k]? = some e' := List.getElem?_set_self hlt
  constructor
  · intro hall
    have he := h.mp (hall k e' hset)
    refine ⟨fun j a hj => ?_, he.2⟩
    by_cases hjk : k = j
    · subst hjk
      rw [hk, Option.some.injEq] at hj
      rw [← hj]
      exact he.1
    · exact hall j a (by rw [List.getElem?_set_ne hjk]; exact hj)
  · rintro ⟨hall, hq⟩ j a hj
    by_cases hjk : k = j
    · subst hjk
      rw [hset, Option.some.injEq] at hj
      rw [← hj]
      exact h.mpr ⟨hall k e hk, hq⟩
    · rw [List.getElem?_set_ne hjk] at hj
      exact hall j a hj

theorem placesOwn_set {program : Program Fn Get Set} {l : List (Engine Fn Get Set)} {k : ℕ}
    {e e' : Engine Fn Get Set} (hk : l[k]? = some e)
    (h : e'.PlacesOwn program ↔ e.PlacesOwn program) :
    (∀ (j : ℕ) (a : Engine Fn Get Set), (l.set k e')[j]? = some a → a.PlacesOwn program) ↔
      ∀ (j : ℕ) (a : Engine Fn Get Set), l[j]? = some a → a.PlacesOwn program := by
  have hset := forall_getElem?_set (P := fun a => a.PlacesOwn program) (Q := True) hk (by
    rw [h, and_true])
  rw [and_true] at hset
  exact hset

/-- Exporting a type in one of the engines. -/
theorem placesOwn_ensureExported {program : Program Fn Get Set} {p : Process Fn Get Set}
    {e e' : Engine Fn Get Set} (he : e.context.Numbered) {type : MetaType} {className : CName}
    {x : TypeExports Fn Get Set} (hx : x.Reads (p.staticsAfter program e type className))
    (h : e.exportType type className x = some e') :
    e'.PlacesOwn program ↔ e.PlacesOwn program ∧ (¬ e.env.isExported className →
      Statics.Undisturbed e.env.unsettable p.statics (program.own type)) := by
  by_cases hname : e.env.isExported className
  · rcases exportType_cases he h with ⟨_, rfl⟩ | ⟨hnot, _⟩
    · refine ⟨fun hown => ⟨hown, fun hnot => absurd hname hnot⟩, fun hown => hown.1⟩
    · exact absurd hname hnot
  · unfold staticsAfter at hx
    rw [if_neg hname] at hx
    rw [placesOwn_exportType he hname hx h]
    refine and_congr_right fun _ => ⟨fun hu _ => hu, fun hu => hu hname⟩

/-- What an operation on an engine keeps of its classes and statics. -/
theorem placesOwn_minors {program : Program Fn Get Set} {e e' : Engine Fn Get Set}
    (hminors : Minors e e') (hstatics : e'.statics = e.statics) :
    e'.PlacesOwn program ↔ e.PlacesOwn program :=
  placesOwn_congr (fun id => by rw [hminors.classes_eq]) hstatics

theorem placesOwn_attachInstance {program : Program Fn Get Set} {e e' : Engine Fn Get Set}
    (he : e.Sound) {order : List (Int32 × JSClassInfo)} {instance? : NativeRef}
    {className variableName : CName} {natives : Natives Get Set} {fresh : ℕ}
    {foreign result : Option ScriptValue}
    (h : e.attachInstance order instance? className variableName natives fresh foreign
      = some (e', result)) : e'.PlacesOwn program ↔ e.PlacesOwn program := by
  rcases attachInstance_cases h with ⟨_, rfl, _⟩ | ⟨id, info, e1, r, _, heval, _, rfl⟩
  · rfl
  · have hwait := he.setWaitingToAttach id (some instance?)
    have hminors := evaluateLetNew_minor hwait.numbered heval
    have hstatics := evaluateLetNew_statics heval
    refine placesOwn_congr (fun i => ?_) hstatics
    dsimp only
    rw [lookup_setWaitingToAttach, hminors.classes_eq, lookup_setWaitingToAttach, Option.map_map,
      Option.map_map]
    congr 1
    funext info
    by_cases hi : i = id
    · simp only [Function.comp_apply, if_pos hi]
    · simp only [Function.comp_apply, if_neg hi]

theorem placesOwn_exportInstance {program : Program Fn Get Set} {p : Process Fn Get Set}
    {e e₁ e' : Engine Fn Get Set} (he : e.Sound ∧ e.Idle) {order : List (Int32 × JSClassInfo)}
    {instance? : NativeRef} {className variableName : CName} {x : TypeExports Fn Get Set}
    (hx : x.Reads (p.staticsAfter program e instance?.type className))
    {natives : Natives Get Set} {fresh : ℕ} {foreign result : Option ScriptValue}
    (hensure : e.ensureExported instance?.type className x = some e₁)
    (h : e₁.attachInstance order instance? className variableName natives fresh foreign
      = some (e', result)) :
    e'.PlacesOwn program ↔ e.PlacesOwn program ∧ (¬ e.env.isExported className →
      Statics.Undisturbed e.env.unsettable p.statics (program.own instance?.type)) := by
  have hsound := sound_ensureExported he hensure
  rw [placesOwn_attachInstance hsound.1 h]
  unfold ensureExported at hensure
  by_cases hname : e.env.isExported className
  · rw [if_pos hname] at hensure
    cases hensure
    exact ⟨fun hown => ⟨hown, fun hnot => absurd hname hnot⟩, fun hown => hown.1⟩
  · rw [if_neg hname] at hensure
    exact placesOwn_ensureExported he.1.numbered hx hensure

/-- One action keeps every constructor right exactly when what it exports finds
    the shared tables undisturbed. -/
theorem placesOwn_step {program : Program Fn Get Set} {p p' : Process Fn Get Set}
    {a : Action Fn Get Set} (hp : ∀ e ∈ p.engines, e.Sound ∧ e.Idle) (h : Step program p a p') :
    p'.PlacesOwn program ↔ p.PlacesOwn program ∧ p.Undisturbing program a := by
  cases h with
  | @newEngine x s e hs hx _ hexport =>
      have hname : ¬ Environment.initial.isExported (cString "console") :=
        isExported_initial (by decide +kernel)
      have hx' : x.Reads (p.statics.staticInit (program.registrations .consoleJS)) := by
        unfold staticsAfter at hs
        rw [if_neg hname] at hs
        rw [← hs]
        exact hx
      have hempty : ({ env := .initial } : Engine Fn Get Set).PlacesOwn program := by
        intro id type placed hplaced
        rw [Engine.Placed, Finmap.lookup_empty] at hplaced
        cases hplaced.1
      have hone := placesOwn_exportType sound_initial.1.numbered hname hx' hexport
      constructor
      · intro hown
        refine ⟨fun k e0 hk => hown k e0 ?_, ?_⟩
        · have hlt := (List.getElem?_eq_some_iff.mp hk).1
          rw [List.getElem?_append_left hlt]
          exact hk
        · refine (hone.mp (hown p.engines.length e ?_)).2
          rw [List.getElem?_append_right (le_refl _), Nat.sub_self]
          rfl
      · rintro ⟨hown, hundisturbed⟩ k e0 hk
        rcases List.mem_append.mp (List.mem_of_getElem? hk) with hmem | hmem
        · rcases List.mem_iff_getElem?.mp hmem with ⟨j, hj⟩
          exact hown j e0 hj
        · rw [List.mem_singleton] at hmem
          rw [hmem]
          exact hone.mpr ⟨hempty, hundisturbed⟩
  | newInstance => exact (and_true _).symm.to_iff
  | exportFunction hk hexport =>
      have he := hp _ (List.mem_of_getElem? hk)
      refine (placesOwn_set hk (placesOwn_minors (exportFunction_minor he.1.numbered hexport)
        (exportFunction_statics hexport))).trans ?_
      exact (and_true _).symm.to_iff
  | exportType hk hs hx hexport =>
      have he := hp _ (List.mem_of_getElem? hk)
      rw [hs] at hx
      refine (forall_getElem?_set hk (placesOwn_ensureExported he.1.numbered hx hexport)).trans ?_
      refine and_congr_right fun _ => ⟨fun hu e0 hk0 => ?_, fun hu => hu _ hk⟩
      rw [hk, Option.some.injEq] at hk0
      rw [← hk0]
      exact hu
  | exportInstance hk _ _ hs hx hensure _ hexport =>
      have he := hp _ (List.mem_of_getElem? hk)
      rw [hs] at hx
      rcases Option.bind_eq_some_iff.mp hexport with ⟨e1, hensure', hattach⟩
      refine (forall_getElem?_set hk (placesOwn_exportInstance he hx hensure' hattach)).trans ?_
      refine and_congr_right fun _ => ⟨fun hu e0 hk0 => ?_, fun hu => hu _ hk⟩
      rw [hk, Option.some.injEq] at hk0
      rw [← hk0]
      exact hu
  | construct hk hnew =>
      have he := hp _ (List.mem_of_getElem? hk)
      refine (placesOwn_set hk (placesOwn_minors (new_minor he.1.numbered hnew)
        (new_statics hnew))).trans ?_
      exact (and_true _).symm.to_iff
  | @script k e env hk _ =>
      have hsame : ({ e with env := env } : Engine Fn Get Set).PlacesOwn program ↔
          e.PlacesOwn program := placesOwn_congr (fun _ => rfl) rfl
      exact (placesOwn_set hk hsame).trans (and_true _).symm.to_iff

end Process

/-- In a run from a new process, every constructor has exactly the statics that
    its type registers if and only if every export of the run found the shared
    tables undisturbed. -/
theorem placesOwn_iff_run_undisturbing (program : Program Fn Get Set) {p : Process Fn Get Set}
    {as : List (Action Fn Get Set)} (hrun : Run (Process.Step program) {} as p) :
    p.PlacesOwn program ↔
      Run (Guarded (fun p a => p.Undisturbing program a) (Process.Step program)) {} as p := by
  have hempty : ({} : Process Fn Get Set).PlacesOwn program := by
    intro k e hk
    rw [List.getElem?_nil] at hk
    cases hk
  constructor
  · induction hrun with
    | nil => exact fun _ => Run.nil
    | snoc hprefix hlast ih =>
        intro hown
        have hsound := Process.sound_of_reachable ⟨_, _, rfl, hprefix⟩
        have hboth := (Process.placesOwn_step hsound hlast).mp hown
        exact Run.snoc (ih hboth.1) ⟨hboth.2, hlast⟩
  · intro hguarded
    clear hrun
    induction hguarded with
    | nil => exact hempty
    | snoc hprefix hlast ih =>
        have hsound := Process.sound_of_reachable ⟨_, _, rfl, hprefix.of_guarded⟩
        exact (Process.placesOwn_step hsound hlast.2).mpr ⟨ih, hlast.1⟩

/-- The first engine alone has the console's own statics. -/
theorem placesOwn_iff_newEngine :
    ∃ (x : TypeExports ℕ Unit Unit) (p : Process ℕ Unit Unit),
      Run (Process.Step ⟨0, 1, fun _ => []⟩) {} [.newEngine x] p ∧
      (p.PlacesOwn ⟨0, 1, fun _ => []⟩ ↔
        Run (Guarded (fun p a => p.Undisturbing ⟨0, 1, fun _ => []⟩ a)
          (Process.Step ⟨0, 1, fun _ => []⟩)) {} [.newEngine x] p) := by
  rcases exists_newEngine (⟨0, 1, fun _ => []⟩ : Program ℕ Unit Unit) with ⟨e, _, hstep⟩
  exact ⟨_, _, Run.single hstep, placesOwn_iff_run_undisturbing _ (Run.single hstep)⟩

/-- A class that registers a static `log` of its own, exported after the console. -/
def edgeProgram : Program ℕ Unit Unit where
  log := 0
  error := 1
  staticInit := fun _ => [.method (cString "log") 7]

theorem staticInit_edge :
    Statics.staticInit (Statics.staticInit {} (edgeProgram.registrations .consoleJS))
      (edgeProgram.registrations (.subclass 0))
      = Statics.staticInit {} (edgeProgram.registrations .consoleJS) := by
  have hlog : ((Statics.staticInit {} (edgeProgram.registrations .consoleJS)).exportedMethods.lookup
      (cString "log")).isSome := by decide
  show ({ exportedMethods := Dict.insertNew _ (cString "log") 7, exportedProperties := ∅ } :
    Statics ℕ Unit Unit) = _
  unfold Dict.insertNew
  rw [if_pos hlog]
  rfl

/-- Exporting such a class gives it the console's `log`, and an `error` it never
    registered. -/
theorem exists_not_placesOwn :
    ∃ (as : List (Action ℕ Unit Unit)) (p : Process ℕ Unit Unit),
      Run (Process.Step edgeProgram) {} as p ∧ ¬ p.PlacesOwn edgeProgram := by
  rcases exists_newEngine edgeProgram with ⟨e, hstarted, hstep⟩
  have hsound := Process.sound_of_reachable ⟨_, _, rfl, Run.single hstep⟩
  have he := (hsound e (List.mem_singleton.mpr rfl)).1
  rcases exportType_eq_some he.numbered (.subclass 0) (cString "Edge")
    (consoleExports edgeProgram) (by rw [hstarted.jsClassIDAlloc]; decide)
    (n := 0) (hstarted.room.mono (by decide)) with ⟨e', hexport, _⟩
  have hname : ¬ e.env.isExported (cString "Edge") := by
    rw [hstarted.env, isExported_nameClass, isExported_defineGlobal (by decide)]
    exact isExported_initial (by decide +kernel)
  let p : Process ℕ Unit Unit :=
    { statics := Statics.staticInit {} (edgeProgram.registrations .consoleJS), engines := [e] }
  have hreads : (consoleExports edgeProgram).Reads
      (p.staticsAfter edgeProgram e (.subclass 0) (cString "Edge")) := by
    unfold Process.staticsAfter
    rw [if_neg hname]
    show TypeExports.Reads _ (Statics.staticInit (Statics.staticInit {} _) _)
    rw [staticInit_edge]
    exact consoleExports_reads edgeProgram
  have hexport' : Process.Step edgeProgram p (.exportType 0 (.subclass 0) (cString "Edge") _) _ :=
    Process.Step.exportType rfl rfl hreads hexport
  refine ⟨_, _, (Run.single hstep).trans (Run.single hexport'), ?_⟩
  intro hown
  have hundisturbed := ((Process.placesOwn_step hsound hexport').mp hown).2 e rfl hname
  have hlog : (Statics.staticInit {} (edgeProgram.registrations .consoleJS)).exportedMethods.lookup
      (cString "log") = some 0 := by decide
  have hleft := hundisturbed.leftover_methods (cString "log") 0 hlog (by
    rw [hstarted.env]
    decide)
  exact absurd hleft (by decide)

end Substrata
