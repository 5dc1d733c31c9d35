import Mathlib.Logic.Relation
import Mathlib.Tactic.Ring
import Substrata.Core.Process

/-!
# What the operations on an engine can do

Every operation comes down to two kinds of change, and this is where the
definitions of the operations are opened. A `Minor` change either registers one
export other than a class or leaves both the context and the function objects
alone. Constructing an object, exporting a function and evaluating a script are
sequences of minor changes; exporting a type is a class registration followed by
minor changes; attaching an instance is a sequence of minor changes between two
writes of `waitingToAttach`.

Minor changes leave the classes alone, which is why an instance that waits on a
class before a script runs still waits on it, and on no other, afterwards.

## Main definitions

* `Minor`: A change that registers no class.

## Theorems

* `foldlM_minor`: A loop of minor changes is a sequence of them.
* `exportCall_minor`, `exportMethod_minor`, `exportProperty_minor`: The exports
  that register no class.
* `exportFunction_minor`: Exporting a function.
* `exportConstructor_cases`: Registering a class.
* `exportType_cases`: Exporting a type registers its class and then makes minor
  changes.
* `new_minor`, `evaluateLetNew_minor`: Constructing an object.
* `attachInstance_cases`: Attaching an instance.
* `Minor.classes_eq`, `Minor.classCounter_eq`, `Minor.numbered`,
  `Minor.built_append`: What minor changes keep.
-/

namespace Substrata

variable {Fn Get Set : Type}

namespace Engine

open JSContext

/-- A change that registers no class: an export for one of the other callbacks, or
    a change of anything but the context and the function objects. -/
inductive Minor : Engine Fn Get Set → Engine Fn Get Set → Prop
  | registers {e : Engine Fn Get Set} {callback : Callback} {name : CName}
      {cproto : JSCFunctionEnum} {value : Export Fn Get Set} {id : Int32}
      {c : JSContext Fn Get Set} :
      callback ≠ .typedConstruct → Registers callback value e.context id c →
      c.classes = e.context.classes → Minor e (e.build callback name cproto value id c)
  | other {e e' : Engine Fn Get Set} :
      e'.context = e.context → e'.built = e.built → Minor e e'

/-- A sequence of minor changes. -/
abbrev Minors : Engine Fn Get Set → Engine Fn Get Set → Prop :=
  Relation.ReflTransGen Minor

/-! ### What minor changes keep -/

theorem Minor.numbered {e e' : Engine Fn Get Set} (h : Minor e e') (he : e.context.Numbered) :
    e'.context.Numbered := by
  cases h with
  | registers _ hreg _ => exact hreg.numbered he
  | other hc _ => rwa [hc]

theorem Minor.classes_eq {e e' : Engine Fn Get Set} (h : Minor e e') :
    e'.context.classes = e.context.classes := by
  cases h with
  | registers _ _ hclasses => exact hclasses
  | other hc _ => rw [hc]

theorem Minor.classCounter_eq {e e' : Engine Fn Get Set} (h : Minor e e') :
    (e'.context.counter .classCounter).toInt = (e.context.counter .classCounter).toInt := by
  cases h with
  | @registers callback _ _ _ _ c hne hreg _ =>
      have hcounter : Counter.classCounter ≠ callback.counter := by
        cases callback with
        | typedConstruct => exact absurd rfl hne
        | typedCall => decide
        | typedInstanceMethod => decide
        | typedGetter => decide
        | typedSetter => decide
      have hc := hreg.counter .classCounter
      rw [if_neg hcounter, add_zero] at hc
      exact hc
  | other hc _ => rw [hc]

theorem Minors.numbered {e e' : Engine Fn Get Set} (h : Minors e e') (he : e.context.Numbered) :
    e'.context.Numbered := by
  induction h with
  | refl => exact he
  | tail _ hlast ih => exact hlast.numbered ih

theorem Minors.classes_eq {e e' : Engine Fn Get Set} (h : Minors e e') :
    e'.context.classes = e.context.classes := by
  induction h with
  | refl => rfl
  | tail _ hlast ih => rw [hlast.classes_eq, ih]

theorem Minors.classCounter_eq {e e' : Engine Fn Get Set} (h : Minors e e') :
    (e'.context.counter .classCounter).toInt = (e.context.counter .classCounter).toInt := by
  induction h with
  | refl => rfl
  | tail _ hlast ih => rw [hlast.classCounter_eq, ih]

/-- Function objects are only ever added. -/
theorem Minors.built_append {e e' : Engine Fn Get Set} (h : Minors e e') :
    ∃ l, e'.built = e.built ++ l := by
  induction h with
  | refl => exact ⟨[], (List.append_nil _).symm⟩
  | tail _ hlast ih =>
      rcases ih with ⟨l, hl⟩
      cases hlast with
      | @registers callback name cproto value id c _ _ _ =>
          refine ⟨l ++ [⟨jsNewCFunctionMagic callback name 1 cproto id, id, value⟩], ?_⟩
          rw [← List.append_assoc, ← hl]
          rfl
      | other _ hbuilt => exact ⟨l, by rw [hbuilt, hl]⟩

/-- A loop whose body makes minor changes makes minor changes. -/
theorem foldlM_minor {β : Type} {f : Engine Fn Get Set → β → Option (Engine Fn Get Set)}
    (hf : ∀ e x e', e.context.Numbered → f e x = some e' → Minors e e') (l : List β)
    {e e' : Engine Fn Get Set} (he : e.context.Numbered) (h : l.foldlM f e = some e') :
    Minors e e' := by
  induction l generalizing e with
  | nil =>
      rw [List.foldlM_nil] at h
      cases h
      exact Relation.ReflTransGen.refl
  | cons x l ih =>
      rw [List.foldlM_cons] at h
      rcases Option.bind_eq_some_iff.mp h with ⟨e1, h1, h2⟩
      have hfirst := hf e x e1 he h1
      exact hfirst.trans (ih (hfirst.numbered he) h2)

/-! ### The exports -/

theorem exportCall_minor {e e' : Engine Fn Get Set} {name : CName} {value : Fn}
    (he : e.context.Numbered) (h : e.exportCall name value = some e') : Minors e e' := by
  rcases Option.bind_eq_some_iff.mp h with ⟨⟨functionID, c⟩, hnew, heq⟩
  cases heq
  refine Relation.ReflTransGen.single (Minor.registers (by decide) ?_ ?_)
  · exact registers_function he hnew value
  · rcases Option.map_eq_some_iff.mp hnew with ⟨_, _, hc⟩
    cases hc
    rfl

theorem exportMethod_minor {e e' : Engine Fn Get Set} {name : CName}
    (h : e.exportMethod name = some e') : Minors e e' := by
  rcases Option.bind_eq_some_iff.mp h with ⟨⟨methodID, c⟩, hnew, heq⟩
  cases heq
  refine Relation.ReflTransGen.single (Minor.registers (by decide) ?_ ?_)
  · exact registers_method hnew name
  · rcases Option.map_eq_some_iff.mp hnew with ⟨_, _, hc⟩
    cases hc
    rfl

theorem exportGetter_minor {e e' : Engine Fn Get Set} {name : CName} {value : Get}
    (he : e.context.Numbered) (h : e.exportGetter name value = some e') : Minors e e' := by
  rcases Option.bind_eq_some_iff.mp h with ⟨⟨getterID, c⟩, hnew, heq⟩
  cases heq
  refine Relation.ReflTransGen.single (Minor.registers (by decide) ?_ ?_)
  · exact registers_getter he hnew value
  · rcases Option.map_eq_some_iff.mp hnew with ⟨_, _, hc⟩
    cases hc
    rfl

theorem exportSetter_minor {e e' : Engine Fn Get Set} {name : CName} {value : Set}
    (he : e.context.Numbered) (h : e.exportSetter name value = some e') : Minors e e' := by
  rcases Option.bind_eq_some_iff.mp h with ⟨⟨setterID, c⟩, hnew, heq⟩
  cases heq
  refine Relation.ReflTransGen.single (Minor.registers (by decide) ?_ ?_)
  · exact registers_setter he hnew value
  · rcases Option.map_eq_some_iff.mp hnew with ⟨_, _, hc⟩
    cases hc
    rfl

theorem exportProperty_minor {e e' : Engine Fn Get Set} {property : CName × JSProperty Get Set}
    (he : e.context.Numbered) (h : e.exportProperty property = some e') : Minors e e' := by
  rcases Option.bind_eq_some_iff.mp h with ⟨e1, hgetter, hrest⟩
  have hfirst := exportGetter_minor he hgetter
  cases hsetter : property.2.setter with
  | none =>
      rw [hsetter] at hrest
      cases hrest
      exact hfirst
  | some setter =>
      rw [hsetter] at hrest
      exact hfirst.trans (exportSetter_minor (hfirst.numbered he) hrest)

/-- An environment change leaves the context and the function objects alone. -/
theorem minors_other {e e' : Engine Fn Get Set} (hc : e'.context = e.context)
    (hb : e'.built = e.built) : Minors e e' :=
  Relation.ReflTransGen.single (Minor.other hc hb)

theorem defineGlobal_minor (name : CName) (value : ScriptValue) (e : Engine Fn Get Set) :
    Minors e (e.defineGlobal name value) :=
  minors_other rfl rfl

theorem nameClass_minor (constructor : ℕ) (name : CName) (e : Engine Fn Get Set) :
    Minors e (e.nameClass constructor name) :=
  minors_other rfl rfl

theorem exportFunction_minor {e e' : Engine Fn Get Set} {name : CName} {function : Fn}
    {result : Option ℕ} (he : e.context.Numbered)
    (h : e.exportFunction name function = some (e', result)) : Minors e e' := by
  unfold exportFunction at h
  by_cases hname : e.env.isExported name
  · rw [if_pos hname] at h
    cases h
    exact Relation.ReflTransGen.refl
  · rw [if_neg hname] at h
    rcases Option.bind_eq_some_iff.mp h with ⟨e1, hcall, heq⟩
    cases heq
    exact (exportCall_minor he hcall).trans (defineGlobal_minor _ _ e1)

/-- A class is registered under the next class ID, and nothing waits on it. -/
theorem exportConstructor_cases {e e' : Engine Fn Get Set} {info : JSClassInfo} {id : Int32}
    (he : e.context.Numbered) (h : e.exportConstructor info = some (id, e')) :
    ∃ c, Registers .typedConstruct info.toExport e.context id c ∧
      c.classes = e.context.classes.insertNew id info ∧
      e' = e.build .typedConstruct info.name .constructorMagic info.toExport id c := by
  rcases Option.bind_eq_some_iff.mp h with ⟨⟨classID, c⟩, hnew, heq⟩
  cases heq
  refine ⟨_, registers_class he hnew info, ?_, rfl⟩
  rcases Option.map_eq_some_iff.mp hnew with ⟨_, _, hc⟩
  cases hc
  rfl

/-- Installing a type registers the class and goes on with minor changes. -/
theorem installType_cases {e e' : Engine Fn Get Set} {type : MetaType} {className : CName}
    {x : TypeExports Fn Get Set} (he : e.context.Numbered)
    (h : e.installType type className x = some e') :
    ∃ id c info,
      info = { name := className, type := type, classID := e.jsClassIDAlloc : JSClassInfo } ∧
      Registers .typedConstruct info.toExport e.context id c ∧
      c.classes = e.context.classes.insertNew id info ∧
      Minors (e.build .typedConstruct className .constructorMagic info.toExport id c) e' := by
  rcases Option.bind_eq_some_iff.mp h with ⟨⟨id, e1⟩, hctor, h⟩
  rcases Option.bind_eq_some_iff.mp h with ⟨e2, hmethods, h⟩
  rcases Option.bind_eq_some_iff.mp h with ⟨_, _, h⟩
  rcases Option.bind_eq_some_iff.mp h with ⟨e3, hstatics, h⟩
  rcases Option.bind_eq_some_iff.mp h with ⟨e4, hproperties, heq⟩
  cases heq
  rcases exportConstructor_cases (by exact he) hctor with ⟨c, hreg, hclasses, he1⟩
  refine ⟨id, c, _, rfl, hreg, hclasses, ?_⟩
  have hnum : e1.context.Numbered := by
    rw [he1]
    exact hreg.numbered he
  -- the global and the class name come first, then the three loops
  have h1 : Minors e1 _ := (defineGlobal_minor className (.function e.built.length) e1).trans
    (nameClass_minor e.built.length className _)
  have h2 : Minors e1 e2 := h1.trans
    (foldlM_minor (fun _ _ _ _ => exportMethod_minor) _ (h1.numbered hnum) hmethods)
  have h3 : Minors e1 e3 := h2.trans
    (foldlM_minor (fun _ _ _ => exportCall_minor) _ (h2.numbered hnum) hstatics)
  have h4 : Minors e1 e4 := h3.trans
    (foldlM_minor (fun _ _ _ => exportProperty_minor) _ (h3.numbered hnum) hproperties)
  refine Relation.ReflTransGen.trans (minors_other ?_ ?_) (h4.trans (minors_other rfl rfl))
  · rw [he1]
    rfl
  · rw [he1]
    rfl

/-- Exporting a type does nothing when the name is taken, and otherwise registers
    the class and goes on with minor changes. -/
theorem exportType_cases {e e' : Engine Fn Get Set} {type : MetaType} {className : CName}
    {x : TypeExports Fn Get Set} (he : e.context.Numbered)
    (h : e.exportType type className x = some e') :
    (e.env.isExported className ∧ e' = e) ∨
    (¬ e.env.isExported className ∧ ∃ id c info,
      info = { name := className, type := type, classID := e.jsClassIDAlloc : JSClassInfo } ∧
      Registers .typedConstruct info.toExport e.context id c ∧
      c.classes = e.context.classes.insertNew id info ∧
      Minors (e.build .typedConstruct className .constructorMagic info.toExport id c) e') := by
  rw [exportType_eq] at h
  by_cases hname : e.env.isExported className
  · rw [if_pos hname] at h
    cases h
    exact Or.inl ⟨hname, rfl⟩
  · rw [if_neg hname] at h
    exact Or.inr ⟨hname, installType_cases he h⟩

/-! ### What registrations leave alone -/

/-- A loop keeps what its body keeps. -/
theorem foldlM_keeps {β γ : Type} {f : Engine Fn Get Set → β → Option (Engine Fn Get Set)}
    (π : Engine Fn Get Set → γ) (hf : ∀ e x e', f e x = some e' → π e' = π e) (l : List β)
    {e e' : Engine Fn Get Set} (h : l.foldlM f e = some e') : π e' = π e := by
  induction l generalizing e with
  | nil =>
      rw [List.foldlM_nil] at h
      cases h
      rfl
  | cons x l ih =>
      rw [List.foldlM_cons] at h
      rcases Option.bind_eq_some_iff.mp h with ⟨e1, h1, h2⟩
      rw [ih h2, hf e x e1 h1]

/-- What an engine has besides the context and the function objects. -/
def surroundings (e : Engine Fn Get Set) :
    ℕ × Environment × List ConstructedObject × Dict Int32 (Dict CName (Static Fn Get Set)) :=
  (e.jsClassIDAlloc, e.env, e.objects, e.statics)

theorem exportCall_surroundings {e e' : Engine Fn Get Set} {name : CName} {value : Fn}
    (h : e.exportCall name value = some e') : e'.surroundings = e.surroundings := by
  rcases Option.bind_eq_some_iff.mp h with ⟨_, _, heq⟩
  cases heq
  rfl

theorem exportMethod_surroundings {e e' : Engine Fn Get Set} {name : CName}
    (h : e.exportMethod name = some e') : e'.surroundings = e.surroundings := by
  rcases Option.bind_eq_some_iff.mp h with ⟨_, _, heq⟩
  cases heq
  rfl

theorem exportProperty_surroundings {e e' : Engine Fn Get Set}
    {property : CName × JSProperty Get Set} (h : e.exportProperty property = some e') :
    e'.surroundings = e.surroundings := by
  rcases Option.bind_eq_some_iff.mp h with ⟨e1, hgetter, hrest⟩
  have hfirst : e1.surroundings = e.surroundings := by
    rcases Option.bind_eq_some_iff.mp hgetter with ⟨_, _, heq⟩
    cases heq
    rfl
  cases hsetter : property.2.setter with
  | none =>
      rw [hsetter] at hrest
      cases hrest
      exact hfirst
  | some setter =>
      rw [hsetter] at hrest
      rcases Option.bind_eq_some_iff.mp hrest with ⟨_, _, heq⟩
      cases heq
      exact hfirst

/-- Outside the tables, installing a type makes a global, names the class, and
    places the statics. -/
theorem installType_surroundings {e e' : Engine Fn Get Set} {type : MetaType} {className : CName}
    {x : TypeExports Fn Get Set} (h : e.installType type className x = some e') :
    e'.statics = e.statics.insert e.context.classCounter (placeStatics e.env.unsettable x) ∧
      e'.objects = e.objects ∧ e'.jsClassIDAlloc = e.jsClassIDAlloc + 1 ∧
      e'.env = (e.env.defineGlobal className (.function e.built.length)).nameClass e.built.length
        className := by
  rcases Option.bind_eq_some_iff.mp h with ⟨⟨id, e1⟩, hctor, h⟩
  rcases Option.bind_eq_some_iff.mp h with ⟨e2, hmethods, h⟩
  rcases Option.bind_eq_some_iff.mp h with ⟨_, _, h⟩
  rcases Option.bind_eq_some_iff.mp h with ⟨e3, hstatics, h⟩
  rcases Option.bind_eq_some_iff.mp h with ⟨e4, hproperties, heq⟩
  cases heq
  rcases Option.bind_eq_some_iff.mp hctor with ⟨⟨contextClassID, c⟩, hnew, heq⟩
  cases heq
  rcases Option.map_eq_some_iff.mp hnew with ⟨⟨new, next⟩, halloc, heq⟩
  cases heq
  have h2 := foldlM_keeps surroundings (fun _ _ _ => exportMethod_surroundings) _ hmethods
  have h3 := foldlM_keeps surroundings (fun _ _ _ => exportCall_surroundings) _ hstatics
  have h4 := foldlM_keeps surroundings (fun _ _ _ => exportProperty_surroundings) _ hproperties
  have hall := h4.trans (h3.trans h2)
  unfold surroundings at hall
  rw [Prod.mk.injEq, Prod.mk.injEq, Prod.mk.injEq] at hall
  rcases hall with ⟨hclassID, henv, hobjects, hplaced⟩
  refine ⟨?_, ?_, hclassID, ?_⟩
  · dsimp only
    rw [hplaced, (allocate_spec halloc).1]
    rfl
  · exact hobjects
  · exact henv

theorem exportType_surroundings {e e' : Engine Fn Get Set} {type : MetaType} {className : CName}
    {x : TypeExports Fn Get Set} (hname : ¬ e.env.isExported className)
    (h : e.exportType type className x = some e') :
    e'.statics = e.statics.insert e.context.classCounter (placeStatics e.env.unsettable x) ∧
      e'.objects = e.objects ∧ e'.jsClassIDAlloc = e.jsClassIDAlloc + 1 ∧
      e'.env = (e.env.defineGlobal className (.function e.built.length)).nameClass e.built.length
        className := by
  rw [exportType_eq, if_neg hname] at h
  exact installType_surroundings h

/-- The class is registered under the next class ID. -/
theorem exportType_lookup {e e' : Engine Fn Get Set} {type : MetaType} {className : CName}
    {x : TypeExports Fn Get Set} (he : e.context.Numbered) (hname : ¬ e.env.isExported className)
    (h : e.exportType type className x = some e') (id : Int32) :
    e'.context.classes.lookup id = if id = e.context.classCounter then
      some { name := className, type := type, classID := e.jsClassIDAlloc }
      else e.context.classes.lookup id := by
  rcases exportType_cases he h with ⟨hexported, _⟩ | ⟨_, new, c, info, rfl, hreg, hclasses, hrest⟩
  · exact absurd hexported hname
  have hnew : new = e.context.classCounter := hreg.id_eq
  have hnone : e.context.classes.lookup new = none := by
    have hfind := he.findExport_counter .typedConstruct
    rw [hnew]
    exact Option.map_eq_none_iff.mp hfind
  rw [hrest.classes_eq, ← hnew]
  show c.classes.lookup id = _
  rw [hclasses]
  exact Dict.lookup_insertNew_of_none hnone id _

theorem exportType_classCounter {e e' : Engine Fn Get Set} {type : MetaType} {className : CName}
    {x : TypeExports Fn Get Set} (he : e.context.Numbered) (hname : ¬ e.env.isExported className)
    (h : e.exportType type className x = some e') :
    e'.context.classCounter.toInt = e.context.classCounter.toInt + 1 := by
  rcases exportType_cases he h with ⟨hexported, _⟩ | ⟨_, id, c, info, rfl, hreg, _, hrest⟩
  · exact absurd hexported hname
  · exact hrest.classCounter_eq.trans (hreg.counter .classCounter)

theorem isExported_defineGlobal_self {env : Environment} (hext : env.extensible = true)
    (name : CName) (value : ScriptValue) :
    (env.defineGlobal name value).isExported name = true := by
  unfold Environment.defineGlobal Environment.isExported
  rw [if_pos hext]
  dsimp only
  rw [Dict.lookup_insert, if_pos rfl]
  rfl

/-- The global resolves to the constructor, and the constructor was built for the
    next class ID. -/
theorem exportType_installs {e e' : Engine Fn Get Set} {type : MetaType} {className : CName}
    {x : TypeExports Fn Get Set} (he : e.context.Numbered) (hname : ¬ e.env.isExported className)
    (hext : e.env.extensible = true) (hlexical : e.env.lexical.lookup className = none)
    (h : e.exportType type className x = some e') :
    e'.env.getGlobalVar className = some (.function e.built.length) ∧
    ∃ f, e'.built[e.built.length]? = some f ∧ f.tableID = e.context.classCounter ∧
      f.registered = .constructor className type e.jsClassIDAlloc := by
  constructor
  · rw [(exportType_surroundings hname h).2.2.2]
    unfold Environment.nameClass Environment.defineGlobal Environment.getGlobalVar
    rw [if_pos hext]
    dsimp only
    rw [hlexical, Dict.lookup_insert, if_pos rfl]
  · rcases exportType_cases he h with ⟨hexported, _⟩ | ⟨_, id, c, info, rfl, hreg, _, hrest⟩
    · exact absurd hexported hname
    rcases hrest.built_append with ⟨l, hl⟩
    refine ⟨⟨jsNewCFunctionMagic .typedConstruct className 1 .constructorMagic id, id,
      .constructor className type e.jsClassIDAlloc⟩, ?_, hreg.id_eq, rfl⟩
    rw [hl, List.getElem?_append_left (by
      show _ < (e.built ++ [_]).length
      rw [List.length_append, List.length_singleton]
      omega)]
    show (e.built ++ [_])[e.built.length]? = _
    rw [List.getElem?_append_right (le_refl _), Nat.sub_self]
    rfl

theorem exportFunction_statics {e e' : Engine Fn Get Set} {name : CName} {function : Fn}
    {result : Option ℕ} (h : e.exportFunction name function = some (e', result)) :
    e'.statics = e.statics := by
  unfold exportFunction at h
  by_cases hname : e.env.isExported name
  · rw [if_pos hname] at h
    cases h
    rfl
  · rw [if_neg hname] at h
    rcases Option.bind_eq_some_iff.mp h with ⟨e1, hcall, heq⟩
    cases heq
    have hsame := exportCall_surroundings hcall
    unfold surroundings at hsame
    rw [Prod.mk.injEq, Prod.mk.injEq, Prod.mk.injEq] at hsame
    exact hsame.2.2.2

/-! ### Constructions -/

theorem typedConstruct_minor {e e' : Engine Fn Get Set} {magic : Int32} {newTarget fresh : ℕ}
    {natives : Natives Get Set} {result : Constructed} (he : e.context.Numbered)
    (h : e.typedConstruct magic newTarget natives fresh = some (e', result)) : Minors e e' := by
  unfold typedConstruct at h
  cases hclass : e.context.classes.lookup magic with
  | none =>
      rw [hclass] at h
      cases h
      exact Relation.ReflTransGen.refl
  | some classType =>
      rw [hclass] at h
      dsimp only at h
      split_ifs at h with hthrows
      · cases h
        exact Relation.ReflTransGen.refl
      · rcases Option.bind_eq_some_iff.mp h with ⟨e1, hproperties, heq⟩
        cases heq
        have hloop := foldlM_minor (fun _ _ _ => exportProperty_minor) _ he hproperties
        exact hloop.trans (minors_other rfl rfl)

theorem new_minor {e e' : Engine Fn Get Set} {callee : ScriptValue} {fresh : ℕ}
    {natives : Natives Get Set} {foreign result : Option ScriptValue} (he : e.context.Numbered)
    (h : e.new callee natives fresh foreign = some (e', result)) : Minors e e' := by
  cases callee with
  | function index =>
      unfold new at h
      dsimp only at h
      cases hf : e.built[index]? with
      | none =>
          rw [hf] at h
          cases h
          exact Relation.ReflTransGen.refl
      | some f =>
          rw [hf] at h
          dsimp only at h
          split_ifs at h with hproto
          · rcases Option.bind_eq_some_iff.mp h with ⟨⟨e1, constructed⟩, hconstruct, heq⟩
            have hminor := typedConstruct_minor he hconstruct
            cases constructed <;> cases heq <;> exact hminor
          · cases h
            exact Relation.ReflTransGen.refl
  | object index => cases h; exact Relation.ReflTransGen.refl
  | undefined => cases h; exact Relation.ReflTransGen.refl
  | other => cases h; exact Relation.ReflTransGen.refl

theorem evaluateLetNew_minor {e e' : Engine Fn Get Set} {variableName className : CName}
    {fresh : ℕ} {natives : Natives Get Set} {foreign result : Option ScriptValue}
    (he : e.context.Numbered)
    (h : e.evaluateLetNew variableName className natives fresh foreign = some (e', result)) :
    Minors e e' := by
  unfold evaluateLetNew at h
  by_cases hdeclared : e.env.isDeclared variableName
  · rw [if_pos hdeclared] at h
    cases h
    exact Relation.ReflTransGen.refl
  · rw [if_neg hdeclared] at h
    have hbind : Minors e (e.bindLexical variableName none) := minors_other rfl rfl
    dsimp only at h
    cases hcallee : (e.bindLexical variableName none).env.getGlobalVar className with
    | none =>
        rw [hcallee] at h
        cases h
        exact hbind
    | some callee =>
        rw [hcallee] at h
        rcases Option.bind_eq_some_iff.mp h with ⟨⟨e1, r⟩, hnew, heq⟩
        have hminor := hbind.trans (new_minor he hnew)
        cases r with
        | none => cases heq; exact hminor
        | some value => cases heq; exact hminor.trans (minors_other rfl rfl)

theorem typedConstruct_statics {e e' : Engine Fn Get Set} {magic : Int32} {newTarget fresh : ℕ}
    {natives : Natives Get Set} {result : Constructed}
    (h : e.typedConstruct magic newTarget natives fresh = some (e', result)) :
    e'.statics = e.statics := by
  unfold typedConstruct at h
  cases hclass : e.context.classes.lookup magic with
  | none =>
      rw [hclass] at h
      cases h
      rfl
  | some classType =>
      rw [hclass] at h
      dsimp only at h
      split_ifs at h with hthrows
      · cases h
        rfl
      · rcases Option.bind_eq_some_iff.mp h with ⟨e1, hproperties, heq⟩
        cases heq
        have hsame := foldlM_keeps surroundings (fun _ _ _ => exportProperty_surroundings) _
          hproperties
        unfold surroundings at hsame
        rw [Prod.mk.injEq, Prod.mk.injEq, Prod.mk.injEq] at hsame
        exact hsame.2.2.2

theorem new_statics {e e' : Engine Fn Get Set} {callee : ScriptValue} {fresh : ℕ}
    {natives : Natives Get Set} {foreign result : Option ScriptValue}
    (h : e.new callee natives fresh foreign = some (e', result)) : e'.statics = e.statics := by
  cases callee with
  | function index =>
      unfold new at h
      dsimp only at h
      cases hf : e.built[index]? with
      | none =>
          rw [hf] at h
          cases h
          rfl
      | some f =>
          rw [hf] at h
          dsimp only at h
          split_ifs at h with hproto
          · rcases Option.bind_eq_some_iff.mp h with ⟨⟨e1, constructed⟩, hconstruct, heq⟩
            have hsame := typedConstruct_statics hconstruct
            cases constructed <;> cases heq <;> exact hsame
          · cases h
            rfl
  | object index => cases h; rfl
  | undefined => cases h; rfl
  | other => cases h; rfl

theorem evaluateLetNew_statics {e e' : Engine Fn Get Set} {variableName className : CName}
    {fresh : ℕ} {natives : Natives Get Set} {foreign result : Option ScriptValue}
    (h : e.evaluateLetNew variableName className natives fresh foreign = some (e', result)) :
    e'.statics = e.statics := by
  unfold evaluateLetNew at h
  by_cases hdeclared : e.env.isDeclared variableName
  · rw [if_pos hdeclared] at h
    cases h
    rfl
  · rw [if_neg hdeclared] at h
    dsimp only at h
    cases hcallee : (e.bindLexical variableName none).env.getGlobalVar className with
    | none =>
        rw [hcallee] at h
        cases h
        rfl
    | some callee =>
        rw [hcallee] at h
        rcases Option.bind_eq_some_iff.mp h with ⟨⟨e1, r⟩, hnew, heq⟩
        have hsame := new_statics hnew
        cases r with
        | none => cases heq; exact hsame
        | some value => cases heq; exact hsame

/-- Attaching an instance does nothing when its type was not exported, and
    otherwise evaluates the script with the instance waiting on the class found. -/
theorem attachInstance_cases {e e' : Engine Fn Get Set} {order : List (Int32 × JSClassInfo)}
    {instance? : NativeRef} {className variableName : CName} {natives : Natives Get Set}
    {fresh : ℕ} {foreign result : Option ScriptValue}
    (h : e.attachInstance order instance? className variableName natives fresh foreign
      = some (e', result)) :
    (findExportClassType order instance?.type = none ∧ e' = e ∧ result = none) ∨
    ∃ id info e₁ r, findExportClassType order instance?.type = some (id, info) ∧
      evaluateLetNew variableName className natives fresh foreign
        { e with context := e.context.setWaitingToAttach id (some instance?) } = some (e₁, r) ∧
      result = r.bind (fun value => e₁.wrapClass natives value) ∧
      e' = { e₁ with context := e₁.context.setWaitingToAttach id none } := by
  unfold attachInstance at h
  cases hfound : findExportClassType order instance?.type with
  | none =>
      rw [hfound] at h
      cases h
      exact Or.inl ⟨rfl, rfl, rfl⟩
  | some found =>
      rcases found with ⟨id, info⟩
      rw [hfound] at h
      rcases Option.bind_eq_some_iff.mp h with ⟨⟨e₁, r⟩, heval, heq⟩
      cases heq
      exact Or.inr ⟨id, info, e₁, r, rfl, heval, rfl, rfl⟩

/-! ### While there is room -/

/-- Every counter can hand out `n` more IDs. -/
def Room (e : Engine Fn Get Set) (n : ℕ) : Prop :=
  ∀ k, (e.context.counter k).toInt + n ≤ 2 ^ 31 - 1

/-- A counter that has room hands out its ID. -/
theorem allocate_eq_some (counter : Int32) (h : counter.toInt + 1 ≤ 2 ^ 31 - 1) :
    allocate counter = some (counter, counter + 1) := by
  have hne : counter ≠ Int32.maxValue := by
    intro heq
    rw [heq, Int32.toInt_maxValue] at h
    omega
  unfold allocate
  rw [if_neg hne]

theorem Room.mono {e : Engine Fn Get Set} {m n : ℕ} (h : e.Room n) (hle : m ≤ n) : e.Room m := by
  intro k
  have hk := h k
  omega

/-- One registration takes up at most one ID of each counter. -/
theorem Room.registers {e : Engine Fn Get Set} {n : ℕ} (h : e.Room (n + 1))
    {callback : Callback} {value : Export Fn Get Set} {id : Int32} {c : JSContext Fn Get Set}
    (hreg : Registers callback value e.context id c) (k : Counter) :
    (c.counter k).toInt + n ≤ 2 ^ 31 - 1 := by
  have hk := h k
  rw [hreg.counter]
  push_cast at hk
  by_cases heq : k = callback.counter
  · rw [if_pos heq]
    omega
  · rw [if_neg heq]
    omega

theorem exportCall_eq_some {e : Engine Fn Get Set} {n : ℕ} (he : e.context.Numbered)
    (h : e.Room (n + 1)) (name : CName) (value : Fn) :
    ∃ e', e.exportCall name value = some e' ∧ e'.context.Numbered ∧ e'.Room n := by
  have hroom := h.mono (Nat.le_add_left 1 n) .functionCounter
  have hsome : ∃ id c, e.context.newContextFunctionID = some (id, c) := by
    unfold newContextFunctionID
    rw [allocate_eq_some e.context.functionCounter hroom]
    exact ⟨_, _, rfl⟩
  rcases hsome with ⟨id, c, hnew⟩
  have hreg := registers_function he hnew value
  refine ⟨e.build .typedCall name .genericMagic (.function value) id (c.addExportFunction value id), ?_,
    hreg.numbered he, h.registers hreg⟩
  unfold exportCall
  rw [hnew]
  rfl

theorem exportMethod_eq_some {e : Engine Fn Get Set} {n : ℕ} (he : e.context.Numbered)
    (h : e.Room (n + 1)) (name : CName) :
    ∃ e', e.exportMethod name = some e' ∧ e'.context.Numbered ∧ e'.Room n := by
  have hroom := h.mono (Nat.le_add_left 1 n) .methodCounter
  have hsome : ∃ id c, e.context.newMethodID = some (id, c) := by
    unfold newMethodID
    rw [allocate_eq_some e.context.methodCounter hroom]
    exact ⟨_, _, rfl⟩
  rcases hsome with ⟨id, c, hnew⟩
  have hreg := registers_method hnew name
  refine ⟨e.build .typedInstanceMethod name .genericMagic (.method name) id (c.addExportMethod name id), ?_,
    hreg.numbered he, h.registers hreg⟩
  unfold exportMethod
  rw [hnew]
  rfl

theorem newPropertyID_eq_some {e : Engine Fn Get Set} {n : ℕ} (h : e.Room (n + 1)) :
    ∃ id c, e.context.newPropertyID = some (id, c) := by
  have hroom := h.mono (Nat.le_add_left 1 n) .propertyCounter
  unfold newPropertyID
  rw [allocate_eq_some e.context.propertyCounter hroom]
  exact ⟨_, _, rfl⟩

theorem exportGetter_eq_some {e : Engine Fn Get Set} {n : ℕ} (he : e.context.Numbered)
    (h : e.Room (n + 1)) (name : CName) (value : Get) :
    ∃ e', e.exportGetter name value = some e' ∧ e'.context.Numbered ∧ e'.Room n := by
  rcases newPropertyID_eq_some h with ⟨id, c, hnew⟩
  have hreg := registers_getter he hnew value
  refine ⟨e.build .typedGetter name .genericMagic (.getter value) id (c.addExportGetter value id), ?_,
    hreg.numbered he, h.registers hreg⟩
  unfold exportGetter
  rw [hnew]
  rfl

theorem exportSetter_eq_some {e : Engine Fn Get Set} {n : ℕ} (he : e.context.Numbered)
    (h : e.Room (n + 1)) (name : CName) (value : Set) :
    ∃ e', e.exportSetter name value = some e' ∧ e'.context.Numbered ∧ e'.Room n := by
  rcases newPropertyID_eq_some h with ⟨id, c, hnew⟩
  have hreg := registers_setter he hnew value
  refine ⟨e.build .typedSetter name .genericMagic (.setter value) id (c.addExportSetter value id), ?_,
    hreg.numbered he, h.registers hreg⟩
  unfold exportSetter
  rw [hnew]
  rfl

theorem exportProperty_eq_some {e : Engine Fn Get Set} {n : ℕ} (he : e.context.Numbered)
    (h : e.Room (n + 2)) (property : CName × JSProperty Get Set) :
    ∃ e', e.exportProperty property = some e' ∧ e'.context.Numbered ∧ e'.Room n := by
  rcases exportGetter_eq_some he h property.1 property.2.getter with ⟨e1, hgetter, hnum, hroom⟩
  cases hsetter : property.2.setter with
  | none =>
      refine ⟨e1, ?_, hnum, hroom.mono (Nat.le_succ n)⟩
      unfold exportProperty
      rw [hgetter, hsetter]
      rfl
  | some setter =>
      rcases exportSetter_eq_some hnum hroom property.1 setter with ⟨e2, hset, hnum2, hroom2⟩
      refine ⟨e2, ?_, hnum2, hroom2⟩
      unfold exportProperty
      rw [hgetter, hsetter]
      exact hset

/-- A loop succeeds when there is room for all its rounds. -/
theorem foldlM_eq_some {β : Type} {f : Engine Fn Get Set → β → Option (Engine Fn Get Set)} {w : ℕ}
    (hf : ∀ e n x, e.context.Numbered → Room e (n + w) →
      ∃ e', f e x = some e' ∧ e'.context.Numbered ∧ e'.Room n)
    (l : List β) {e : Engine Fn Get Set} {n : ℕ} (he : e.context.Numbered)
    (h : e.Room (n + w * l.length)) :
    ∃ e', l.foldlM f e = some e' ∧ e'.context.Numbered ∧ e'.Room n := by
  induction l generalizing e with
  | nil => exact ⟨e, List.foldlM_nil, he, h⟩
  | cons x l ih =>
      have hlen : n + w * (x :: l).length = n + w * l.length + w := by
        rw [List.length_cons]
        ring
      rw [hlen] at h
      rcases hf e _ x he h with ⟨e1, h1, hnum, hroom⟩
      rcases ih hnum hroom with ⟨e2, h2, hnum2, hroom2⟩
      refine ⟨e2, ?_, hnum2, hroom2⟩
      rw [List.foldlM_cons, h1]
      exact h2

/-- Exporting a type does not trap while its class and the exports of the class
    have IDs left. -/
theorem exportType_eq_some {e : Engine Fn Get Set} (he : e.context.Numbered) (type : MetaType)
    (className : CName) (x : TypeExports Fn Get Set) (hclass : e.jsClassIDAlloc < 2 ^ 16) {n : ℕ}
    (h : e.Room (n + 1 + x.dummyInstanceExports.length + x.staticMethods.length
      + 2 * x.staticProperties.length)) :
    ∃ e', e.exportType type className x = some e' ∧ e'.Room n := by
  unfold exportType
  by_cases hname : e.env.isExported className
  · rw [if_pos hname]
    exact ⟨e, rfl, h.mono (by omega)⟩
  · rw [if_neg hname]
    have hroom := h.mono (m := 1) (by omega) .classCounter
    have hsome : ∃ id c, e.context.newContextClassID = some (id, c) := by
      unfold newContextClassID
      rw [allocate_eq_some e.context.classCounter hroom]
      exact ⟨_, _, rfl⟩
    rcases hsome with ⟨id, c, hnew⟩
    let info : JSClassInfo := { name := className, type := type, classID := e.jsClassIDAlloc }
    have hreg := registers_class he hnew info
    have hafter := (h.mono (m := n + 2 * x.staticProperties.length + 1 * x.staticMethods.length
      + 1 * x.dummyInstanceExports.length + 1) (by omega)).registers hreg
    let e1 := build .typedConstruct className .constructorMagic info.toExport id
      (c.addExportClass info id) { e with jsClassIDAlloc := e.jsClassIDAlloc + 1 }
    have hctor : exportConstructor info { e with jsClassIDAlloc := e.jsClassIDAlloc + 1 }
        = some (id, e1) := by
      unfold exportConstructor
      dsimp only
      rw [hnew]
      rfl
    -- each loop in turn has the room that the ones before it left
    rcases foldlM_eq_some (fun e n x he hr => exportMethod_eq_some he hr x)
      x.dummyInstanceExports (e := nameClass e.built.length className (defineGlobal className
        (.function e.built.length) e1)) (hreg.numbered he) hafter with ⟨e2, h2, hnum2, hroom2⟩
    rcases foldlM_eq_some (fun e n x he hr => exportCall_eq_some he hr x.1 x.2)
      x.staticMethods hnum2 hroom2 with ⟨e3, h3, hnum3, hroom3⟩
    rcases foldlM_eq_some (fun e n x he hr => exportProperty_eq_some he hr x)
      x.staticProperties hnum3 hroom3 with ⟨e4, h4, _, hroom4⟩
    refine ⟨{ e4 with statics := e4.statics.insert id (placeStatics e.env.unsettable x) }, ?_,
      hroom4⟩
    refine Option.bind_eq_some_iff.mpr ⟨_, hctor, ?_⟩
    refine Option.bind_eq_some_iff.mpr ⟨e2, h2, ?_⟩
    refine Option.bind_eq_some_iff.mpr ⟨(), if_pos hclass, ?_⟩
    refine Option.bind_eq_some_iff.mpr ⟨e3, h3, ?_⟩
    exact Option.bind_eq_some_iff.mpr ⟨e4, h4, rfl⟩

end Engine

end Substrata
