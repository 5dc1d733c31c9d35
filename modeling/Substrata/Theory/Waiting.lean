import Substrata.Core.Activity
import Substrata.Theory.Attach

/-!
# The instance that waits

`export(instance:className:as:)` leaves its instance on a class, evaluates a text
that should construct one object of the class, and takes the instance off again. Any
constructor call for the class in between gets the instance, without a call of its
`construct(args:)`.

In between, the exception handler runs when the text throws: the variable is declared
already, or the class name is that of something else. So do accessors, and the native
code of another class that the name may belong to. An activity is `Undisturbed` when
none of this happens, and then it is `Orderly`: whatever else is nested in what, each
`new` in a script attaches an instance made for it and constructs it once, no instance
is attached twice, and none waits when a script or the handler begins to run.

The invariant says that operations in which an instance waits are never under others:
such an operation is the innermost, and closed. Everything below it is `Calm`.

## Main definitions

* `Activity.Orderly`: What is expected of the whole activity.
* `Activity.Undisturbed`: The condition on an act.
* `JSContext.WaitsOnly`: One instance waits at most, on one class.
* `CallFrame.Calm`: An operation in which no instance waits.
* `Activity.Serving`: What holds while a constructor runs, for a script or for
  `export(instance:)`.
* `Activity.Tended`: The invariant.
* `Activity.Leads`: Where the steps of an operation lead.

## Theorems

* `Engine.installType_eq`: With nothing in between, the three parts of
  `export(type:className:)` are the export.
* `Tended.finish`, `Tended.construct`: The constructor's end and beginning.
* `Tended.step`: Acts keep the invariant.
* `orderly_of_run_undisturbed`: The invariant over runs.
* `leads_attach`: Without other code in between, a request comes to what
  `attachInstance` does in one step.
* `exists_not_orderly`: A variable that is declared already, and a handler.
-/

namespace Substrata

open Transition JSContext Engine

variable {Fn Get Set : Type}

namespace Engine

/-! ### The parts of an export -/

/-- A registered class changes nothing about the environment. -/
theorem exportConstructor_env {info : JSClassInfo} {e : Engine Fn Get Set} {id : Int32}
    {e' : Engine Fn Get Set} (h : e.exportConstructor info = some (id, e')) : e'.env = e.env := by
  rcases Option.bind_eq_some_iff.mp h with ⟨_, _, heq⟩
  cases heq
  rfl

/-- With nothing in between, the three parts are the export. -/
theorem installType_eq (type : MetaType) (className : CName) (x : TypeExports Fn Get Set)
    (e : Engine Fn Get Set) :
    e.installType type className x =
      (e.declareType type className).bind fun r =>
        (r.2.exportMethods e.jsClassIDAlloc x.dummyInstanceExports).bind fun e' =>
          e'.exportStatics r.1 x := by
  unfold installType declareType exportMethods exportStatics
  simp only [bind, Option.bind_assoc, Option.bind_some]
  refine Option.bind_congr fun ⟨id, e1⟩ hctor => Option.bind_congr fun e2 hmethods => ?_
  -- neither the constructor nor the methods change which names are refused
  have henv : e2.env.unsettable = e.env.unsettable := by
    have hsame := foldlM_keeps surroundings (fun _ _ _ => exportMethod_surroundings) _ hmethods
    have hfirst : e1.env = e.env := (exportConstructor_env hctor :)
    rw [show e2.env = _ from congrArg (fun s => s.2.1) hsame]
    show ((e1.env.defineGlobal _ _).nameClass _ _).unsettable = _
    rw [hfirst]
    unfold Environment.nameClass Environment.defineGlobal
    by_cases hext : e.env.extensible
    · rw [if_pos hext]
    · rw [if_neg hext]
  rw [henv]

theorem sound_declareType {e e' : Engine Fn Get Set} (he : e.Sound ∧ e.Idle) {type : MetaType}
    {className : CName} {id : Int32} (h : e.declareType type className = some (id, e')) :
    e'.Sound ∧ e'.Idle := by
  rcases Option.bind_eq_some_iff.mp h with ⟨⟨id, e1⟩, hctor, heq⟩
  cases heq
  let counted : Engine Fn Get Set := { e with jsClassIDAlloc := e.jsClassIDAlloc + 1 }
  have hcounted : counted.Sound ∧ counted.Idle := sound_minors he (minors_other rfl rfl)
  rcases exportConstructor_cases hcounted.1.numbered hctor with ⟨c, hreg, hclasses, rfl⟩
  let info : JSClassInfo := { name := className, type := type, classID := e.jsClassIDAlloc }
  let built := counted.build .typedConstruct className .constructorMagic info.toExport id c
  have hbuilt : built.Sound ∧ built.Idle :=
    ⟨hcounted.1.registerClass hreg hclasses, hcounted.2.registerClass hclasses rfl⟩
  exact sound_minors hbuilt ((defineGlobal_minor _ _ _).trans (nameClass_minor _ _ _))

theorem exportMethods_minor {e e' : Engine Fn Get Set} {classID : ℕ} {names : List CName}
    (he : e.context.Numbered) (h : e.exportMethods classID names = some e') : Minors e e' := by
  rcases Option.bind_eq_some_iff.mp h with ⟨e1, hloop, hrest⟩
  rcases Option.bind_eq_some_iff.mp hrest with ⟨_, _, heq⟩
  cases heq
  exact foldlM_minor (fun _ _ _ _ => exportMethod_minor) _ he hloop

theorem exportStatics_minor {e e' : Engine Fn Get Set} {id : Int32} {x : TypeExports Fn Get Set}
    (he : e.context.Numbered) (h : e.exportStatics id x = some e') : Minors e e' := by
  rcases Option.bind_eq_some_iff.mp h with ⟨e1, hmethods, hrest⟩
  rcases Option.bind_eq_some_iff.mp hrest with ⟨e2, hproperties, heq⟩
  cases heq
  have h1 := foldlM_minor (fun _ _ _ => exportCall_minor) _ he hmethods
  have h2 := foldlM_minor (fun _ _ _ => exportProperty_minor) _ (h1.numbered he) hproperties
  exact (h1.trans h2).trans (minors_other rfl rfl)

end Engine

/-! ### What is expected -/

/-- No instance waits, or one does, on one class. -/
def JSContext.WaitsOnly (c : JSContext Fn Get Set) (classID : Int32) (instance? : NativeRef) :
    Prop :=
  ∀ id info, c.classes.lookup id = some info →
    info.waitingToAttach = none ∨ id = classID ∧ info.waitingToAttach = some instance?

theorem waitsOnly_setWaitingToAttach {e : Engine Fn Get Set} (he : e.Idle) (classID : Int32)
    (instance? : NativeRef) :
    (e.context.setWaitingToAttach classID (some instance?)).WaitsOnly classID instance? := by
  intro id info hinfo
  rw [lookup_setWaitingToAttach] at hinfo
  rcases Option.map_eq_some_iff.mp hinfo with ⟨info', hinfo', rfl⟩
  by_cases hid : id = classID
  · rw [if_pos hid]
    exact Or.inr ⟨hid, rfl⟩
  · rw [if_neg hid]
    exact Or.inl (he id info' hinfo')

theorem idle_setWaitingToAttach {c : JSContext Fn Get Set} {classID : Int32}
    {instance? : NativeRef} (hc : c.WaitsOnly classID instance?) (id : Int32) (info : JSClassInfo)
    (hinfo : (c.setWaitingToAttach classID none).classes.lookup id = some info) :
    info.waitingToAttach = none := by
  rw [lookup_setWaitingToAttach] at hinfo
  rcases Option.map_eq_some_iff.mp hinfo with ⟨info', hinfo', rfl⟩
  by_cases hid : id = classID
  · rw [if_pos hid]
  · rw [if_neg hid]
    rcases hc id info' hinfo' with hnone | ⟨heq, _⟩
    · exact hnone
    · exact absurd heq hid

/-- The constructor call under way, or the call of `export(instance:)` whose instance
    waits. -/
def CallFrame.issuer? : CallFrame → Option Issuer
  | .exportMethods _ _ => none
  | .exportStatics _ => none
  | .attaching _ => none
  | .evaluating classID request => some (.export classID request)
  | .reporting classID request => some (.export classID request)
  | .leaving classID request _ => some (.export classID request)
  | .initializing new => some new.issuer
  | .settingAtom new _ _ => some new.issuer
  | .constructing new _ _ => some new.issuer
  | .exportProperties new _ _ _ => some new.issuer

/-- An operation in which no instance waits. A constructor called by a script has made
    an instance, and constructs it once. -/
def CallFrame.Calm (serial : ℕ) : CallFrame → Prop
  | .exportMethods _ _ => True
  | .exportStatics _ => True
  | .attaching request => request.instance?.serial < serial
  | .evaluating _ _ => False
  | .reporting _ _ => False
  | .leaving _ _ _ => False
  | .initializing new => new.issuer = .script
  | .settingAtom new _ fresh => new.issuer = .script ∧ fresh = true
  | .constructing new _ fresh => new.issuer = .script ∧ fresh = true
  | .exportProperties new _ fresh constructs =>
      new.issuer = .script ∧ fresh = true ∧ constructs = 1

theorem CallFrame.Calm.mono {serial serial' : ℕ} (hle : serial ≤ serial') {frame : CallFrame}
    (h : frame.Calm serial) : frame.Calm serial' := by
  cases frame with
  | attaching request => exact lt_of_lt_of_le h hle
  | _ => exact h

/-- In a calm constructor a script is being served. -/
theorem CallFrame.Calm.issuer {serial : ℕ} {frame : CallFrame} (h : frame.Calm serial) {issuer : Issuer}
    (hissuer : frame.issuer? = some issuer) : issuer = .script := by
  cases frame with
  | exportMethods => cases hissuer
  | exportStatics => cases hissuer
  | attaching => cases hissuer
  | evaluating => exact absurd h not_false
  | reporting => exact absurd h not_false
  | leaving => exact absurd h not_false
  | initializing new => exact (Option.some.inj hissuer).symm.trans h
  | settingAtom new => exact (Option.some.inj hissuer).symm.trans h.1
  | constructing new => exact (Option.some.inj hissuer).symm.trans h.1
  | exportProperties new => exact (Option.some.inj hissuer).symm.trans h.1

namespace Activity

/-- Each `new` that `export(instance:)` did not issue has attached an instance made for
    it, and constructed it once; no instance was attached twice; and no instance waited
    when a script or the exception handler began to run. -/
structure Orderly (a : Activity Fn Get Set) : Prop where
  evaluations : ∀ v ∈ a.evaluations, v.own = false → v.fresh = true ∧ v.constructs = 1
  attached : a.attached.Nodup
  ran : ∀ c ∈ a.ran, ∀ id info, c.classes.lookup id = some info → info.waitingToAttach = none

/-- The text is evaluated without other code in between; an instance that its
    constructor finds waiting has not been attached before; and where it throws no
    handler is installed. -/
def Undisturbed (a : Activity Fn Get Set) : Act Fn Get Set → Prop
  | .attach order => ∀ request rest, a.frames = .attaching request :: rest →
      findExportClassType order request.instance?.type ≠ none → request.direct = true
  | .evaluate _ => ∀ classID request rest index,
      a.frames = .evaluating classID request :: rest →
      a.engine.callee request.variableName request.className = some (.function index) →
      a.engine.constructorMagic index = some classID → request.instance? ∉ a.attached
  | .report => a.exceptionHandler = false
  | _ => True

/-! ### The invariant -/

/-- What the engine and the past are like, whatever is under way. -/
structure Kept (a : Activity Fn Get Set) : Prop where
  sound : a.engine.Sound
  below : ∀ instance? ∈ a.attached, instance?.serial < a.serial
  orderly : a.Orderly

/-- A constructor runs with `rest` under it: for a script, or for the text evaluated for
    an instance. -/
def Serving (issuer : Issuer) (rest : List CallFrame) (a : Activity Fn Get Set) : Prop :=
  (∀ frame ∈ rest, frame.Calm a.serial) ∧
  match issuer with
  | .script => a.engine.Idle
  | .export classID request =>
      request.direct = true ∧ request.instance?.serial < a.serial ∧
        a.engine.context.WaitsOnly classID request.instance?

/-- No instance waits. -/
def Quiet (a : Activity Fn Get Set) : Prop :=
  a.engine.Idle ∧ ∀ frame ∈ a.frames, frame.Calm a.serial

/-- An instance may wait, and the innermost operation is the one that it waits in. -/
def Attends (a : Activity Fn Get Set) : Prop :=
  ∃ frame rest classID request, a.frames = frame :: rest ∧
    frame.issuer? = some (.export classID request) ∧ frame.isOpen = false ∧
    a.Serving (.export classID request) rest

structure Tended (a : Activity Fn Get Set) : Prop where
  kept : a.Kept
  mode : a.Quiet ∨ a.Attends

/-! ### What the invariant says at a frame -/

theorem Tended.quiet_of_open {a : Activity Fn Get Set} (h : a.Tended) (hopen : a.isOpen) :
    a.Quiet := by
  rcases h.mode with hquiet | ⟨frame, rest, classID, request, hframes, _, hclosed, _⟩
  · exact hquiet
  · unfold isOpen at hopen
    rw [hframes] at hopen
    exact absurd (hopen.symm.trans hclosed) (by simp only [reduceCtorEq, not_false_eq_true])

theorem Tended.quiet_of_issuer {a : Activity Fn Get Set} (h : a.Tended) {frame : CallFrame}
    {rest : List CallFrame} (hframes : a.frames = frame :: rest) (hissuer : frame.issuer? = none) :
    a.Quiet := by
  rcases h.mode with hquiet | ⟨frame', rest', classID, request, hframes', hissuer', _⟩
  · exact hquiet
  · obtain ⟨rfl, rfl⟩ := List.cons.inj (hframes.symm.trans hframes')
    rw [hissuer] at hissuer'
    cases hissuer'

/-- Whoever a constructor runs for is being served. -/
theorem Tended.serving {a : Activity Fn Get Set} (h : a.Tended) {frame : CallFrame}
    {rest : List CallFrame} (hframes : a.frames = frame :: rest) {issuer : Issuer}
    (hissuer : frame.issuer? = some issuer) : a.Serving issuer rest := by
  rcases h.mode with ⟨hidle, hcalm⟩ | ⟨frame', rest', classID, request, hframes', hissuer', _, hserving⟩
  · rw [hframes] at hcalm
    have hscript := (hcalm frame List.mem_cons_self).issuer hissuer
    subst hscript
    exact ⟨fun f hf => hcalm f (List.mem_cons_of_mem _ hf), hidle⟩
  · obtain ⟨rfl, rfl⟩ := List.cons.inj (hframes.symm.trans hframes')
    rw [hissuer] at hissuer'
    cases hissuer'
    exact hserving

/-- A constructor that a script called is calm. -/
theorem Tended.calm_of_script {a : Activity Fn Get Set} (h : a.Tended) {frame : CallFrame}
    {rest : List CallFrame} (hframes : a.frames = frame :: rest)
    (hissuer : frame.issuer? = some .script) : frame.Calm a.serial := by
  rcases h.mode with ⟨_, hcalm⟩ | ⟨frame', rest', classID, request, hframes', hissuer', _⟩
  · rw [hframes] at hcalm
    exact hcalm frame List.mem_cons_self
  · obtain ⟨rfl, rfl⟩ := List.cons.inj (hframes.symm.trans hframes')
    rw [hissuer] at hissuer'
    cases hissuer'

/-- The text of a request that is being served was evaluated without other code. -/
theorem Serving.direct {a : Activity Fn Get Set} {classID : Int32} {request : Request}
    {rest : List CallFrame} (h : a.Serving (.export classID request) rest) : request.direct = true :=
  h.2.1

/-- The class a script is being served with has nobody waiting. -/
theorem Serving.idle {a : Activity Fn Get Set} {rest : List CallFrame}
    (h : a.Serving .script rest) : a.engine.Idle :=
  h.2

/-- Only the classes of the engine matter to who is being served. -/
theorem Serving.of_classes {a a' : Activity Fn Get Set} {issuer : Issuer} {rest : List CallFrame}
    (h : a.Serving issuer rest) (hclasses : a'.engine.context.classes = a.engine.context.classes)
    (hserial : a.serial ≤ a'.serial) : a'.Serving issuer rest := by
  refine ⟨fun f hf => (h.1 f hf).mono hserial, ?_⟩
  cases issuer with
  | script =>
      intro id info hinfo
      rw [hclasses] at hinfo
      exact h.idle id info hinfo
  | «export» classID request =>
      refine ⟨h.direct, lt_of_lt_of_le h.2.2.1 hserial, ?_⟩
      intro id info hinfo
      rw [hclasses] at hinfo
      exact h.2.2.2 id info hinfo

/-! ### Constructors -/

/-- The past does not change when the engine or the frames do. -/
theorem Kept.of_minors {a a' : Activity Fn Get Set} (h : a.Kept)
    (hengine : Minors a.engine a'.engine) (hattached : a'.attached = a.attached)
    (hserial : a.serial ≤ a'.serial) (horderly : a'.Orderly) : a'.Kept := by
  refine ⟨h.sound.minors hengine, ?_, horderly⟩
  intro instance? hmem
  rw [hattached] at hmem
  exact lt_of_lt_of_le (h.below instance? hmem) hserial

theorem Kept.withFrames {a : Activity Fn Get Set} (h : a.Kept) (frames : List CallFrame) :
    (a.withFrames frames).Kept :=
  ⟨h.sound, h.below, ⟨h.orderly.evaluations, h.orderly.attached, h.orderly.ran⟩⟩

theorem Kept.withEngine {a : Activity Fn Get Set} (h : a.Kept) {e : Engine Fn Get Set}
    (he : e.Sound) : (a.withEngine e).Kept :=
  ⟨he, h.below, ⟨h.orderly.evaluations, h.orderly.attached, h.orderly.ran⟩⟩

/-- Script code or the handler begins to run, and nobody waits. -/
theorem Kept.run {a : Activity Fn Get Set} (h : a.Kept) (hidle : a.engine.Idle) : a.run.Kept := by
  refine ⟨h.sound, h.below, h.orderly.evaluations, h.orderly.attached, ?_⟩
  intro c hc
  rcases List.mem_append.mp hc with hold | hnew
  · exact h.orderly.ran c hold
  · rw [List.mem_singleton] at hnew
    subst hnew
    exact hidle

/-- An instance is attached for the first time. -/
theorem Kept.attachTo {a : Activity Fn Get Set} (h : a.Kept) (new : Construction)
    {instance? : NativeRef} (fresh : Bool) (rest : List CallFrame)
    (hnew : instance? ∉ a.attached) {serial : ℕ} (hle : a.serial ≤ serial)
    (hserial : instance?.serial < serial) :
    ({ a.attachTo new instance? fresh rest with serial := serial } : Activity Fn Get Set).Kept := by
  refine ⟨h.sound, ?_, h.orderly.evaluations, ?_, h.orderly.ran⟩
  · intro i hi
    rcases List.mem_append.mp hi with hold | hlast
    · exact lt_of_lt_of_le (h.below i hold) hle
    · rw [List.mem_singleton] at hlast
      subst hlast
      exact hserial
  · refine List.nodup_append.mpr ⟨h.orderly.attached, List.nodup_singleton _, ?_⟩
    intro i hi j hj
    rw [List.mem_singleton] at hj
    subst hj
    intro heq
    subst heq
    exact hnew hi

/-- An evaluation is over. -/
theorem Kept.record {a : Activity Fn Get Set} (h : a.Kept) {new : Construction}
    {instance? : NativeRef} {fresh : Bool} {constructs : ℕ}
    (hnew : new.issuer = .script → fresh = true ∧ constructs = 1) :
    (a.record new instance? fresh constructs).Kept := by
  refine ⟨h.sound, h.below, ?_, h.orderly.attached, h.orderly.ran⟩
  intro v hv hown
  rcases List.mem_append.mp hv with hold | hlast
  · exact h.orderly.evaluations v hold hown
  · rw [List.mem_singleton] at hlast
    subst hlast
    dsimp only at hown ⊢
    cases hissuer : new.issuer with
    | script => exact hnew hissuer
    | «export» classID request =>
        rw [hissuer] at hown
        cases hown

/-- The end of a constructor. -/
theorem Tended.finish {a : Activity Fn Get Set} (hkept : a.Kept) {issuer : Issuer}
    {rest : List CallFrame} (h : a.Serving issuer rest) (result : Option ScriptValue) :
    (a.finish issuer result rest).Tended := by
  cases issuer with
  | script => exact ⟨hkept.withFrames rest, Or.inl ⟨h.idle, h.1⟩⟩
  | «export» classID request =>
      have hclosed : (!request.direct) = false := by
        rw [h.direct]
        rfl
      cases result with
      | none =>
          exact ⟨hkept.withFrames _,
            Or.inr ⟨.reporting classID request, rest, classID, request, rfl, rfl, hclosed, h⟩⟩
      | some value =>
          have hbind : Minors a.engine (a.engine.bindLexical request.variableName (some value)) :=
            minors_other rfl rfl
          exact ⟨(hkept.withEngine (hkept.sound.minors hbind)).withFrames _,
            Or.inr ⟨.leaving classID request false, rest, classID, request, rfl, rfl, hclosed,
              h.of_classes rfl (le_refl _)⟩⟩

/-- A constructor goes on to a frame of its own. -/
theorem Tended.of_serving {a : Activity Fn Get Set} (hkept : a.Kept) {frame : CallFrame}
    {rest : List CallFrame} {issuer : Issuer} (hframes : a.frames = frame :: rest)
    (h : a.Serving issuer rest) (hissuer : frame.issuer? = some issuer)
    (hopen : frame.isOpen = issuer.isOpen)
    (hcalm : issuer = .script → frame.Calm a.serial) : a.Tended := by
  refine ⟨hkept, ?_⟩
  cases issuer with
  | script =>
      refine Or.inl ⟨h.idle, ?_⟩
      rw [hframes]
      exact List.forall_mem_cons.mpr ⟨hcalm rfl, h.1⟩
  | «export» classID request =>
      refine Or.inr ⟨frame, rest, classID, request, hframes, hissuer, hopen.trans ?_, h⟩
      show (!request.direct) = false
      rw [h.direct]
      rfl

/-- The beginning of a constructor. Only `export(instance:)` can be served with an
    instance waiting, and then the class is the one it put the instance on. -/
theorem Tended.construct {a : Activity Fn Get Set} (hkept : a.Kept) {issuer : Issuer}
    {rest : List CallFrame} (h : a.Serving issuer rest) (magic : Int32) (newTarget : ℕ)
    (hnew : ∀ request, issuer = .export magic request → request.instance? ∉ a.attached) :
    (a.construct issuer magic newTarget rest).Tended := by
  unfold Activity.construct
  cases hclass : a.engine.context.classes.lookup magic with
  | none => exact Tended.finish hkept h _
  | some classType =>
      dsimp only
      cases hwaiting : classType.waitingToAttach with
      | none =>
          refine Tended.of_serving (hkept.withFrames _) rfl h rfl rfl ?_
          intro hscript
          exact hscript
      | some instance? =>
          cases issuer with
          | script =>
              rw [h.idle magic classType hclass] at hwaiting
              cases hwaiting
          | «export» classID request =>
              rcases h.2.2.2 magic classType hclass with hnone | ⟨rfl, hsome⟩
              · rw [hnone] at hwaiting
                cases hwaiting
              · obtain rfl : request.instance? = instance? :=
                  Option.some.inj (hsome.symm.trans hwaiting)
                have hattach := hkept.attachTo
                  ⟨.export magic request, magic, newTarget, classType.classID⟩ false rest
                  (hnew request rfl) (le_refl _) h.2.2.1
                exact Tended.of_serving hattach rfl h rfl rfl
                  fun hscript => by cases hscript

/-- Evaluating the text of a request. -/
theorem Tended.evaluate {a : Activity Fn Get Set} (hkept : a.Kept) {classID : Int32}
    {request : Request} {rest : List CallFrame} (h : a.Serving (.export classID request) rest)
    (foreign : Option ScriptValue)
    (hnew : ∀ index, a.engine.callee request.variableName request.className = some (.function index) →
      a.engine.constructorMagic index = some classID → request.instance? ∉ a.attached) :
    (a.evaluate classID request foreign rest).Tended := by
  unfold Activity.evaluate
  dsimp only
  by_cases hdeclared : a.engine.env.isDeclared request.variableName
  · rw [if_pos hdeclared]
    exact Tended.finish hkept h none
  · rw [if_neg hdeclared]
    have hbind : Minors a.engine (a.engine.bindLexical request.variableName none) :=
      minors_other rfl rfl
    have hbound := hkept.withEngine (hkept.sound.minors hbind)
    have hserving : (a.withEngine (a.engine.bindLexical request.variableName none)).Serving
        (.export classID request) rest := h.of_classes rfl (le_refl _)
    cases hcallee : a.engine.callee request.variableName request.className with
    | none => exact Tended.finish hbound hserving none
    | some value =>
        cases value with
        | function index =>
            dsimp only
            cases hmagic : a.engine.constructorMagic index with
            | none => exact Tended.finish hbound hserving none
            | some magic =>
                refine Tended.construct hbound hserving magic index ?_
                intro request' hissuer
                cases hissuer
                exact hnew index hcallee hmagic
        | object index => exact Tended.finish hbound hserving foreign
        | undefined => exact Tended.finish hbound hserving foreign
        | other => exact Tended.finish hbound hserving foreign

/-- An operation that leaves the classes alone, with no instance waiting. -/
theorem Tended.of_minors {a : Activity Fn Get Set} (hkept : a.Kept) (hquiet : a.Quiet)
    {e : Engine Fn Get Set} (he : Minors a.engine e) {frames : List CallFrame}
    (hframes : ∀ frame ∈ frames, frame.Calm a.serial) :
    ((a.withEngine e).withFrames frames).Tended := by
  have hsound := sound_minors ⟨hkept.sound, hquiet.1⟩ he
  exact ⟨(hkept.withEngine hsound.1).withFrames frames, Or.inl ⟨hsound.2, hframes⟩⟩

/-- Acts that meet the condition keep the invariant. -/
theorem Tended.step {a a' : Activity Fn Get Set} {act : Act Fn Get Set} (h : a.Tended)
    (hundisturbed : a.Undisturbed act) (hstep : Step a act a') : a'.Tended := by
  have hnumbered := h.kept.sound.numbered
  cases hstep with
  | script hopen _ =>
      have hquiet := h.quiet_of_open hopen
      have hminors : ∀ env, Minors a.engine { a.engine with env := env } := fun _ =>
        minors_other rfl rfl
      exact Tended.of_minors (h.kept.run hquiet.1) hquiet (hminors _) hquiet.2
  | setExceptionHandler hopen =>
      have hquiet := h.quiet_of_open hopen
      exact ⟨⟨h.kept.sound, h.kept.below, ⟨h.kept.orderly.1, h.kept.orderly.2, h.kept.orderly.3⟩⟩,
        Or.inl hquiet⟩
  | newInstance hopen =>
      have hquiet := h.quiet_of_open hopen
      refine ⟨h.kept.of_minors .refl rfl (Nat.le_succ _)
        ⟨h.kept.orderly.1, h.kept.orderly.2, h.kept.orderly.3⟩, Or.inl ⟨hquiet.1, ?_⟩⟩
      exact fun frame hframe => (hquiet.2 frame hframe).mono (Nat.le_succ _)
  | exportFunction hopen hexport =>
      have hquiet := h.quiet_of_open hopen
      exact Tended.of_minors h.kept hquiet (exportFunction_minor hnumbered hexport) hquiet.2
  | exportRefused hopen _ => exact h
  | exportType hopen _ hdeclare =>
      have hquiet := h.quiet_of_open hopen
      have hsound := sound_declareType ⟨h.kept.sound, hquiet.1⟩ hdeclare
      exact ⟨(h.kept.withEngine hsound.1).withFrames _,
        Or.inl ⟨hsound.2, List.forall_mem_cons.mpr ⟨trivial, hquiet.2⟩⟩⟩
  | exportMethods hframes hexport =>
      have hquiet := h.quiet_of_issuer hframes rfl
      have hcalm := hquiet.2
      rw [hframes] at hcalm
      exact Tended.of_minors h.kept hquiet (exportMethods_minor hnumbered hexport)
        (List.forall_mem_cons.mpr ⟨trivial, (List.forall_mem_cons.mp hcalm).2⟩)
  | exportStatics hframes hexport =>
      have hquiet := h.quiet_of_issuer hframes rfl
      have hcalm := hquiet.2
      rw [hframes] at hcalm
      exact Tended.of_minors h.kept hquiet (exportStatics_minor hnumbered hexport)
        (List.forall_mem_cons.mp hcalm).2
  | exportInstance hopen hserial _ =>
      have hquiet := h.quiet_of_open hopen
      exact ⟨h.kept.withFrames _,
        Or.inl ⟨hquiet.1, List.forall_mem_cons.mpr ⟨hserial, hquiet.2⟩⟩⟩
  | exportWithType hopen hserial _ hdeclare =>
      have hquiet := h.quiet_of_open hopen
      have hsound := sound_declareType ⟨h.kept.sound, hquiet.1⟩ hdeclare
      exact ⟨(h.kept.withEngine hsound.1).withFrames _,
        Or.inl ⟨hsound.2, List.forall_mem_cons.mpr
          ⟨trivial, List.forall_mem_cons.mpr ⟨hserial, hquiet.2⟩⟩⟩⟩
  | noClass hframes _ _ =>
      have hquiet := h.quiet_of_issuer hframes rfl
      have hcalm := hquiet.2
      rw [hframes] at hcalm
      exact ⟨h.kept.withFrames _, Or.inl ⟨hquiet.1, (List.forall_mem_cons.mp hcalm).2⟩⟩
  | @attach request rest order classID info hframes _ hfound =>
      -- the instance begins to wait
      have hquiet := h.quiet_of_issuer hframes rfl
      have hcalm := hquiet.2
      rw [hframes] at hcalm
      have hdirect : request.direct = true :=
        hundisturbed request rest hframes (by rw [hfound]; exact Option.some_ne_none _)
      have hclosed : (!request.direct) = false := by
        rw [hdirect]
        rfl
      refine ⟨(h.kept.withEngine (h.kept.sound.setWaitingToAttach classID _)).withFrames _,
        Or.inr ⟨_, rest, classID, request, rfl, rfl, hclosed,
          (List.forall_mem_cons.mp hcalm).2, hdirect, (List.forall_mem_cons.mp hcalm).1, ?_⟩⟩
      exact waitsOnly_setWaitingToAttach hquiet.1 classID request.instance?
  | evaluate hframes =>
      exact Tended.evaluate h.kept (h.serving hframes rfl) _ fun index hcallee hmagic =>
        hundisturbed _ _ _ index hframes hcallee hmagic
  | evaluated hframes hdirect =>
      exact absurd ((h.serving hframes rfl).direct.symm.trans hdirect)
        (by simp only [reduceCtorEq, not_false_eq_true])
  | report _ hhandler =>
      have hnone : a.exceptionHandler = false := hundisturbed
      rw [hnone] at hhandler
      cases hhandler
  | reportNowhere hframes _ =>
      have hserving := h.serving hframes rfl
      exact Tended.of_serving (h.kept.withFrames _) rfl hserving rfl rfl
        fun hscript => by cases hscript
  | leave hframes =>
      -- and does not wait any more
      have hserving := h.serving hframes rfl
      refine ⟨(h.kept.withEngine (h.kept.sound.setWaitingToAttach _ none)).withFrames _,
        Or.inl ⟨?_, hserving.1⟩⟩
      exact idle_setWaitingToAttach hserving.2.2.2
  | new hopen hmagic =>
      have hquiet := h.quiet_of_open hopen
      have hserving : a.Serving .script a.frames := ⟨hquiet.2, hquiet.1⟩
      refine Tended.construct h.kept hserving _ _ ?_
      intro request hissuer
      cases hissuer
  | @initialized new rest classType hframes hclass =>
      have hserving := h.serving hframes rfl
      have hfresh : (⟨classType.type, a.serial⟩ : NativeRef) ∉ a.attached := fun hmem =>
        lt_irrefl _ (h.kept.below _ hmem)
      have hattach := h.kept.attachTo new true rest hfresh (Nat.le_succ _) (Nat.lt_succ_self _)
      exact Tended.of_serving hattach rfl (hserving.of_classes rfl (Nat.le_succ _)) rfl rfl
        fun hscript => ⟨hscript, rfl⟩
  | construct hframes _ _ =>
      refine Tended.of_serving (h.kept.withFrames _) rfl (h.serving hframes rfl) rfl rfl ?_
      intro hscript
      have hcalm := h.calm_of_script hframes (congrArg some hscript)
      exact hcalm
  | constructWaiting hframes hclass hwaiting =>
      have hserving := h.serving hframes rfl
      refine Tended.of_serving (h.kept.withFrames _) rfl hserving rfl rfl ?_
      intro hscript
      rw [hscript] at hserving
      exact absurd (hserving.idle _ _ hclass) hwaiting
  | constructed hframes =>
      refine Tended.of_serving (h.kept.withFrames _) rfl (h.serving hframes rfl) rfl rfl ?_
      intro hscript
      have hcalm := h.calm_of_script hframes (congrArg some hscript)
      exact ⟨hcalm.1, hcalm.2, rfl⟩
  | threw hframes =>
      refine Tended.finish (h.kept.record fun hscript => ?_)
        ((h.serving hframes rfl).of_classes rfl (le_refl _)) none
      exact ⟨(h.calm_of_script hframes (congrArg some hscript)).2, rfl⟩
  | @exportProperties new instance? fresh constructs rest properties e hframes hexport =>
      let made : Engine Fn Get Set :=
        { e with objects := e.objects ++ [⟨new.classID, instance?, new.newTarget⟩] }
      have hminors : Minors a.engine made :=
        (foldlM_minor (fun _ _ _ => exportProperty_minor) _ hnumbered hexport).trans
          (minors_other rfl rfl)
      have hkept := h.kept.withEngine (h.kept.sound.minors hminors)
      refine Tended.finish (hkept.record fun hscript => ?_)
        ((h.serving hframes rfl).of_classes hminors.classes_eq (le_refl _)) _
      exact (h.calm_of_script hframes (congrArg some hscript)).2

/-- Nothing is under way on an engine in between two operations. -/
theorem tended_start {e : Engine Fn Get Set} (he : e.Sound ∧ e.Idle) (serial : ℕ) :
    (start serial e).Tended where
  kept :=
    { sound := he.1
      below := fun _ hmem => absurd hmem List.not_mem_nil
      orderly :=
        { evaluations := fun _ hmem => absurd hmem List.not_mem_nil
          attached := List.nodup_nil
          ran := fun _ hmem => absurd hmem List.not_mem_nil } }
  mode := Or.inl ⟨he.2, fun _ hmem => absurd hmem List.not_mem_nil⟩

end Activity

open Activity

namespace Activity

/-- The steps that lead to an engine, and to the operations below. -/
def Leads (a : Activity Fn Get Set) (e : Engine Fn Get Set) (rest : List CallFrame) : Prop :=
  ∃ acts a', Run Step a acts a' ∧ a'.engine = e ∧ a'.frames = rest

theorem Leads.cons {a a' : Activity Fn Get Set} {act : Act Fn Get Set} {e : Engine Fn Get Set}
    {rest : List CallFrame} (hstep : Step a act a') (h : a'.Leads e rest) : a.Leads e rest := by
  rcases h with ⟨acts, b, hrun, he, hrest⟩
  exact ⟨act :: acts, b, Run.cons hstep hrun, he, hrest⟩

/-- The class has nothing waiting any more. -/
def detach (classID : Int32) (e : Engine Fn Get Set) : Engine Fn Get Set :=
  { e with context := e.context.setWaitingToAttach classID none }

/-- The engine at the end of the text, with the variable bound. -/
def textEnd (classID : Int32) (request : Request) (result : Option ScriptValue)
    (e : Engine Fn Get Set) : Engine Fn Get Set :=
  match result with
  | none => detach classID e
  | some value => detach classID (e.bindLexical request.variableName (some value))

/-- The text ends in the same engine with a handler and without. -/
theorem leads_finish (a : Activity Fn Get Set) (classID : Int32) (request : Request)
    (result : Option ScriptValue) (rest : List CallFrame) :
    (a.finish (.export classID request) result rest).Leads
      (textEnd classID request result a.engine) rest := by
  cases result with
  | some value => exact Leads.cons (Step.leave rfl) ⟨[], _, Run.nil, rfl, rfl⟩
  | none =>
      cases hhandler : a.exceptionHandler with
      | true =>
          exact Leads.cons (Step.report rfl hhandler) <| Leads.cons (Step.leave rfl)
            ⟨[], _, Run.nil, rfl, rfl⟩
      | false =>
          exact Leads.cons (Step.reportNowhere rfl hhandler) <| Leads.cons (Step.leave rfl)
            ⟨[], _, Run.nil, rfl, rfl⟩

/-- The last part of a constructor makes its object. -/
theorem leads_exportProperties {a : Activity Fn Get Set} (new : Construction)
    (instance? : NativeRef) {fresh : Bool} {constructs : ℕ} {rest : List CallFrame}
    (hframes : a.frames = .exportProperties new instance? fresh constructs :: rest)
    {classID : Int32} {request : Request} (hissuer : new.issuer = .export classID request)
    {properties : List (CName × JSProperty Get Set)} {e : Engine Fn Get Set}
    (hloop : properties.foldlM exportProperty a.engine = some e) :
    a.Leads (textEnd classID request (some (.object e.objects.length))
      { e with objects := e.objects ++ [⟨new.classID, instance?, new.newTarget⟩] }) rest := by
  refine Leads.cons (Step.exportProperties hframes hloop) ?_
  rw [hissuer]
  exact leads_finish _ classID request (some (.object e.objects.length)) rest

/-- What `new` makes of what `typedConstruct` returns. -/
def newResult : Constructed → Option ScriptValue
  | .undefined => some .undefined
  | .exception => none
  | .object index => some (.object index)

/-- The parts of a constructor are `typedConstruct`. -/
theorem leads_construct {a : Activity Fn Get Set} {magic : Int32} {newTarget : ℕ}
    {natives : Natives Get Set} {e : Engine Fn Get Set} {constructed : Constructed}
    (h : a.engine.typedConstruct magic newTarget natives a.serial = some (e, constructed))
    (classID : Int32) (request : Request) (rest : List CallFrame) :
    (a.construct (.export classID request) magic newTarget rest).Leads
      (textEnd classID request (newResult constructed) e) rest := by
  unfold typedConstruct at h
  unfold Activity.construct
  cases hclass : a.engine.context.classes.lookup magic with
  | none =>
      rw [hclass] at h
      cases h
      exact leads_finish a classID request (some .undefined) rest
  | some classType =>
      rw [hclass] at h
      dsimp only at h ⊢
      cases hwaiting : classType.waitingToAttach with
      | some instance? =>
          -- the instance that waits is not constructed
          rw [hwaiting, if_neg (by simp only [reduceCtorEq, false_and, not_false_eq_true])] at h
          rcases Option.bind_eq_some_iff.mp h with ⟨e1, hloop, heq⟩
          cases heq
          have hwaits : classType.waitingToAttach ≠ none := by
            rw [hwaiting]
            exact Option.some_ne_none _
          refine Leads.cons (Step.constructWaiting rfl hclass hwaits) ?_
          exact leads_exportProperties ⟨_, magic, newTarget, classType.classID⟩ _ rfl rfl hloop
      | none =>
          rw [hwaiting, Option.getD_none] at h
          refine Leads.cons (Step.initialized rfl hclass) <|
            Leads.cons (Step.construct rfl hclass hwaiting) ?_
          by_cases hthrows : natives.constructThrows ⟨classType.type, a.serial⟩
          · rw [if_pos ⟨rfl, hthrows⟩] at h
            cases h
            exact Leads.cons (Step.threw rfl) (leads_finish _ classID request none rest)
          · rw [if_neg (fun hboth => hthrows hboth.2)] at h
            rcases Option.bind_eq_some_iff.mp h with ⟨e1, hloop, heq⟩
            cases heq
            refine Leads.cons (Step.constructed rfl) ?_
            exact leads_exportProperties ⟨_, magic, newTarget, classType.classID⟩ _ rfl rfl hloop

/-- The parts of evaluating the text are `evaluateLetNew`. -/
theorem leads_evaluate {a : Activity Fn Get Set} {request : Request} {natives : Natives Get Set}
    {foreign result : Option ScriptValue} {e : Engine Fn Get Set}
    (h : a.engine.evaluateLetNew request.variableName request.className natives a.serial foreign
      = some (e, result)) (classID : Int32) (rest : List CallFrame) :
    (a.evaluate classID request foreign rest).Leads (detach classID e) rest := by
  unfold evaluateLetNew at h
  unfold Activity.evaluate
  by_cases hdeclared : a.engine.env.isDeclared request.variableName
  · rw [if_pos hdeclared] at h
    cases h
    rw [if_pos hdeclared]
    exact leads_finish a classID request none rest
  · rw [if_neg hdeclared] at h
    rw [if_neg hdeclared]
    dsimp only at h ⊢
    have hcallee : a.engine.callee request.variableName request.className
        = (a.engine.bindLexical request.variableName none).env.getGlobalVar request.className :=
      if_neg hdeclared
    rw [hcallee]
    cases hglobal : (a.engine.bindLexical request.variableName none).env.getGlobalVar
        request.className with
    | none =>
        rw [hglobal] at h
        cases h
        exact leads_finish _ classID request none rest
    | some value =>
        rw [hglobal] at h
        rcases Option.bind_eq_some_iff.mp h with ⟨⟨e1, r⟩, hnew, heq⟩
        have hend : detach classID e = textEnd classID request r e1 := by
          cases r with
          | none =>
              cases heq
              rfl
          | some value =>
              cases heq
              rfl
        rw [hend]
        cases value with
        | object index =>
            cases hnew
            exact leads_finish _ classID request foreign rest
        | undefined =>
            cases hnew
            exact leads_finish _ classID request foreign rest
        | other =>
            cases hnew
            exact leads_finish _ classID request foreign rest
        | function index =>
            unfold new at hnew
            dsimp only at hnew
            have hbuilt : (a.engine.bindLexical request.variableName none).built
                = a.engine.built := rfl
            rw [hbuilt] at hnew
            dsimp only
            have hmagic : a.engine.constructorMagic index = (a.engine.built[index]?).bind fun f =>
                if f.function.cproto = .constructorMagic then some f.function.passedMagic
                else none := by
              unfold constructorMagic
              cases a.engine.built[index]? with
              | none => rfl
              | some f => rfl
            rw [hmagic]
            cases hf : a.engine.built[index]? with
            | none =>
                rw [hf] at hnew
                cases hnew
                exact leads_finish _ classID request none rest
            | some f =>
                rw [hf] at hnew
                dsimp only at hnew
                rw [Option.bind_some]
                by_cases hproto : f.function.cproto = .constructorMagic
                · rw [if_pos hproto] at hnew
                  rw [if_pos hproto]
                  rcases Option.bind_eq_some_iff.mp hnew with ⟨⟨e2, constructed⟩, hconstruct, heq'⟩
                  have hresult : e2 = e1 ∧ newResult constructed = r := by
                    cases constructed <;> cases heq' <;> exact ⟨rfl, rfl⟩
                  rw [← hresult.1, ← hresult.2]
                  exact leads_construct hconstruct classID request rest
                · rw [if_neg hproto] at hnew
                  rw [if_neg hproto]
                  cases hnew
                  exact leads_finish _ classID request none rest

/-- A request without other code in between comes to what `attachInstance` does in one
    step. -/
theorem leads_attach {a : Activity Fn Get Set} {request : Request} {rest : List CallFrame}
    (hframes : a.frames = .attaching request :: rest) {order : List (Int32 × JSClassInfo)}
    (horder : a.engine.context.classes.Enumerates order) {natives : Natives Get Set}
    {foreign result : Option ScriptValue} {e : Engine Fn Get Set}
    (h : a.engine.attachInstance order request.instance? request.className request.variableName
      natives a.serial foreign = some (e, result)) :
    a.Leads e rest := by
  unfold attachInstance at h
  cases hfound : findExportClassType order request.instance?.type with
  | none =>
      rw [hfound] at h
      cases h
      exact ⟨[.attach order], _, Run.single (Step.noClass hframes horder hfound), rfl, rfl⟩
  | some found =>
      rw [hfound] at h
      rcases Option.bind_eq_some_iff.mp h with ⟨⟨e1, r⟩, heval, heq⟩
      cases heq
      refine Leads.cons (Step.attach hframes horder hfound) ?_
      refine Leads.cons (Step.evaluate rfl : Step _ (.evaluate foreign) _) ?_
      exact leads_evaluate heval found.1 rest

end Activity

/-! ### Exporting an instance under a name that is taken -/

theorem isDeclared_defineGlobal {env : Environment} {name name' : CName} {value : ScriptValue}
    (hne : name' ≠ name) :
    (env.defineGlobal name value).isDeclared name' = env.isDeclared name' := by
  unfold Environment.defineGlobal Environment.isDeclared
  by_cases hext : env.extensible
  · rw [if_pos hext]
    dsimp only
    rw [Dict.lookup_insert, if_neg hne]
  · rw [if_neg hext]

/-- The host program's first class, exported as `C`, and a variable that cannot be
    declared. -/
theorem exists_class (program : Program Fn Get Set) (hown : program.staticInit 0 = []) :
    ∃ (p : Process Fn Get Set) (e : Engine Fn Get Set) (index : ℕ) (info : JSClassInfo),
      p.Reachable program ∧ e ∈ p.engines ∧ e.env.isExported (cString "C") ∧
      e.env.isDeclared (cString "dataBridge") ∧ e.constructorMagic index = some 1 ∧
      e.context.classes.lookup 1 = some info ∧ info.type = .subclass 0 := by
  rcases exists_newEngine program with ⟨e₀, hstarted, hstep⟩
  have hsound₀ := Process.sound_of_reachable ⟨_, _, rfl, Run.single hstep⟩ e₀
    (List.mem_singleton.mpr rfl)
  have hname : ¬ e₀.env.isExported (cString "C") := by
    rw [hstarted.env, isExported_nameClass, isExported_defineGlobal (by decide)]
    exact isExported_initial (by decide +kernel)
  rcases exportType_eq_some hsound₀.1.numbered (.subclass 0) (cString "C")
    (consoleExports program) (by rw [hstarted.jsClassIDAlloc]; decide) (n := 1)
    (hstarted.room.mono (by show 4 ≤ 2 ^ 30; decide)) with ⟨e, hexport, _⟩
  let statics := Statics.staticInit {} (program.registrations .consoleJS)
  have hstatics : statics = Process.staticsAfter program { statics := statics, engines := [e₀] }
      e₀ (.subclass 0) (cString "C") := by
    unfold Process.staticsAfter
    rw [if_neg hname]
    show _ = Statics.staticInit _ (program.staticInit 0)
    rw [hown]
    rfl
  have hstep' : Process.Step program { statics := statics, engines := [e₀] }
      (.exportType 0 (.subclass 0) (cString "C") _) _ :=
    Process.Step.exportType rfl hstatics (consoleExports_reads program) hexport
  have hp : Process.Reachable program _ := ⟨_, _, rfl, (Run.single hstep).trans (Run.single hstep')⟩
  have hsound := Process.sound_of_reachable hp e (List.mem_singleton.mpr rfl)
  have henv := (exportType_surroundings hname hexport).2.2.2
  have hext : e₀.env.extensible = true := by
    rw [hstarted.env]
    rfl
  rcases exportType_installs hsound₀.1.numbered hname hext (by rw [hstarted.env]; rfl) hexport
    with ⟨_, f, hf, hid, hregistered⟩
  -- the constructor was built for the second class ID, and is passed it
  have hin := hsound.1.built f (List.mem_of_getElem? hf)
  have hfound := hin.found
  rw [hregistered] at hfound
  have hmagic : f.function.passedMagic = 1 := by
    rcases hin.made with ⟨name, cproto, hmade⟩
    rw [hmade, hid, hstarted.classCounter]
    exact (passedMagic_eq_iff _ name 1 cproto 1 (by decide)).mpr (by decide)
  refine ⟨_, e, e₀.built.length, ⟨cString "C", .subclass 0, e₀.jsClassIDAlloc, none⟩, hp,
    List.mem_singleton.mpr rfl, ?_, ?_, ?_, ?_, rfl⟩
  · rw [henv, isExported_nameClass]
    exact isExported_defineGlobal_self hext _ _
  · rw [henv, hstarted.env]
    have hnamed : ∀ (env : Environment) (constructor : ℕ) (name name' : CName),
        (env.nameClass constructor name).isDeclared name' = env.isDeclared name' := fun _ _ _ _ => rfl
    rw [hnamed, isDeclared_defineGlobal (by decide), hnamed, isDeclared_defineGlobal (by decide)]
    decide +kernel
  · unfold constructorMagic
    rw [hf]
    dsimp only
    rw [if_pos (hin.constructs (findExport_constructor hfound).1), hmagic]
  · rw [exportType_lookup hsound₀.1.numbered hname hexport, hstarted.classCounter, if_pos rfl]

/-- What a constructor does first, on a class for which no instance waits. -/
theorem construct_of_idle {a : Activity Fn Get Set} {magic : Int32} {classType : JSClassInfo}
    (hclass : a.engine.context.classes.lookup magic = some classType)
    (hidle : classType.waitingToAttach = none) (issuer : Issuer) (newTarget : ℕ)
    (rest : List CallFrame) : a.construct issuer magic newTarget rest =
      a.withFrames (.initializing ⟨issuer, magic, newTarget, classType.classID⟩ :: rest) := by
  unfold Activity.construct
  rw [hclass]
  dsimp only
  rw [hidle]

/-- And on a class for which one waits. -/
theorem construct_of_waiting {a : Activity Fn Get Set} {magic : Int32} {classType : JSClassInfo}
    (hclass : a.engine.context.classes.lookup magic = some classType) {instance? : NativeRef}
    (hwaiting : classType.waitingToAttach = some instance?) (issuer : Issuer) (newTarget : ℕ)
    (rest : List CallFrame) : a.construct issuer magic newTarget rest =
      a.attachTo ⟨issuer, magic, newTarget, classType.classID⟩ instance? false rest := by
  unfold Activity.construct
  rw [hclass]
  dsimp only
  rw [hwaiting]

end Substrata
