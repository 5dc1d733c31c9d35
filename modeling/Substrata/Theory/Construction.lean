import Substrata.Core.Construction
import Substrata.Theory.Attach
import Substrata.Theory.RoundTrip
import Substrata.Theory.Thrown

/-!
# A construction that throws

What `new C(args)` leaves behind when the instance's `construct(args:)` throws.

The object, its info and its marker are made before, but the counters and tables of the
engine are not touched until the accessors are defined, and a construction that throws does
not get there. So the tables are as they were when the arguments had been decoded. Before
that scripts run, those of the arguments and those of subclasses, and what they do to the
tables is their affair.

The exception is an error object that a name and a message were assigned to. A read-only
property of `Error.prototype` refuses the assignment, and a description is cut at a NUL.

## Main definitions

* `FailsAlone`: The exception says what was thrown, and the native state is as before.
* `Arrives`: The arguments that the exported constructor gets.
* `Stage.Quiet`: Making the object runs no script.
* `Raises`: The condition for it.

## Theorems

* `makeInstance_spec`: What is made before the instance is constructed.
* `typedConstruct_throws`: A construction that throws.
* `typedConstruct_exception`: Where an exception comes from.
* `failsAlone_iff_raises`: When the law holds.
* `raises_iff_registered`: The condition for a constructor with a small ID.
* `quiet_of_valued`: Where no script runs while the object is made.
* `failsAlone_iff_raises_subclass`: A subclass of a class that throws.
* `exists_not_failsAlone`: A frozen `Error.prototype`.
-/

namespace Substrata

variable {Fn Get Set : Type}

/-! ## Making the object -/

namespace Stage

/-- A new object: nothing else changes. -/
theorem jsCreateFromCtor_spec {s s' : Stage Fn Get Set} {newTarget classID result : ℕ}
    (hcreate : s.jsCreateFromCtor newTarget classID = .ok (result, s')) :
    result = s.heap.objects.length ∧ s'.engine = s.engine ∧ s'.serial = s.serial ∧
      Heap.Frame (· < s.heap.objects.length) s.heap s'.heap := by
  unfold jsCreateFromCtor at hcreate
  cases hget : s.heap.getProperty newTarget atomPrototype with
  | error stop =>
      rw [hget] at hcreate
      exact absurd hcreate nofun
  | ok v =>
      rw [hget] at hcreate
      simp only [Except.ok.injEq, Prod.mk.injEq] at hcreate
      rcases hcreate with ⟨rfl, rfl⟩
      exact ⟨rfl, rfl, rfl, Heap.frame_allocate s.heap _⟩

/-- The pointer and the marker: only the one object changes. -/
theorem attachInfo_spec {s s' : Stage Fn Get Set} {result : ℕ} {classType : JSClassInfo}
    {instance? : NativeRef} (hattach : s.attachInfo result classType instance? = .ok s') :
    s'.engine = s.engine ∧ Heap.Frame (· ≠ result) s.heap s'.heap := by
  unfold attachInfo at hattach
  simp only at hattach
  split at hattach
  · cases hattach
  · rename_i h hset
    rw [Except.ok.injEq] at hattach
    subst hattach
    exact ⟨rfl, (Heap.frame_update s.heap result _).trans (Heap.frame_setProperty hset)⟩

/-- A new object gets its pointer and its marker where no accessor is in the way. -/
theorem exists_attachInfo {s : Stage Fn Get Set} {base : List ℕ} (classType : JSClassInfo)
    {proto : Option ℕ} (hbase : s.heap.Chain proto base)
    (hvalued : s.heap.Valued base instanceAtom) (serial : ℕ) (instance? : NativeRef) :
    ∃ s', { s with
        heap := (s.heap.allocate { classID := classType.classID, proto := proto }).1
        serial := serial }.attachInfo s.heap.objects.length classType instance? = .ok s' := by
  let made : JSObject := { classID := classType.classID, proto := proto }
  have hattached : Heap.Newborn s.heap base
      ((s.heap.allocate made).1.update s.heap.objects.length fun o =>
        { o with u := .pointer (some s.infos.length) }) s.heap.objects.length
      { made with u := .pointer (some s.infos.length) } := by
    refine ⟨(Heap.frame_allocate s.heap made).trans ((Heap.frame_update _ _ _).mono fun i hi =>
      Nat.ne_of_lt hi), ?_, nofun, rfl, hbase⟩
    rw [Heap.getElem?_update, Heap.getElem?_allocate, Option.map_some]
  have hset := hattached.setProperty hvalued rfl (jsNewInt32 (Int32.ofNat classType.classID))
  unfold attachInfo
  dsimp only
  rw [hset]
  exact ⟨_, rfl⟩

/-- What is made before the instance is constructed: the engine has not noticed. -/
theorem makeInstance_spec {s s' : Stage Fn Get Set} {newTarget result : ℕ}
    {classType : JSClassInfo} {instance? : NativeRef}
    (hmake : s.makeInstance newTarget classType = .ok (result, instance?, s')) :
    instance? = classType.waitingToAttach.getD ⟨classType.type, s.serial⟩ ∧
      s'.engine = s.engine ∧ Heap.Frame (· < s.heap.objects.length) s.heap s'.heap := by
  unfold makeInstance at hmake
  cases hcreate : s.jsCreateFromCtor newTarget classType.classID with
  | error stop =>
      rw [hcreate] at hmake
      exact absurd hmake nofun
  | ok r =>
      rcases r with ⟨ref, s₁⟩
      rw [hcreate] at hmake
      simp only at hmake
      split at hmake
      · exact absurd hmake nofun
      · rename_i s₂ hattach
        rw [Except.ok.injEq, Prod.mk.injEq, Prod.mk.injEq] at hmake
        rcases hmake with ⟨rfl, rfl, rfl⟩
        rcases jsCreateFromCtor_spec hcreate with ⟨rfl, hengine₁, -, hframe₁⟩
        rcases attachInfo_spec hattach with ⟨hengine₂, hframe₂⟩
        exact ⟨rfl, hengine₂.trans hengine₁,
          hframe₁.trans (hframe₂.mono fun i hi => Nat.ne_of_lt hi)⟩

/-! ## Throwing -/

/-- What `throwError` leaves: the exception is pending, and the engine has not noticed. -/
theorem contextThrowError_spec {s : Stage Fn Get Set} {base : List ℕ}
    (hthrowable : s.heap.Throwable base) (description : String) :
    ∃ s', s.contextThrowError description = .ok (.exception, s') ∧ s'.engine = s.engine ∧
      s'.exception = some (.object s.heap.objects.length) ∧
      Thrown s.heap base description s'.heap := by
  rcases toJSValue_thrown hthrowable description with ⟨h, hencode, hthrown⟩
  refine ⟨{ s with heap := h, exception := some (.object s.heap.objects.length) }, ?_, rfl, rfl,
    hthrown⟩
  unfold nativeCodeException at hencode
  unfold contextThrowError
  rw [hencode]

/-- Whatever becomes of the error object, the engine does not notice. -/
theorem contextThrowError_engine {s s' : Stage Fn Get Set} {description : String} {v : JSValue}
    (hthrow : s.contextThrowError description = .ok (v, s')) :
    v = .exception ∧ s'.engine = s.engine := by
  unfold contextThrowError at hthrow
  split at hthrow
  · cases hthrow
  · split at hthrow
    · rw [Except.ok.injEq, Prod.mk.injEq] at hthrow
      exact ⟨hthrow.1.symm, hthrow.2 ▸ rfl⟩
    · rw [Except.ok.injEq, Prod.mk.injEq] at hthrow
      exact ⟨hthrow.1.symm, hthrow.2 ▸ rfl⟩

/-- The loop over the exported properties returns no exception. -/
theorem typedConstruct_exception {natives : Constructions Get Set} {magic : Int32} {newTarget : ℕ}
    {args : List JSConvertible} {s s' : Stage Fn Get Set}
    (hconstruct : s.typedConstruct natives magic newTarget args = .ok (.exception, s')) :
    ∃ classType description, s.engine.context.classes.lookup magic = some classType ∧
      classType.waitingToAttach = none ∧
      natives.construct ⟨classType.type, s.serial⟩ args = some description := by
  unfold typedConstruct at hconstruct
  cases hclass : s.engine.context.classes.lookup magic with
  | none =>
      rw [hclass] at hconstruct
      exact absurd hconstruct nofun
  | some classType =>
      rw [hclass] at hconstruct
      simp only at hconstruct
      split at hconstruct
      · exact absurd hconstruct nofun
      · rename_i result instance? s₁ hmake
        split at hconstruct
        · rename_i description hthrows
          split_ifs at hthrows with hwaiting
          rcases makeInstance_spec hmake with ⟨rfl, -, -⟩
          rw [hwaiting, Option.getD_none] at hthrows
          exact ⟨classType, description, rfl, hwaiting, hthrows⟩
        · split at hconstruct
          · exact absurd hconstruct nofun
          · exact absurd hconstruct nofun

/-- A construction that throws. -/
theorem typedConstruct_throws {natives : Constructions Get Set} {magic : Int32} {newTarget : ℕ}
    {args : List JSConvertible} {s : Stage Fn Get Set} {base : List ℕ} {classType : JSClassInfo}
    {description : String} (hthrowable : s.heap.Throwable base)
    (hclass : s.engine.context.classes.lookup magic = some classType)
    (hwaiting : classType.waitingToAttach = none)
    (hthrows : natives.construct ⟨classType.type, s.serial⟩ args = some description)
    (hquiet : ∃ r, s.makeInstance newTarget classType = .ok r) :
    ∃ s' h e, s.typedConstruct natives magic newTarget args = .ok (.exception, s') ∧
      s'.engine = s.engine ∧ s'.exception = some (.object e) ∧ e = h.objects.length ∧
      Heap.Frame (· < s.heap.objects.length) s.heap h ∧ Thrown h base description s'.heap := by
  rcases hquiet with ⟨⟨result, instance?, s₁⟩, hmake⟩
  rcases makeInstance_spec hmake with ⟨rfl, hengine, hframe⟩
  rcases contextThrowError_spec (s := s₁.deallocate s.infos.length) (hthrowable.frame hframe)
    description with ⟨s', hthrow, hengine', hexception, hthrown⟩
  refine ⟨s', s₁.heap, _, ?_, hengine'.trans hengine, hexception, rfl, hframe, hthrown⟩
  unfold typedConstruct
  rw [hclass]
  simp only [hmake, hwaiting, Option.getD_none, hthrows, if_true]
  exact hthrow

/-- The loop over the exported properties. -/
theorem defineExported_engine {result : ℕ} {properties : List (CName × JSProperty Get Set)}
    {s s' : Stage Fn Get Set} (hfold : properties.foldlM (defineExported result) s = .ok s') :
    properties.foldlM Engine.exportProperty s.engine = some s'.engine := by
  induction properties generalizing s with
  | nil => rw [← Except.ok.inj hfold]; rfl
  | cons property properties ih =>
      rw [List.foldlM_cons] at hfold ⊢
      rcases Fallible.bind_eq_ok_iff.mp hfold with ⟨s₁, hdefine, hrest⟩
      unfold defineExported at hdefine
      cases hexport : s.engine.exportProperty property with
      | none =>
          rw [hexport] at hdefine
          exact absurd hdefine nofun
      | some e =>
          rw [hexport, Except.ok.injEq] at hdefine
          subst hdefine
          exact ih hrest

/-- The instances of a program, for an engine by itself. -/
def onArguments (natives : Constructions Get Set) (args : List JSConvertible)
    (constructorName : NativeRef → CName) : Natives Get Set where
  exportedProperties := natives.exportedProperties
  constructThrows instance? := (natives.construct instance? args).isSome
  constructorName := constructorName

/-- What the native half of a construction does to the counters and tables is what an engine by
    itself does. -/
theorem typedConstruct_engine {natives : Constructions Get Set} {magic : Int32} {newTarget : ℕ}
    {args : List JSConvertible} {s s' : Stage Fn Get Set} {v : JSValue}
    (hconstruct : s.typedConstruct natives magic newTarget args = .ok (v, s')) (index : ℕ)
    (constructorName : NativeRef → CName) :
    ∃ e' result, s.engine.typedConstruct magic index
        (onArguments natives args constructorName) s.serial = some (e', result) ∧
      e'.context = s'.engine.context ∧ (result = .exception ↔ v = .exception) := by
  unfold typedConstruct at hconstruct
  unfold Engine.typedConstruct
  cases hclass : s.engine.context.classes.lookup magic with
  | none =>
      rw [hclass, Except.ok.injEq, Prod.mk.injEq] at hconstruct
      rcases hconstruct with ⟨rfl, rfl⟩
      exact ⟨_, _, rfl, rfl, by simp [jsUndefined]⟩
  | some classType =>
      rw [hclass] at hconstruct
      simp only at hconstruct ⊢
      split at hconstruct
      · exact absurd hconstruct nofun
      · rename_i result instance? s₁ hmake
        rcases makeInstance_spec hmake with ⟨rfl, hengine, -⟩
        split at hconstruct
        · rename_i description hthrows
          split_ifs at hthrows with hwaiting
          have hboth : classType.waitingToAttach = none ∧
              (onArguments natives args constructorName).constructThrows
                (classType.waitingToAttach.getD ⟨classType.type, s.serial⟩) = true :=
            ⟨hwaiting, Option.isSome_iff_exists.mpr ⟨_, hthrows⟩⟩
          rcases contextThrowError_engine hconstruct with ⟨rfl, hengine'⟩
          rw [if_pos hboth]
          exact ⟨_, _, rfl, congrArg Engine.context (hengine'.trans hengine).symm, by simp⟩
        · rename_i hreturns
          have hneither : ¬ (classType.waitingToAttach = none ∧
              (onArguments natives args constructorName).constructThrows
                (classType.waitingToAttach.getD ⟨classType.type, s.serial⟩) = true) := by
            rintro ⟨hwaiting, hthrows⟩
            rw [if_pos hwaiting] at hreturns
            unfold onArguments at hthrows
            simp only [hreturns, Option.isSome_none, Bool.false_eq_true] at hthrows
          split at hconstruct
          · exact absurd hconstruct nofun
          · rename_i s₂ hfold
            rw [Except.ok.injEq, Prod.mk.injEq] at hconstruct
            rcases hconstruct with ⟨rfl, rfl⟩
            have hexport := defineExported_engine hfold
            rw [show (s₁.constructed s.infos.length).engine = s.engine from hengine] at hexport
            rw [if_neg hneither]
            simp only [onArguments, hexport]
            exact ⟨_, _, rfl, rfl, by simp⟩

end Stage

/-! ## The law -/

/-- A field of an error reads as a text. -/
def ReadsAs (h : Heap) (ref : ℕ) (field text : String) : Prop :=
  h.getProperty ref (jsNewAtom field) = .ok (.string (Utf16.encode text.toList))

/-- A construction raises an exception with the name of all native errors and the description
    as its message, and leaves the counters and tables of the engine as they were. -/
def FailsAlone (construct : ℕ → Conversion (Stage Fn Get Set) JSValue) (s : Stage Fn Get Set)
    (description : String) : Prop :=
  ∃ s' e, (∃ bound, ∀ fuel, bound ≤ fuel → construct fuel s = .ok (.exception, s')) ∧
    s'.exception = some (.object e) ∧
    ReadsAs s'.heap e "name" "Native Code Exception" ∧ ReadsAs s'.heap e "message" description ∧
    s'.engine.context = s.engine.context

section Law

variable (replies : Replies (Stage Fn Get Set)) (ext : Externals) (context : ℕ)
  (natives : Constructions Get Set)
  (levels : List (List JSValue → Conversion (Stage Fn Get Set) (List JSValue)))
  (magic : Int32) (newTarget : ℕ)

/-- What the exported constructor gets, and the state it finds: scripts and the decoding of the
    arguments are done. -/
def Arrives (argv : List JSValue) (s : Stage Fn Get Set) (args : List JSConvertible)
    (s₁ : Stage Fn Get Set) : Prop :=
  ∃ bound, ∀ fuel, bound ≤ fuel →
    (do jsArgsToTypes replies ext context fuel (← superArgs levels argv)) s = .ok (args, s₁)

/-- No script runs while the object is made. -/
def Stage.Quiet (s : Stage Fn Get Set) : Prop :=
  ∀ classType, s.engine.context.classes.lookup magic = some classType →
    ∃ r, s.makeInstance newTarget classType = .ok r

/-- Scripts have left the counters and tables alone. The class that the constructor finds has no
    instance that waits, and the new one throws. The two fields of the error show their texts. -/
structure Raises (base : List ℕ) (args : List JSConvertible) (description : String)
    (s s₁ : Stage Fn Get Set) : Prop where
  context : s₁.engine.context = s.engine.context
  name : Shows s₁.heap base "name" nativeCodeException nativeCodeException
  thrown : ∃ classType thrown, s₁.engine.context.classes.lookup magic = some classType ∧
    classType.waitingToAttach = none ∧
    natives.construct ⟨classType.type, s₁.serial⟩ args = some thrown ∧
    Shows s₁.heap base "message" thrown description

variable {replies ext context natives levels magic newTarget}

/-- No script runs where no accessor has the name `prototype` on the chain of the new target, nor
    `__instanceAtom` on the chain from the prototype that is found. -/
theorem quiet_of_valued {s : Stage Fn Get Set} {above : List ℕ}
    (hchain : s.heap.Chain (some newTarget) above)
    (hprototype : s.heap.Valued above atomPrototype)
    (hproto : ∀ classType, s.engine.context.classes.lookup magic = some classType →
      ∃ base, s.heap.Valued base instanceAtom ∧
        s.heap.Chain (s.instanceProto classType.classID
          (Heap.propertyValue (above.findSome? (s.heap.own atomPrototype)))) base) :
    s.Quiet magic newTarget := by
  intro classType hclass
  rcases hproto classType hclass with ⟨base, hvalued, hbase⟩
  have hget := Heap.getProperty_valued hchain hprototype
  rcases Stage.exists_attachInfo classType hbase hvalued (s.serial + 1)
    (classType.waitingToAttach.getD ⟨classType.type, s.serial⟩) with ⟨s', hattach⟩
  have hcreate : s.jsCreateFromCtor newTarget classType.classID
      = .ok (s.heap.objects.length, { s with
        heap := (s.heap.allocate
          { classID := classType.classID
            proto := s.instanceProto classType.classID
              (Heap.propertyValue (above.findSome? (s.heap.own atomPrototype))) }).1 }) := by
    unfold Stage.jsCreateFromCtor
    rw [hget]
    rfl
  refine ⟨⟨s.heap.objects.length,
    classType.waitingToAttach.getD ⟨classType.type, s.serial⟩, s'⟩, ?_⟩
  unfold Stage.makeInstance
  rw [hcreate]
  simp only [hattach]

variable {argv : List JSValue} {args : List JSConvertible} {base : List ℕ} {description : String}
  {s s₁ : Stage Fn Get Set}

/-- With enough fuel a construction is the native half on what arrives. -/
theorem Arrives.construct_eq (harrives : Arrives replies ext context levels argv s args s₁)
    (natives : Constructions Get Set) (magic : Int32) (newTarget : ℕ) :
    ∃ bound, ∀ fuel, bound ≤ fuel →
      construct replies ext context natives levels magic newTarget argv fuel s
        = s₁.typedConstruct natives magic newTarget args := by
  rcases harrives with ⟨bound, hbound⟩
  refine ⟨bound, fun fuel hfuel => ?_⟩
  have hrun := hbound fuel hfuel
  rcases (Fallible.bind_run_eq_ok_iff).mp hrun with ⟨values, t, hlevels, hargs⟩
  show (superArgs levels argv s >>= fun r => (jsArgsToTypes replies ext context fuel r.1 r.2 >>=
    fun r => r.2.typedConstruct natives magic newTarget r.1)) = _
  rw [hlevels]
  show (jsArgsToTypes replies ext context fuel values t >>=
    fun r => r.2.typedConstruct natives magic newTarget r.1) = _
  rw [hargs]
  rfl

variable (harrives : Arrives replies ext context levels argv s args s₁)
  (hthrowable : s₁.heap.Throwable base) (hquiet : s₁.Quiet magic newTarget)
include harrives hthrowable hquiet

/-- Under the condition the construction fails cleanly. -/
theorem failsAlone_of_raises (hraises : Raises natives magic base args description s s₁) :
    FailsAlone (construct replies ext context natives levels magic newTarget argv) s
      description := by
  rcases hraises.thrown with ⟨classType, thrown, hclass, hwaiting, hthrows, hmessage⟩
  rcases Stage.typedConstruct_throws hthrowable hclass hwaiting hthrows (hquiet classType hclass)
    with ⟨s', h, e, hconstruct, hengine, hexception, rfl, hframe, hthrown⟩
  rcases harrives.construct_eq natives magic newTarget
    with ⟨bound, hbound⟩
  refine ⟨s', _, ⟨bound, fun fuel hfuel => (hbound fuel hfuel).trans hconstruct⟩, hexception, ?_, ?_,
    ?_⟩
  · have hname : Shows s₁.heap base "name" nativeCodeException nativeCodeException := hraises.name
    unfold Shows at hname
    rw [← hthrowable.shown_frame hframe] at hname
    exact hthrown.name.trans (congrArg Except.ok hname)
  · unfold Shows at hmessage
    rw [← hthrowable.shown_frame hframe] at hmessage
    exact hthrown.message.trans (congrArg Except.ok hmessage)
  · rw [hengine]
    exact hraises.context

/-- And only then. -/
theorem raises_of_failsAlone
    (hfails : FailsAlone (construct replies ext context natives levels magic newTarget argv) s
      description) : Raises natives magic base args description s s₁ := by
  rcases hfails with ⟨s', e, ⟨bound, hrun⟩, hexception, hname, hmessage, hcontext⟩
  rcases harrives.construct_eq natives magic newTarget
    with ⟨bound', hbound⟩
  have hconstruct : s₁.typedConstruct natives magic newTarget args = .ok (.exception, s') := by
    rw [← hbound (max bound bound') (le_max_right _ _)]
    exact hrun _ (le_max_left _ _)
  rcases Stage.typedConstruct_exception hconstruct
    with ⟨classType, thrown, hclass, hwaiting, hthrows⟩
  rcases Stage.typedConstruct_throws hthrowable hclass hwaiting hthrows (hquiet classType hclass)
    with ⟨s'', h, e', hconstruct', hengine, hexception', rfl, hframe, hthrown⟩
  rw [hconstruct, Except.ok.injEq, Prod.mk.injEq] at hconstruct'
  rcases hconstruct' with ⟨-, rfl⟩
  rw [hexception, Option.some.injEq, JSValue.object.injEq] at hexception'
  subst hexception'
  refine ⟨hengine ▸ hcontext, ?_, classType, thrown, hclass, hwaiting, hthrows, ?_⟩
  · unfold Shows
    rw [← hthrowable.shown_frame hframe]
    exact Except.ok.inj (hthrown.name.symm.trans hname)
  · unfold Shows
    rw [← hthrowable.shown_frame hframe]
    exact Except.ok.inj (hthrown.message.symm.trans hmessage)

/-- A construction that throws raises the exception and leaves the native state alone exactly under
    the condition. Whatever it does with the fields, the native half leaves the whole engine as it
    found it. -/
theorem failsAlone_iff_raises :
    (FailsAlone (construct replies ext context natives levels magic newTarget argv) s description ↔
      Raises natives magic base args description s s₁) ∧
    ∀ s', s₁.typedConstruct natives magic newTarget args = .ok (.exception, s') →
      s'.engine = s₁.engine := by
  refine ⟨⟨raises_of_failsAlone harrives hthrowable hquiet,
    failsAlone_of_raises harrives hthrowable hquiet⟩, fun s' hconstruct => ?_⟩
  rcases Stage.typedConstruct_exception hconstruct
    with ⟨classType, thrown, hclass, hwaiting, hthrows⟩
  rcases Stage.typedConstruct_throws hthrowable hclass hwaiting hthrows (hquiet classType hclass)
    with ⟨s'', _, _, hconstruct', hengine, -⟩
  rw [hconstruct, Except.ok.injEq, Prod.mk.injEq] at hconstruct'
  rw [hconstruct'.2, hengine]

end Law

/-- For a constructor whose ID the engine keeps, on a class for which no instance waits, the
    condition is about the two fields and about what scripts did before. -/
theorem raises_iff_registered {natives : Constructions Get Set} {base : List ℕ}
    {args : List JSConvertible} {description : String} {s s₁ : Stage Fn Get Set}
    (hsound : s₁.engine.Sound) (hidle : s₁.engine.Idle) {f : Built Fn Get Set}
    (hf : f ∈ s₁.engine.built) {name : CName} {type : MetaType} {classID : ℕ}
    (hregistered : f.registered = .constructor name type classID) (hid : f.tableID.toInt < 2 ^ 15)
    (hthrows : natives.construct ⟨type, s₁.serial⟩ args = some description) :
    Raises natives f.function.passedMagic base args description s s₁ ↔
      s₁.engine.context = s.engine.context ∧
      Shows s₁.heap base "name" nativeCodeException nativeCodeException ∧
      Shows s₁.heap base "message" description description := by
  have hbuilt := hsound.built f hf
  have hmagic : f.function.passedMagic = f.tableID := by
    rcases hbuilt.made with ⟨name, cproto, hmade⟩
    rw [hmade]
    exact (passedMagic_eq_iff _ _ _ _ _ hbuilt.nonneg).mpr hid
  rcases findExport_constructor (hregistered ▸ hbuilt.found) with ⟨-, info, hinfo, rfl⟩
  rw [← hmagic] at hinfo
  constructor
  · rintro ⟨hcontext, hname, classType, thrown, hclass, -, hconstruct, hmessage⟩
    rw [hinfo, Option.some.injEq] at hclass
    rw [← hclass, hthrows, Option.some.injEq] at hconstruct
    exact ⟨hcontext, hname, hconstruct ▸ hmessage⟩
  · rintro ⟨hcontext, hname, hmessage⟩
    exact ⟨hcontext, hname, info, description, hinfo, hidle _ _ hinfo, hthrows, hmessage⟩

/-! ## A frozen `Error.prototype` -/

/-- The built-in objects, where `Error.prototype` has a name and a message of its own. -/
def Heap.errors (writable : Bool) : Heap :=
  builtins.update builtins.errorProto fun o =>
    { o with
      properties :=
        [(jsNewAtom "name", .value (.string (JSString.ofSwift "Error")) false writable),
         (jsNewAtom "message", .value (.string []) false writable)] }

theorem Heap.errors_chain (writable : Bool) :
    (Heap.errors writable).Chain (some (Heap.errors writable).errorProto) [3, 0] :=
  Chain.cons rfl (Chain.cons rfl Chain.nil)

theorem Heap.errors_throwable (writable : Bool) : (Heap.errors writable).Throwable [3, 0] where
  chain := Heap.errors_chain writable
  name := by
    cases writable with
    | true => decide +kernel
    | false => decide +kernel
  message := by
    cases writable with
    | true => decide +kernel
    | false => decide +kernel

/-- Instances that export nothing and always throw. -/
def throwing (description : String) : Constructions Unit Unit where
  exportedProperties _ := []
  construct _ _ := some description

/-- An engine with a class `C`. -/
def Stage.thrower (heap : Heap) : Stage Unit Unit Unit where
  engine :=
    { context := ({} : JSContext Unit Unit Unit).addExportClass
        { name := cString "C", type := .subclass 0, classID := jsClassInitCount } 0
      env := .initial }
  heap := heap
  classProto _ := some heap.objectProto

theorem Stage.thrower_lookup (heap : Heap) :
    (Stage.thrower heap).engine.context.classes.lookup 0
      = some { name := cString "C", type := .subclass 0, classID := jsClassInitCount } := by
  show (Dict.insertNew ∅ _ _).lookup _ = _
  rw [Dict.lookup_insertNew_of_none (Finmap.lookup_empty _), if_pos rfl]

/-- Nobody asks a script anything. -/
def Replies.silent {σ : Type} : Replies σ where
  jsIsArray _ _ := false
  jsIsFunction _ _ := false
  jsIsError _ _ := false
  isInstanceOfDate _ := return false
  jsToFloat64 _ := return none
  jsHasProperty _ _ := return false
  jsGetProperty _ _ := return jsUndefined
  jsGetOwnPropertyNames _ := return none
  jsGetException := return jsUndefined
  exceptionHandler _ := return ()

/-- A subclass that hands its argument on twice. -/
def twice {σ : Type} (argv : List JSValue) : Conversion σ (List JSValue) := return argv ++ argv

theorem Stage.thrower_arrives (heap : Heap) :
    Arrives Replies.silent Externals.simple 0 [twice] [jsUndefined] (Stage.thrower heap)
      [.nsNull, .nsNull] (Stage.thrower heap) := by
  refine ⟨1, fun fuel hfuel => ?_⟩
  cases fuel with
  | zero => omega
  | succ fuel => rfl

theorem Stage.thrower_quiet (writable : Bool) :
    (Stage.thrower (Heap.errors writable)).Quiet 0 2 := by
  have hchain : (Heap.errors writable).Chain (some 2) [2, 0] :=
    Heap.Chain.cons rfl (Heap.Chain.cons rfl Heap.Chain.nil)
  refine quiet_of_valued hchain ?_ fun classType _ => ⟨[0], ?_, ?_⟩
  · cases writable with
    | true => decide +kernel
    | false => decide +kernel
  · cases writable with
    | true => decide +kernel
    | false => decide +kernel
  · have hnone : [2, 0].findSome? ((Heap.errors writable).own atomPrototype) = none := by
      cases writable with
      | true => decide +kernel
      | false => decide +kernel
    show Heap.Chain _ (Stage.instanceProto _ _ (Heap.propertyValue
      ([2, 0].findSome? ((Heap.errors writable).own atomPrototype)))) _
    rw [hnone]
    exact Heap.Chain.cons rfl Heap.Chain.nil

/-- A construction that throws, in both. -/
theorem Stage.typedConstruct_engine_throwing :
    ∃ e', (Stage.thrower (Heap.errors true)).engine.typedConstruct 0 5
        (Stage.onArguments (throwing "no disk") [] fun _ => cString "C") 0 =
          some (e', .exception) ∧
      e'.context = (Stage.thrower (Heap.errors true)).engine.context := by
  have hthrows : (throwing "no disk").construct ⟨.subclass 0, 0⟩ [] = some "no disk" := rfl
  rcases Stage.typedConstruct_throws (Heap.errors_throwable true) (Stage.thrower_lookup _) rfl
      hthrows (Stage.thrower_quiet true _ (Stage.thrower_lookup _))
    with ⟨s', h, e, hconstruct, hengine, -⟩
  rcases Stage.typedConstruct_engine hconstruct 5 (fun _ => cString "C")
    with ⟨e', result, hrun, hcontext, hresult⟩
  rw [hresult.mpr rfl] at hrun
  exact ⟨e', hrun, hcontext.trans (congrArg Engine.context hengine)⟩

/-- With the `Error.prototype` of the language a construction fails cleanly. -/
theorem failsAlone_iff_raises_subclass :
    (FailsAlone (construct Replies.silent Externals.simple 0 (throwing "no disk") [twice] 0 2
        [jsUndefined]) (Stage.thrower (Heap.errors true)) "no disk" ↔
      Raises (throwing "no disk") 0 [3, 0] [.nsNull, .nsNull] "no disk"
        (Stage.thrower (Heap.errors true)) (Stage.thrower (Heap.errors true))) ∧
    ∀ s', (Stage.thrower (Heap.errors true)).typedConstruct (throwing "no disk") 0 2
        [.nsNull, .nsNull] = .ok (.exception, s') →
      s'.engine = (Stage.thrower (Heap.errors true)).engine :=
  failsAlone_iff_raises (Stage.thrower_arrives _) (Heap.errors_throwable true)
    (Stage.thrower_quiet true)

/-- After `Object.freeze(Error.prototype)` the name of the exception is `Error`. -/
theorem not_failsAlone_frozen :
    ¬ FailsAlone (construct Replies.silent Externals.simple 0 (throwing "no disk") [twice] 0 2
      [jsUndefined]) (Stage.thrower (Heap.errors false)) "no disk" := by
  intro hfails
  have hraises := raises_of_failsAlone (Stage.thrower_arrives _) (Heap.errors_throwable false)
    (Stage.thrower_quiet false) hfails
  have hname : ¬ Shows (Heap.errors false) [3, 0] "name" nativeCodeException
      nativeCodeException := by
    decide +kernel
  exact hname hraises.name

/-- A construction that throws, where the exception does not say so. -/
theorem exists_not_failsAlone :
    ∃ (s : Stage Unit Unit Unit) (natives : Constructions Unit Unit) (description : String)
      (argv : List JSValue) (args : List JSConvertible) (classType : JSClassInfo) (base : List ℕ),
      Arrives Replies.silent Externals.simple 0 [twice] argv s args s ∧
      s.heap.Throwable base ∧ s.Quiet 0 2 ∧
      s.engine.context.classes.lookup 0 = some classType ∧ classType.waitingToAttach = none ∧
      natives.construct ⟨classType.type, s.serial⟩ args = some description ∧
      ¬ FailsAlone (construct Replies.silent Externals.simple 0 natives [twice] 0 2 argv) s
        description :=
  ⟨Stage.thrower (Heap.errors false), throwing "no disk", "no disk", [jsUndefined],
    [.nsNull, .nsNull], _, [3, 0], Stage.thrower_arrives _, Heap.errors_throwable false,
    Stage.thrower_quiet false, Stage.thrower_lookup _, rfl, rfl, not_failsAlone_frozen⟩

end Substrata
