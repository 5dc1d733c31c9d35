import Substrata.Core.References

/-!
# Counts agree with what refers

Every operation but `export(name:function:)` gives up exactly the references that it
takes: what it makes and duplicates it stores or frees. It never touches an object
without having a reference to it or, for the constructor that the global object was just
given, knowing a slot that has one. So in any interleaving of these operations, of
releases of wrappers and of scripts, what a slot refers to is never freed, and when no
operation is under way each count is the number of slots.

`export(name:function:)` frees the function object after `JS_SetPropertyStr` consumed its
reference. One reference is left for the property and the wrapper, and releasing the
wrapper frees the function that the property still refers to. A class whose global
property cannot be defined is freed before `JS_SetConstructor` duplicates it.

## Theorems

* `MethodExport.careful_plan`, `PropertyExport.careful_plan`: One round of the loops.
* `careful_plan`: The operations that keep counts.
* `total_plan`: They leave no surplus.
* `total_exportFunction`: `export(name:function:)` leaves a deficit of one.
* `Settled.step`: One step.
* `counts_of_run`: Counts agree in every run without `export(name:function:)`.
* `surplus_exportFunction`: A function that is exported lacks a reference.
* `exists_freed_property`: A property refers to a freed function.
-/

namespace Substrata

open Counting (Effect Ledger Office Plan)
open Counting.Plan (Careful total total_append total_some total_nil)
open Transition (Run Guarded)

/-! ## The engine -/

section Engine

@[simp] theorem total_effects_nil (p : ℕ) : total (effects []) p = 0 := rfl

@[simp] theorem total_effects_cons (e : Effect ℕ Slot) (es : List (Effect ℕ Slot)) (p : ℕ) :
    total (effects (e :: es)) p = e.surplus p + total (effects es) p := rfl

@[simp] theorem total_pause (p : ℕ) : total pause p = 0 := rfl

/-- An assigned value is consumed in every case. -/
theorem total_jsSetPropertyStr (thisObj : Option ℕ) (prop : String) (val : ℕ) (a : Assignment)
    (p : ℕ) : total (jsSetPropertyStr thisObj prop val a) p = if p = val then -1 else 0 := by
  cases a with
  | stored => exact add_zero _
  | setter => exact add_zero _
  | refused error =>
      unfold jsSetPropertyStr jsFreeValue jsNew jsThrow
      simp only [total_append, total_effects_cons, total_effects_nil, Effect.surplus]
      split_ifs <;> rfl

/-- A value that is defined is consumed in both cases. -/
theorem total_jsDefinePropertyValueStr (thisObj : Option ℕ) (prop : String) (val : ℕ)
    (defined : Bool) (p : ℕ) :
    total (jsDefinePropertyValueStr thisObj prop val defined) p = if p = val then -1 else 0 := by
  unfold jsDefinePropertyValueStr jsDupValue jsFreeValue
  cases defined with
  | false => exact add_zero _
  | true =>
      simp only [if_true, total_append, total_effects_cons, total_effects_nil, Effect.surplus]
      split_ifs <;> rfl

/-- Accessors are duplicated for the property. -/
theorem total_jsDefineProperty (thisObj : Option ℕ) (prop : String) (getter : ℕ)
    (setter : Option ℕ) (defined : Bool) (p : ℕ) :
    total (jsDefineProperty thisObj prop getter setter defined) p = 0 := by
  unfold jsDefineProperty jsDupValue
  cases defined with
  | false => rfl
  | true =>
      cases setter with
      | none =>
          simp only [if_true, total_append, total_effects_cons, total_effects_nil, total_nil,
            Effect.surplus]
          split_ifs <;> rfl
      | some setter =>
          simp only [if_true, total_append, total_effects_cons, total_effects_nil,
            Effect.surplus]
          split_ifs <;> rfl

end Engine

/-! ## The operations -/

section Operations

theorem careful_pause : Careful [] pause := trivial

theorem MethodExport.total_plan (owner : ℕ) (x : MethodExport) (p : ℕ) :
    total (MethodExport.plan owner x) p = 0 := by
  unfold MethodExport.plan jsNew
  rw [total_append, total_jsSetPropertyStr, total_effects_cons, total_effects_nil, Effect.surplus]
  split_ifs <;> rfl

theorem MethodExport.total_flatMap_plan (owner : ℕ) (l : List MethodExport) (p : ℕ) :
    total (l.flatMap (MethodExport.plan owner)) p = 0 :=
  Plan.total_flatMap_eq_zero _ l p fun x => MethodExport.total_plan owner x p

theorem MethodExport.careful_plan (owner : ℕ) (x : MethodExport) :
    Careful [] (MethodExport.plan owner x) := by
  unfold MethodExport.plan jsNew
  cases hassigned : x.assigned with
  | stored =>
      simp [jsSetPropertyStr, effects, Careful, Effect.surplus]
  | setter =>
      simp [jsSetPropertyStr, jsFreeValue, effects, pause, Careful, Effect.surplus]
  | refused error =>
      simp [jsSetPropertyStr, jsFreeValue, jsNew, jsThrow, effects, Careful, Effect.surplus]
      split_ifs <;> omega

theorem PropertyExport.total_plan (owner : ℕ) (x : PropertyExport) (p : ℕ) :
    total (PropertyExport.plan owner x) p = 0 := by
  unfold PropertyExport.plan jsNew jsFreeValue
  cases x.setter with
  | none =>
      simp only [Option.elim_none, total_append, total_jsDefineProperty, total_effects_cons,
        total_effects_nil, total_nil, Effect.surplus]
      split_ifs <;> rfl
  | some setter =>
      simp only [Option.elim_some, total_append, total_jsDefineProperty, total_effects_cons,
        total_effects_nil, Effect.surplus]
      split_ifs <;> rfl

theorem PropertyExport.total_flatMap_plan (owner : ℕ) (l : List PropertyExport) (p : ℕ) :
    total (l.flatMap (PropertyExport.plan owner)) p = 0 :=
  Plan.total_flatMap_eq_zero _ l p fun x => PropertyExport.total_plan owner x p

theorem PropertyExport.careful_plan (owner : ℕ) (x : PropertyExport) :
    Careful [] (PropertyExport.plan owner x) := by
  unfold PropertyExport.plan jsNew jsFreeValue jsDefineProperty jsDupValue
  cases x.defined with
  | false =>
      cases x.setter with
      | none => simp [effects, Careful, Effect.surplus]
      | some setter =>
          simp [effects, Careful, Effect.surplus]
          split_ifs <;> omega
  | true =>
      cases x.setter with
      | none => simp [effects, Careful, Effect.surplus]
      | some setter =>
          simp [effects, Careful, Effect.surplus]
          split_ifs <;> omega

/-- The instance prototype is with the class while the loops run; the constructor is known
    to be with the global object when it is duplicated. -/
theorem careful_exportType (className : String) (classID instanceProto constructor : ℕ)
    (exportedMethods staticMethods : List MethodExport) (staticProperties : List PropertyExport) :
    Careful [] ((Operation.exportType className classID instanceProto constructor exportedMethods
      staticMethods staticProperties).plan true) := by
  have hmethods := Careful.flatMap (MethodExport.careful_plan instanceProto) exportedMethods
  have hnone := MethodExport.total_flatMap_plan instanceProto exportedMethods
  have hstatics := Careful.flatMap (MethodExport.careful_plan constructor) staticMethods
  have hproperties := Careful.flatMap (PropertyExport.careful_plan constructor) staticProperties
  -- what follows the instance methods has nothing of earlier objects but the prototype
  have hproto : Careful [] (jsSetClassProto classID instanceProto) := by
    simp [jsSetClassProto, effects, Careful, Effect.surplus]
  have hlater := (hmethods.append hproto)
  have htotal : ∀ p, total (exportedMethods.flatMap (MethodExport.plan instanceProto)
      ++ jsSetClassProto classID instanceProto) p = if p = instanceProto then -1 else 0 := by
    intro p
    rw [total_append, hnone, zero_add]
    exact add_zero _
  have hopening : Careful [] (jsNew instanceProto ++ jsNew constructor ++
      jsDefinePropertyValueStr none className constructor true ++
      jsSetConstructor constructor instanceProto ++ pause ++
      (exportedMethods.flatMap (MethodExport.plan instanceProto)
        ++ jsSetClassProto classID instanceProto)) := by
    generalize exportedMethods.flatMap (MethodExport.plan instanceProto)
      ++ jsSetClassProto classID instanceProto = later at hlater htotal
    simp [jsNew, jsDefinePropertyValueStr, jsSetConstructor, jsDupValue, jsFreeValue, effects,
      pause, Careful, Effect.surplus, htotal, hlater]
    split_ifs <;> omega
  have hstatic : Careful [] (pause ++ staticMethods.flatMap (MethodExport.plan constructor) ++ pause ++
      staticProperties.flatMap (PropertyExport.plan constructor)) :=
    ((careful_pause.append hstatics).append careful_pause).append hproperties
  have hwhole := hopening.append hstatic
  simp only [Operation.plan, List.append_assoc] at hwhole ⊢
  exact hwhole

theorem careful_typedConstruct (result : ℕ) (error : Option ℕ)
    (exportedProperties : List PropertyExport) (returned : ℕ) :
    Careful [] ((Operation.typedConstruct result error exportedProperties returned).plan
      true) := by
  have hproperties := Careful.flatMap (PropertyExport.careful_plan result) exportedProperties
  have hnone := PropertyExport.total_flatMap_plan result exportedProperties
  cases error with
  | some error =>
      simp [Operation.plan, jsNew, jsFreeValue, jsThrow, effects, pause, Careful,
        Effect.surplus]
      split_ifs <;> omega
  | none =>
      have hreturned : Careful [] (effects [.store (.kept returned) result]) := by
        simp [effects, Careful, Effect.surplus]
      have hlater := hproperties.append hreturned
      have htotal : total (exportedProperties.flatMap (PropertyExport.plan result)
          ++ effects [.store (.kept returned) result]) result = -1 := by
        rw [total_append, hnone, zero_add]
        exact (add_zero _).trans (if_pos rfl)
      unfold Operation.plan
      dsimp only
      generalize exportedProperties.flatMap (PropertyExport.plan result)
        ++ effects [.store (.kept returned) result] = later at hlater htotal
      simp [jsNew, effects, pause, Careful, Effect.surplus, htotal, hlater]

/-- What is not made is known to be with a slot. -/
theorem careful_exportInstance (r : ℕ) (found : Slot) (const : Option (ℕ × Slot))
    (isPlain : Bool) (wrapper : ℕ) :
    Careful (Operation.exportInstance r found const isPlain wrapper).found
      ((Operation.exportInstance r found const isPlain wrapper).plan true) := by
  cases const with
  | none =>
      cases isPlain with
      | true =>
          simp [Operation.plan, Operation.found, jsClassInit, jsDupValue, jsFreeValue,
            effects, Careful, Effect.surplus]
      | false =>
          simp [Operation.plan, Operation.found, jsClassInit, jsDupValue, jsFreeValue,
            effects, Careful, Effect.surplus]
  | some const =>
      rcases const with ⟨const, slot⟩
      by_cases hr : const = r
      · subst hr
        cases isPlain with
        | true =>
            simp [Operation.plan, Operation.found, jsClassInit, jsDupValue, jsFreeValue,
              effects, Careful, Effect.surplus]
        | false =>
            simp [Operation.plan, Operation.found, jsClassInit, jsDupValue, jsFreeValue,
              effects, Careful, Effect.surplus]
      · have hr' : ¬ r = const := fun heq => hr heq.symm
        cases isPlain with
        | true =>
            simp [Operation.plan, Operation.found, jsClassInit, jsDupValue, jsFreeValue,
              effects, Careful, Effect.surplus, hr, hr']
        | false =>
            simp [Operation.plan, Operation.found, jsClassInit, jsDupValue, jsFreeValue,
              effects, Careful, Effect.surplus, hr, hr']

/-- The operations that keep counts touch nothing without a reference to it. -/
theorem careful_plan {extensible : Bool} {op : Operation} (h : op.keeps extensible) :
    Careful op.found (op.plan extensible) := by
  cases op with
  | exportFunction name newFunction wrapper error => exact absurd h Bool.false_ne_true
  | exportType className classID instanceProto constructor methods statics properties =>
      cases extensible with
      | false => exact absurd h Bool.false_ne_true
      | true =>
          exact careful_exportType className classID instanceProto constructor methods statics
            properties
  | typedConstruct result error properties returned =>
      exact careful_typedConstruct result error properties returned
  | exportInstance r found const isPlain wrapper =>
      exact careful_exportInstance r found const isPlain wrapper
  | deinit wrapper => trivial

/-- They give up all that they take. -/
theorem total_plan {extensible : Bool} {op : Operation} (h : op.keeps extensible) (p : ℕ) :
    total (op.plan extensible) p = 0 := by
  cases op with
  | exportFunction name newFunction wrapper error => exact absurd h Bool.false_ne_true
  | exportType className classID instanceProto constructor methods statics properties =>
      unfold Operation.plan jsNew jsSetConstructor jsSetClassProto jsDupValue
      simp only [total_append, MethodExport.total_flatMap_plan, PropertyExport.total_flatMap_plan,
        total_jsDefinePropertyValueStr, total_effects_cons, total_effects_nil, total_pause,
        Effect.surplus]
      split_ifs <;> rfl
  | typedConstruct result error properties returned =>
      unfold Operation.plan jsNew jsFreeValue jsThrow
      cases error with
      | none =>
          simp only [total_append, PropertyExport.total_flatMap_plan, total_effects_cons,
            total_effects_nil, total_pause, Effect.surplus]
          split_ifs <;> rfl
      | some error =>
          simp only [total_append, total_effects_cons, total_effects_nil, total_pause,
            Effect.surplus]
          split_ifs <;> rfl
  | exportInstance r found const isPlain wrapper =>
      unfold Operation.plan jsClassInit jsDupValue jsFreeValue
      cases const with
      | none =>
          cases isPlain with
          | true =>
              simp [Effect.surplus]
              split_ifs <;> rfl
          | false =>
              simp [Effect.surplus]
              split_ifs <;> rfl
      | some const =>
          cases isPlain with
          | true =>
              simp [Effect.surplus]
              split_ifs <;> rfl
          | false =>
              simp [Effect.surplus]
              split_ifs <;> rfl
  | deinit wrapper => rfl

/-- `export(name:function:)` frees a reference that it does not have. -/
theorem total_exportFunction (name : String) (newFunction wrapper error : ℕ) (extensible : Bool)
    (p : ℕ) :
    total ((Operation.exportFunction name newFunction wrapper error).plan extensible) p
      = if p = newFunction then -1 else 0 := by
  unfold Operation.plan jsNew jsFunctionInit jsDupValue jsFreeValue
  simp only [total_append, total_jsSetPropertyStr, total_effects_cons, total_effects_nil,
    Effect.surplus]
  split_ifs <;> rfl

end Operations

/-! ## Runs -/

namespace References

variable {s t : References} {e : Event}

/-- One step. -/
theorem settled_step (hs : s.office.Settled) (hkeeps : s.Keeps e) (h : Step s e t) :
    t.office.Settled := by
  cases h with
  | operation _ hfound =>
      exact hs.begin (careful_plan hkeeps) hfound (total_plan hkeeps)
  | resume => exact hs.resume
  | @link slot found o _ hfound =>
      -- the script found the object in a slot, and it is still there
      have hcareful : Careful [(found, o)] (effects [.dup o, .store slot o]) := by
        simp [effects, Careful, Effect.surplus]
      refine hs.begin hcareful (by simpa using hfound) fun p => ?_
      simp only [total_effects_cons, total_effects_nil, Effect.surplus]
      split_ifs <;> rfl
  | @unlink slot _ =>
      have hcareful : Careful [] (effects [.clear slot]) := trivial
      exact hs.begin hcareful (List.nil_subset _) fun p => rfl
  | @make slot _ =>
      have hcareful : Careful [] (effects [.create s.next, .store slot s.next]) := by
        simp [effects, Careful, Effect.surplus]
      refine hs.begin hcareful (List.nil_subset _) fun p => ?_
      simp only [total_effects_cons, total_effects_nil, Effect.surplus]
      split_ifs <;> rfl
  | preventExtensions => exact hs

theorem settled_start : start.office.Settled where
  sound := ⟨fun _ => le_refl 0, fun _ ho => absurd ho List.not_mem_nil⟩
  careful _ hes := absurd hes List.not_mem_nil
  surplus _ := rfl

/-- Counts agree in every run without `export(name:function:)` in which every class that
    is exported gets its global property: each count is the number of slots and of
    references that the operations under way have, and what a slot refers to was never
    freed. -/
theorem counts_of_run {es : List Event} (h : Run (Guarded Keeps Step) start es s) :
    (∀ o, s.office.ledger.count o = s.office.ledger.holders o + s.office.held o) ∧
      (s.office.underway = [] → ∀ o, s.office.ledger.count o = s.office.ledger.holders o) ∧
      ∀ slot o, (slot, o) ∈ s.office.ledger.slots →
        0 < s.office.ledger.count o ∧ o ∉ s.office.ledger.freed := by
  have hsettled : s.office.Settled :=
    h.invariant (P := fun t => t.office.Settled)
      (fun _ _ _ hs hstep => settled_step hs hstep.1 hstep.2) settled_start
  refine ⟨fun o => ?_, hsettled.balanced, fun slot o hslot => ?_⟩
  · have hsurplus := hsettled.surplus o
    unfold Ledger.surplus at hsurplus
    omega
  · exact ⟨hsettled.sound.count_pos hslot, hsettled.sound.not_freed hslot⟩

/-- A type with a method and a property is exported. -/
theorem counts_of_run_type :
    let op : Operation := .exportType "C" 61 0 1 [⟨"m", 2, .stored⟩] [] [⟨"p", 3, some 4, true⟩]
    let s : References := (start.begin (op.plan true)).resume.resume.resume
    s.office.underway = [] ∧ s.office.ledger.count 1 = 2 ∧
      s.office.ledger.count 1 = s.office.ledger.holders 1 := by
  intro op s
  have hrun : Run (Guarded Keeps Step) start [.operation op, .resume, .resume, .resume] s := by
    refine Run.cons ⟨rfl, .operation ?_ (List.nil_subset _)⟩ (Run.cons ⟨trivial, .resume⟩
      (Run.cons ⟨trivial, .resume⟩ (Run.single ⟨trivial, .resume⟩)))
    decide
  have hidle : s.office.underway = [] := by decide
  exact ⟨hidle, by decide, (counts_of_run hrun).2.1 hidle 1⟩

/-- `export(name:function:)` leaves the function with one reference less than refer to it,
    whatever came before. -/
theorem surplus_exportFunction (s : References) (name : String) (newFunction wrapper error : ℕ) :
    (s.begin ((Operation.exportFunction name newFunction wrapper error).plan
        true)).office.ledger.surplus newFunction
      = s.office.ledger.surplus newFunction - 1 := by
  have hsum := Plan.surplus_advance
    ((Operation.exportFunction name newFunction wrapper error).plan true) s.office.ledger
    newFunction
  rw [total_exportFunction, if_pos rfl] at hsum
  -- nothing is left of the plan, which has no pause
  exact (add_zero _).symm.trans hsum

/-- A function is exported and its wrapper is released: the function is freed, and the
    property of the global object still refers to it. -/
theorem exists_freed_property :
    ∃ es s, Run Step start es s ∧ s.office.underway = [] ∧
      (.property none "f", 0) ∈ s.office.ledger.slots ∧ s.office.ledger.count 0 = 0 ∧
      0 ∈ s.office.ledger.freed := by
  refine ⟨[.operation (.exportFunction "f" 0 0 0), .operation (.deinit 0)], _,
    Run.cons (.operation ?_ (List.nil_subset _)) (Run.single (.operation ?_ (List.nil_subset _))),
    ?_⟩
  · decide
  · decide
  · decide

end References

end Substrata
