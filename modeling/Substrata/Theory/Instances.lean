import Substrata.Core.Instances
import Substrata.Theory.Objects

/-!
# Which instance a method is called on

An object whose class is not predefined carries the pointer to its own info: only
`typedConstruct` makes such objects, and nothing else writes the pointer. So
`__instanceAtom`, which any script can write, does no harm as long as it names a class
of the host program: `JS_GetOpaque` compares it with the class of the object.

It also returns the union of a built-in object if the number is that of a built-in
class, and the union of an array with elements begins with their number. A negative
number traps before anything is compared. And the info of an object may be gone:
a constructor that throws deallocates it, while a setter for `__instanceAtom` has been
passed the object before.

## Main definitions

* `Instances.Safe`: What is expected of a call.
* `Instances.Authorised`: The condition on the number that was read.
* `Instances.Stored`: The invariant: objects and infos belong together.

## Theorems

* `jsGetOpaque_eq_info`: Where a pointer to an info comes from.
* `Stored.step`: The invariant survives what happens on the heap.
* `safe_iff_authorised`: A call is safe if and only if the number was harmless.
* `exists_not_safe`: A regular expression with the number of its own class.
-/

namespace Substrata

open Transition (Run)

namespace Instances

/-! ### What is expected -/

/-- Nothing is looked at; or the info that belongs to the object itself is, it has not
    been deallocated, and the method that the ID stands for is called on its instance. -/
def Safe (this : JSValue) (magic : Int32) (s' s : Instances) (result : MethodResult) : Prop :=
  result = .undefined ∨
    ∃ ref n info methodName, this = .object ref ∧ s.methodIDs.lookup magic = some methodName ∧
      s'.infos[n]? = some info ∧ info.object = ref ∧ info.deallocated = false ∧
      result = .dereferenced (.info n) (some (info.instance?, methodName))

/-- No method has the ID; or the number is not negative, and if it is that of the
    object's class, then the object has no pointer, or it is one of the host program
    whose info is still there, and the instance exports the method. -/
def Authorised (zero : ObjectUnion → Bool) (exportedMethods : NativeRef → List CName)
    (this : JSValue) (magic classID : Int32) (s' s : Instances) : Prop :=
  ∀ methodName, s.methodIDs.lookup magic = some methodName →
    0 ≤ classID.toInt ∧
      ∀ ref o, this = .object ref → s'.heap.objects[ref]? = some o →
        (o.classID : ℤ) = classID.toInt →
        o.u.firstWord zero = .null ∨
          jsClassInitCount ≤ o.classID ∧ ∀ info ∈ s'.infos, info.object = ref →
            info.deallocated = false ∧ methodName ∈ exportedMethods info.instance?

/-- Objects of the host program's classes have an info of their own, and nothing else
    has one. -/
structure Stored (s : Instances) : Prop where
  object : ∀ (ref : ℕ) (o : JSObject) (n : ℕ), s.heap.objects[ref]? = some o →
    o.u = .pointer (some n) → ∃ info : InstanceInfo, s.infos[n]? = some info ∧ info.object = ref
  info : ∀ (n : ℕ) (info : InstanceInfo), s.infos[n]? = some info →
    ∃ o : JSObject, s.heap.objects[info.object]? = some o ∧ o.u = .pointer (some n) ∧
      jsClassInitCount ≤ o.classID
  pointer : ∀ (ref : ℕ) (o : JSObject), s.heap.objects[ref]? = some o →
    jsClassInitCount ≤ o.classID → ∃ n, o.u = .pointer (some n)

theorem stored_initial {s : Instances} (h : s.Initial) : s.Stored := by
  rcases h with ⟨_, hinfos, hobjects⟩
  refine ⟨?_, ?_, ?_⟩
  · intro ref o n ho hu
    exact absurd hu ((hobjects o (List.mem_of_getElem? ho)).2 n)
  · intro n info hinfo
    rw [hinfos] at hinfo
    cases hinfo
  · intro ref o ho hclass
    exact absurd (hobjects o (List.mem_of_getElem? ho)).1 (Nat.not_lt.mpr hclass)

/-! ### What an event leaves alone -/

/-- The new object is the last one. -/
theorem getElem?_allocate_eq (h : Heap) (o : JSObject) (ref : ℕ) :
    (h.allocate o).1.objects[ref]? = if ref = h.objects.length then some o else h.objects[ref]? := by
  by_cases href : ref = h.objects.length
  · rw [if_pos href, href, Heap.getElem?_allocate]
  · rw [if_neg href]
    by_cases hlt : ref < h.objects.length
    · exact (Heap.frame_allocate h o).objects ref hlt
    · rw [List.getElem?_eq_none (Nat.le_of_not_lt hlt)]
      refine List.getElem?_eq_none ?_
      unfold Heap.allocate
      rw [List.length_append, List.length_singleton]
      omega

/-- An object of a predefined class is added. -/
theorem Stored.allocate {s : Instances} (h : s.Stored) {o : JSObject}
    (hclass : o.classID < jsClassInitCount) (hu : ∀ n, o.u ≠ .pointer (some n)) :
    ({ s with heap := (s.heap.allocate o).1 } : Instances).Stored := by
  refine ⟨?_, ?_, ?_⟩
  · intro ref o' n ho' hu'
    rw [getElem?_allocate_eq] at ho'
    split_ifs at ho' with href
    · cases ho'
      exact absurd hu' (hu n)
    · exact h.object ref o' n ho' hu'
  · intro n info hinfo
    rcases h.info n info hinfo with ⟨o', ho', hu', hclass'⟩
    refine ⟨o', ?_, hu', hclass'⟩
    rw [getElem?_allocate_eq, if_neg (Nat.ne_of_lt (Heap.lt_of_getElem? ho'))]
    exact ho'
  · intro ref o' ho' hclass'
    rw [getElem?_allocate_eq] at ho'
    split_ifs at ho' with href
    · cases ho'
      omega
    · exact h.pointer ref o' ho' hclass'

/-- An object changes, but not what is behind it. -/
theorem Stored.change {s : Instances} (h : s.Stored) {ref : ℕ} {o o' : JSObject}
    (ho : s.heap.objects[ref]? = some o) (hclass : o'.classID = o.classID)
    (hu : o'.u = o.u ∨ o.classID < jsClassInitCount ∧ ∀ n, o'.u ≠ .pointer (some n)) :
    ({ s with heap := s.heap.update ref fun _ => o' } : Instances).Stored := by
  have hself : (s.heap.update ref fun _ => o').objects[ref]? = some o' := by
    rw [Heap.getElem?_update, ho, Option.map_some]
  have hother : ∀ i, i ≠ ref → (s.heap.update ref fun _ => o').objects[i]? = s.heap.objects[i]? :=
    fun i hi => (Heap.frame_update s.heap ref fun _ => o').objects i hi
  refine ⟨?_, ?_, ?_⟩
  · intro i p n hp hup
    by_cases hi : i = ref
    · subst hi
      rw [hself] at hp
      cases hp
      rcases hu with hsame | ⟨_, hnot⟩
      · exact h.object i o n ho (hsame.symm.trans hup)
      · exact absurd hup (hnot n)
    · rw [hother i hi] at hp
      exact h.object i p n hp hup
  · intro n info hinfo
    rcases h.info n info hinfo with ⟨p, hp, hup, hclassp⟩
    by_cases hi : info.object = ref
    · rw [hi, ho] at hp
      cases hp
      refine ⟨o', hi ▸ hself, ?_, hclass ▸ hclassp⟩
      rcases hu with hsame | ⟨hlt, _⟩
      · exact hsame.trans hup
      · omega
    · exact ⟨p, (hother _ hi).trans hp, hup, hclassp⟩
  · intro i p hp hclassp
    by_cases hi : i = ref
    · subst hi
      rw [hself] at hp
      cases hp
      rcases hu with hsame | ⟨hlt, _⟩
      · rw [hsame]
        exact h.pointer i o ho (hclass ▸ hclassp)
      · omega
    · rw [hother i hi] at hp
      exact h.pointer i p hp hclassp

/-- A new object of a class of the host program, before and after its property is
    set. -/
theorem makeInstance_spec (classID : ℕ) (proto : Option ℕ) (n : ℕ) (h : Heap) :
    (∃ o, (makeInstance classID proto n h).objects[h.objects.length]? = some o ∧
      o.classID = classID ∧ o.u = .pointer (some n)) ∧
    ∀ i, i ≠ h.objects.length → (makeInstance classID proto n h).objects[i]? = h.objects[i]? := by
  let made : JSObject := { classID := classID, proto := proto, u := .pointer (some n) }
  have hmade : (h.allocate made).1.objects[h.objects.length]? = some made :=
    Heap.getElem?_allocate h made
  have hother : ∀ i, i ≠ h.objects.length → (h.allocate made).1.objects[i]? = h.objects[i]? := by
    intro i hi
    rw [getElem?_allocate_eq, if_neg hi]
  unfold makeInstance
  dsimp only
  split
  · rename_i h' hset
    rcases Heap.setProperty_spec hmade hset with ⟨hframe, o', ho', hassigned⟩
    exact ⟨⟨o', ho', hassigned.classID, hassigned.u⟩,
      fun i hi => (hframe.objects i hi).trans (hother i hi)⟩
  · exact ⟨⟨made, hmade, rfl, rfl⟩, hother⟩

/-- `typedConstruct` adds an object and its info. -/
theorem Stored.construct {s : Instances} (h : s.Stored) {classID : ℕ}
    (hclass : jsClassInitCount ≤ classID) (proto : Option ℕ) (instance? : NativeRef)
    (constructing : Bool) :
    ({ s with
        heap := makeInstance classID proto s.infos.length s.heap
        infos := s.infos ++ [⟨instance?, s.heap.objects.length, constructing, false⟩] } :
      Instances).Stored := by
  rcases makeInstance_spec classID proto s.infos.length s.heap
    with ⟨⟨made, hmade, hmadeClass, hmadeU⟩, hother⟩
  have hinfos : ∀ (n : ℕ) (info : InstanceInfo), s.infos[n]? = some info →
      (s.infos ++ [⟨instance?, s.heap.objects.length, constructing, false⟩])[n]? = some info := by
    intro n info hinfo
    rw [List.getElem?_append_left (List.getElem?_eq_some_iff.mp hinfo).1]
    exact hinfo
  refine ⟨?_, ?_, ?_⟩
  · intro ref o n ho hu
    by_cases href : ref = s.heap.objects.length
    · subst href
      dsimp only at ho
      rw [hmade] at ho
      cases ho
      rw [hmadeU] at hu
      cases hu
      refine ⟨⟨instance?, s.heap.objects.length, constructing, false⟩, ?_, rfl⟩
      dsimp only
      rw [List.getElem?_append_right (le_refl _), Nat.sub_self]
      rfl
    · rcases h.object ref o n ((hother ref href).symm.trans ho) hu with ⟨info, hinfo, hobject⟩
      exact ⟨info, hinfos n info hinfo, hobject⟩
  · intro n info hinfo
    dsimp only at hinfo
    by_cases hn : n < s.infos.length
    · rw [List.getElem?_append_left hn] at hinfo
      rcases h.info n info hinfo with ⟨o, ho, hu, hclass'⟩
      exact ⟨o, (hother _ (Nat.ne_of_lt (Heap.lt_of_getElem? ho))).trans ho, hu, hclass'⟩
    · rw [List.getElem?_append_right (Nat.le_of_not_lt hn)] at hinfo
      have hmem := List.mem_singleton.mp (List.mem_of_getElem? hinfo)
      have hzero : n - s.infos.length = 0 := by
        by_contra hne
        rw [List.getElem?_eq_none (by simp only [List.length_singleton]; omega)] at hinfo
        cases hinfo
      have hlast : n = s.infos.length := by omega
      subst hmem
      refine ⟨made, hmade, ?_, ?_⟩
      · rw [hmadeU, hlast]
      · omega
  · intro ref o ho hclass'
    by_cases href : ref = s.heap.objects.length
    · subst href
      dsimp only at ho
      rw [hmade] at ho
      cases ho
      exact ⟨_, hmadeU⟩
    · exact h.pointer ref o ((hother ref href).symm.trans ho) hclass'

/-- An info changes, but not the object that it belongs to. -/
theorem Stored.update {s : Instances} (h : s.Stored) (n : ℕ) {f : InstanceInfo → InstanceInfo}
    (hf : ∀ info, (f info).object = info.object) : (s.update n f).Stored := by
  have hinfos : ∀ i : ℕ, (s.update n f).infos[i]?
      = (s.infos[i]?).map fun info => if n = i then f info else info := by
    intro i
    unfold Instances.update
    rw [List.getElem?_modify]
    by_cases hi : n = i
    · simp only [if_pos hi]
      rfl
    · simp only [if_neg hi]
      rfl
  refine ⟨?_, ?_, h.pointer⟩
  · intro ref o i ho hu
    rcases h.object ref o i ho hu with ⟨info, hinfo, hobject⟩
    refine ⟨_, (hinfos i).trans (congrArg _ hinfo), ?_⟩
    by_cases hi : n = i
    · simp only [if_pos hi, hf, hobject]
    · simp only [if_neg hi, hobject]
  · intro i info hinfo
    rw [hinfos] at hinfo
    rcases Option.map_eq_some_iff.mp hinfo with ⟨info', hinfo', rfl⟩
    have hobject : (if n = i then f info' else info').object = info'.object := by
      by_cases hi : n = i
      · rw [if_pos hi, hf]
      · rw [if_neg hi]
    rw [hobject]
    exact h.info i info' hinfo'

/-- The invariant survives what happens on the heap. -/
theorem Stored.step {s s' : Instances} {event : Event} (h : s.Stored) (hstep : Step s event s') :
    s'.Stored := by
  cases hstep with
  | object hclass hu => exact h.allocate hclass hu
  | change ho hclass hu => exact h.change ho hclass hu
  | exportType => exact ⟨h.object, h.info, h.pointer⟩
  | exportMethod => exact ⟨h.object, h.info, h.pointer⟩
  | construct hclass _ => exact h.construct hclass _ _ _
  | constructed _ _ => exact h.update _ fun _ => rfl
  | threw _ _ => exact h.update _ fun _ => rfl

theorem stored_of_reachable {s : Instances} (h : s.Reachable) : s.Stored :=
  Transition.Reachable.invariant (P := Stored) (fun _ => stored_initial) (fun _ _ _ hs => hs.step) h

/-- Reading the property leads from a reachable state to a reachable state. -/
theorem Reads.reachable {c : Coercions} {s s' : Instances} {this : JSValue} {k : Int32}
    (h : Reads c s this k s') (hs : s.Reachable) : s'.Reachable := by
  cases h with
  | plain _ _ => exact hs
  | converted _ hrun => exact hs.of_run hrun
  | getter _ hrun => exact hs.of_run hrun
  | primitive _ hrun => exact hs.of_run hrun

/-! ### Calls -/

/-- A word that is a pointer to an info is the object's own pointer. -/
theorem firstWord_eq_info {zero : ObjectUnion → Bool} {u : ObjectUnion} {n : ℕ}
    (h : u.firstWord zero = .info n) : u = .pointer (some n) := by
  have hother : ∀ v : ObjectUnion, (if zero v then OpaqueWord.null else .other) ≠ .info n := by
    intro v
    split_ifs <;> simp only [ne_eq, reduceCtorEq, not_false_eq_true]
  cases u with
  | pointer info =>
      cases info with
      | none => cases h
      | some m =>
          cases h
          rfl
  | array values => exact absurd h (hother _)
  | objectData v => exact absurd h (hother _)
  | record => exact absurd h (hother _)

theorem jsGetOpaque_object {zero : ObjectUnion → Bool} {h : Heap} {ref : ℕ} {o : JSObject}
    (ho : h.objects[ref]? = some o) (classID : ℕ) :
    jsGetOpaque zero h (.object ref) classID
      = if o.classID = classID then o.u.firstWord zero else .null := by
  unfold jsGetOpaque
  dsimp only
  rw [ho]

/-- There is nothing to look at unless the number is that of the object's class. -/
theorem jsGetOpaque_cases (zero : ObjectUnion → Bool) (h : Heap) (this : JSValue) (classID : ℕ) :
    (jsGetOpaque zero h this classID = .null ∧
      ∀ ref o, this = .object ref → h.objects[ref]? = some o → o.classID ≠ classID) ∨
    ∃ ref o, this = .object ref ∧ h.objects[ref]? = some o ∧ o.classID = classID ∧
      jsGetOpaque zero h this classID = o.u.firstWord zero := by
  by_cases hobject : ∃ ref o, this = .object ref ∧ h.objects[ref]? = some o ∧ o.classID = classID
  · rcases hobject with ⟨ref, o, rfl, ho, hclass⟩
    refine Or.inr ⟨ref, o, rfl, ho, hclass, ?_⟩
    rw [jsGetOpaque_object ho, if_pos hclass]
  · refine Or.inl ⟨?_, fun ref o hthis ho hclass => hobject ⟨ref, o, hthis, ho, hclass⟩⟩
    unfold jsGetOpaque
    cases this with
    | object ref =>
        dsimp only
        cases ho : h.objects[ref]? with
        | none => rfl
        | some o => exact if_neg fun hclass => hobject ⟨ref, o, rfl, ho, hclass⟩
    | _ => rfl

theorem not_safe_trap {this : JSValue} {magic : Int32} {s' s : Instances} :
    ¬ Safe this magic s' s .trap := by
  rintro (hundefined | ⟨_, _, _, _, _, _, _, _, _, hcalled⟩)
  · cases hundefined
  · cases hcalled

/-- Memory is read as an info, and no method comes of it. -/
theorem not_safe_dereferenced {this : JSValue} {magic : Int32} {s' s : Instances}
    {word : OpaqueWord} : ¬ Safe this magic s' s (.dereferenced word none) := by
  rintro (hundefined | ⟨_, _, _, _, _, _, _, _, _, hcalled⟩)
  · cases hundefined
  · cases hcalled

/-- The info of an object is the one that its pointer leads to. -/
theorem Stored.info_unique {s : Instances} (h : s.Stored) {ref n : ℕ} {o : JSObject}
    (ho : s.heap.objects[ref]? = some o) (hu : o.u = .pointer (some n)) {info : InstanceInfo}
    (hinfo : s.infos[n]? = some info) {found : InstanceInfo} (hmem : found ∈ s.infos)
    (hfound : found.object = ref) : found = info := by
  rcases List.mem_iff_getElem?.mp hmem with ⟨m, hm⟩
  rcases h.info m found hm with ⟨o', ho', hu', _⟩
  rw [hfound, ho] at ho'
  cases ho'
  rw [hu] at hu'
  cases hu'
  exact Option.some.inj (hm.symm.trans hinfo)

end Instances

open Instances

/-- In every state that scripts get to, with any value for `this`, any method ID, and
    whatever `__instanceAtom` converts to: the call looks at nothing, or at the info of
    the object itself, and calls the method on its instance, if and only if the number
    was harmless. -/
theorem safe_iff_authorised {s : Instances} (hs : s.Reachable) {c : Coercions} {this : JSValue}
    {classID : Int32} {s' : Instances} (hread : Reads c s this classID s')
    (zero : ObjectUnion → Bool) (exportedMethods : NativeRef → List CName) (magic : Int32) :
    Safe this magic s' s (typedInstanceMethod zero exportedMethods this magic classID s' s) ↔
      Authorised zero exportedMethods this magic classID s' s := by
  have hstored := stored_of_reachable (hread.reachable hs)
  unfold typedInstanceMethod Authorised
  cases hmethod : s.methodIDs.lookup magic with
  | none =>
      refine ⟨fun _ methodName hname => ?_, fun _ => Or.inl rfl⟩
      cases hname
  | some methodName =>
      dsimp only
      unfold callInstance
      by_cases hneg : classID.toInt < 0
      · -- the conversion traps
        rw [if_pos hneg]
        refine ⟨fun h => absurd h not_safe_trap, fun h => ?_⟩
        have hnonneg := (h methodName rfl).1
        omega
      · rw [if_neg hneg]
        have hnat : (classID.toInt.toNat : ℤ) = classID.toInt := Int.toNat_of_nonneg (by omega)
        rcases jsGetOpaque_cases zero s'.heap this classID.toInt.toNat
          with ⟨hnull, hclass⟩ | ⟨ref, o, rfl, ho, hclass, hword⟩
        · rw [hnull]
          refine ⟨fun _ name _ => ⟨by omega, ?_⟩, fun _ => Or.inl rfl⟩
          intro ref o hthis ho heq
          exact absurd (by omega) (hclass ref o hthis ho)
        · rw [hword]
          cases hfirst : o.u.firstWord zero with
          | null =>
              refine ⟨fun _ name _ => ⟨by omega, ?_⟩, fun _ => Or.inl rfl⟩
              intro ref' o' hthis ho' _
              cases hthis
              obtain rfl : o = o' := Option.some.inj (ho.symm.trans ho')
              exact Or.inl hfirst
          | other =>
              -- a built-in object, with a word that is not zero
              refine ⟨fun h => absurd h not_safe_dereferenced, fun h => ?_⟩
              rcases (h methodName rfl).2 ref o rfl ho (by omega) with hnull | ⟨hown, _⟩
              · rw [hfirst] at hnull
                cases hnull
              · rcases hstored.pointer ref o ho hown with ⟨n, hu⟩
                rw [hu] at hfirst
                cases hfirst
          | info n =>
              have hu := firstWord_eq_info hfirst
              rcases hstored.object ref o n ho hu with ⟨info, hinfo, hobject⟩
              rcases hstored.info n info hinfo with ⟨o', ho', _, hown⟩
              rw [hobject, ho] at ho'
              cases ho'
              dsimp only
              rw [hinfo]
              dsimp only
              by_cases hlive : info.deallocated = false ∧ methodName ∈ exportedMethods info.instance?
              · rw [if_pos hlive]
                refine ⟨fun _ name hname => ⟨by omega, ?_⟩, fun _ => Or.inr
                  ⟨ref, n, info, methodName, rfl, hmethod, hinfo, hobject, hlive.1, rfl⟩⟩
                intro ref' p hthis hp _
                cases hthis
                cases hname
                obtain rfl : o = p := Option.some.inj (ho.symm.trans hp)
                refine Or.inr ⟨hown, fun found hmem hfound => ?_⟩
                rw [hstored.info_unique ho hu hinfo hmem hfound]
                exact hlive
              · rw [if_neg hlive]
                refine ⟨fun h => absurd h not_safe_dereferenced, fun h => ?_⟩
                rcases (h methodName rfl).2 ref o rfl ho (by omega) with hnull | ⟨_, hall⟩
                · rw [hfirst] at hnull
                  cases hnull
                · exact absurd (hall info (List.mem_of_getElem? hinfo) hobject) hlive

/-! ### A regular expression -/

/-- `jsClassRegExp`: the class of regular expressions, whose union has a pointer to the
    pattern. -/
def jsClassRegExp : ℕ := 18

/-- A method is exported with ID zero. A script has made a regular expression, and
    given it the number of its own class as `__instanceAtom`. -/
theorem exists_regExp :
    ∃ (s : Instances) (ref : ℕ) (o : JSObject), s.Reachable ∧
      s.methodIDs.lookup 0 = some (cString "m") ∧ s.heap.objects[ref]? = some o ∧
      o.classID = jsClassRegExp ∧ o.u = .record ∧
      ∀ c, Reads c s (.object ref) (Int32.ofNat jsClassRegExp) s := by
  let objectProto : JSObject := { classID := jsClassObject, proto := none }
  let regExpProto : JSObject := { classID := jsClassObject, proto := some 0 }
  let plain : JSObject := { classID := jsClassRegExp, proto := some 1, u := .record }
  let marked : JSObject :=
    { plain with
      properties := [(instanceAtom, .value (jsNewInt32 (Int32.ofNat jsClassRegExp)) true true)] }
  let h0 : Heap :=
    { objects := [objectProto, regExpProto], context := 0, objectProto := 0, arrayProto := 0,
      errorProto := 0, dateProto := 0 }
  let s0 : Instances :=
    { heap := h0, jsClassIDAlloc := jsClassInitCount, methodIDs := ∅, infos := [] }
  let s1 : Instances := { s0 with methodIDs := s0.methodIDs.insert 0 (cString "m") }
  let s2 : Instances := { s1 with heap := (h0.allocate plain).1 }
  let s3 : Instances := { s2 with heap := s2.heap.update 2 fun _ => marked }
  have hinitial : s0.Initial := by
    refine ⟨rfl, rfl, fun o ho => ?_⟩
    rcases List.mem_cons.mp ho with rfl | ho
    · exact ⟨by decide, fun n hn => by cases hn⟩
    · obtain rfl := List.mem_singleton.mp ho
      exact ⟨by decide, fun n hn => by cases hn⟩
  have h1 : Step s0 (.exportMethod 0 (cString "m")) s1 := Step.exportMethod
  have h2 : Step s1 (.object plain) s2 := Step.object (by decide) fun n hn => by cases hn
  have h3 : Step s2 (.change 2 marked) s3 := Step.change rfl rfl (Or.inl rfl)
  have hreach : s3.Reachable :=
    ((Transition.Reachable.init hinitial).step h1 |>.step h2).step h3
  have hown : s3.heap.getProperty 2 instanceAtom
      = .ok (jsNewInt32 (Int32.ofNat jsClassRegExp)) := by
    have hchain : s3.heap.protoChain 2 = [2, 1, 0] := rfl
    have hfound : s3.heap.own instanceAtom 2
        = some (.value (jsNewInt32 (Int32.ofNat jsClassRegExp)) true true) := by
      show List.lookup instanceAtom [(instanceAtom, _)] = _
      exact List.lookup_cons_self
    unfold Heap.getProperty Heap.findProperty
    rw [hchain, List.findSome?_cons, hfound]
  refine ⟨s3, 2, marked, hreach, ?_, rfl, rfl, rfl, fun c => ?_⟩
  · rw [show s3.methodIDs = (∅ : Dict Int32 CName).insert 0 (cString "m") from rfl,
      Dict.lookup_insert, if_pos rfl]
  · exact Reads.plain hown fun p hp => by cases hp

/-- The theorem at the regular expression, if its pattern is not at the address
    zero. -/
theorem safe_iff_authorised_regExp :
    ∃ (s : Instances) (this : JSValue), s.Reachable ∧
      (Safe this 0 s s (typedInstanceMethod (fun _ => false) (fun _ => [cString "m"]) this 0
        (Int32.ofNat jsClassRegExp) s s) ↔
        Authorised (fun _ => false) (fun _ => [cString "m"]) this 0 (Int32.ofNat jsClassRegExp)
          s s) := by
  rcases exists_regExp with ⟨s, ref, o, hs, _, _, _, _, hread⟩
  have hread' := hread { atof := fun _ => .nan, toPrimitive := fun _ => jsUndefined }
  exact ⟨s, .object ref, hs, safe_iff_authorised hs hread' _ _ _⟩

/-- Called on the regular expression, the method reads the memory of the pattern as an
    info. -/
theorem exists_not_safe :
    ∃ (s : Instances) (this : JSValue) (c : Coercions) (classID : Int32), s.Reachable ∧
      Reads c s this classID s ∧
      ¬ Safe this 0 s s
        (typedInstanceMethod (fun _ => false) (fun _ => [cString "m"]) this 0 classID s s) := by
  rcases exists_regExp with ⟨s, ref, o, hs, hmethod, ho, hclass, hu, hread⟩
  refine ⟨s, .object ref, { atof := fun _ => .nan, toPrimitive := fun _ => jsUndefined }, _, hs,
    hread _, ?_⟩
  have hword : jsGetOpaque (fun _ => false) s.heap (.object ref)
      (Int32.ofNat jsClassRegExp).toInt.toNat = .other := by
    rw [jsGetOpaque_object ho, if_pos (by rw [hclass]; decide), hu]
    rfl
  unfold typedInstanceMethod callInstance
  rw [hmethod]
  dsimp only
  rw [if_neg (by decide), hword]
  exact not_safe_dereferenced

end Substrata
