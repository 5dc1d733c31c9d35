import Substrata.Core.Convert

/-!
# Objects under the property operations

What the operations of the heap do to one object, and what they leave alone.

Encoding only writes to objects it has made itself, one at a time. `Frame` says
so: two heaps have the same objects wherever a condition on their numbers holds,
and the same built-in prototypes. Each operation has a frame, and the frames
compose.

A lookup goes up a prototype chain, and the chains that matter here are short: a
fresh object is two steps below the end of its chain at most. `protoChain_pair`
and `protoChain_triple` compute them.

## Main definitions

* `Heap.Frame`: The objects with certain numbers are the same.
* `Heap.Intact`: The built-in prototypes are as the engine made them.
* `Heap.builtins`: A heap with nothing but the built-in prototypes.
* `Heap.Open`: Nothing inherited stands in the way of an assignment.
* `atomProto`, `atomConstructor`, `atomName`: The names that decoding looks for.

## Theorems

* `Frame.trans`: Frames compose.
* `protoChain_pair`, `protoChain_triple`: Short chains.
* `getProperty_of_own`: An own property is what a lookup finds.
* `setProperty_spec`: What an assignment does to its object, in general.
* `setProperty_open`: An assignment with an open way adds a property.
* `setProperty_fresh`: So does one to a plain object.
* `setProperty_proto`: An assignment to `__proto__` adds none.
-/

namespace Substrata

def atomProto : Atom := jsNewAtom "__proto__"

def atomConstructor : Atom := jsNewAtom "constructor"

def atomName : Atom := jsNewAtom "name"

/-! ## Slots -/

theorem mem_of_lookup {α β : Type} [BEq α] [LawfulBEq α] {l : List (α × β)} {a : α} {b : β}
    (h : l.lookup a = some b) : (a, b) ∈ l := by
  rcases List.lookup_eq_some_iff.mp h with ⟨before, after, rfl, _⟩
  exact List.mem_append_right _ (List.mem_cons_self ..)

/-- An own property is a slot, or an element. -/
theorem own_cases {o : JSObject} {atom : Atom} {p : Property} (hown : o.own atom = some p) :
    (atom, p) ∈ o.properties ∨
      ∃ values, o.u = .array values ∧ ∃ v ∈ values, p = .value v true true := by
  unfold JSObject.own at hown
  split at hown
  · rename_i values n hu
    cases hv : values[n]? with
    | none =>
        rw [hv] at hown
        exact Or.inl (mem_of_lookup hown)
    | some v =>
        rw [hv] at hown
        exact Or.inr ⟨values, hu, v, List.mem_of_getElem? hv, (Option.some.inj hown).symm⟩
  · exact Or.inl (mem_of_lookup hown)

namespace Heap

/-- Two heaps have the same objects where `keep` holds, and the same built-in
    prototypes. -/
structure Frame (keep : ℕ → Prop) (h h' : Heap) : Prop where
  objects : ∀ i, keep i → h'.objects[i]? = h.objects[i]?
  length : h.objects.length ≤ h'.objects.length
  context : h'.context = h.context
  objectProto : h'.objectProto = h.objectProto
  arrayProto : h'.arrayProto = h.arrayProto
  errorProto : h'.errorProto = h.errorProto
  dateProto : h'.dateProto = h.dateProto

variable {keep : ℕ → Prop} {h h' h'' : Heap}

theorem Frame.refl (keep : ℕ → Prop) (h : Heap) : Frame keep h h :=
  ⟨fun _ _ => rfl, le_rfl, rfl, rfl, rfl, rfl, rfl⟩

/-- Frames compose. -/
theorem Frame.trans (h₁ : Frame keep h h') (h₂ : Frame keep h' h'') : Frame keep h h'' where
  objects i hi := (h₂.objects i hi).trans (h₁.objects i hi)
  length := le_trans h₁.length h₂.length
  context := h₂.context.trans h₁.context
  objectProto := h₂.objectProto.trans h₁.objectProto
  arrayProto := h₂.arrayProto.trans h₁.arrayProto
  errorProto := h₂.errorProto.trans h₁.errorProto
  dateProto := h₂.dateProto.trans h₁.dateProto

theorem Frame.mono {keep' : ℕ → Prop} (hframe : Frame keep h h') (hsub : ∀ i, keep' i → keep i) :
    Frame keep' h h' where
  objects i hi := hframe.objects i (hsub i hi)
  length := hframe.length
  context := hframe.context
  objectProto := hframe.objectProto
  arrayProto := hframe.arrayProto
  errorProto := hframe.errorProto
  dateProto := hframe.dateProto

/-- A new object is the last one, and the others stay. -/
theorem frame_allocate (h : Heap) (o : JSObject) :
    Frame (· < h.objects.length) h (h.allocate o).1 where
  objects i hi := List.getElem?_append_left hi
  length := by
    unfold allocate
    rw [List.length_append]
    omega
  context := rfl
  objectProto := rfl
  arrayProto := rfl
  errorProto := rfl
  dateProto := rfl

theorem getElem?_allocate (h : Heap) (o : JSObject) :
    (h.allocate o).1.objects[h.objects.length]? = some o := by
  unfold allocate
  rw [List.getElem?_append_right le_rfl, Nat.sub_self]
  rfl

/-- An update leaves the other objects alone. -/
theorem frame_update (h : Heap) (ref : ℕ) (f : JSObject → JSObject) :
    Frame (· ≠ ref) h (h.update ref f) where
  objects i hi := by
    unfold update
    rw [List.getElem?_modify_ne _ _ (Ne.symm hi)]
  length := by
    unfold update
    rw [List.length_modify]
  context := rfl
  objectProto := rfl
  arrayProto := rfl
  errorProto := rfl
  dateProto := rfl

theorem getElem?_update (h : Heap) (ref : ℕ) (f : JSObject → JSObject) :
    (h.update ref f).objects[ref]? = (h.objects[ref]?).map f :=
  List.getElem?_modify_eq f ref h.objects

/-! ## Prototype chains -/

theorem chain_succ {ref : ℕ} {o : JSObject} (ho : h.objects[ref]? = some o) (n : ℕ) :
    h.chain (n + 1) ref =
      match o.proto with
      | none => [ref]
      | some p => ref :: h.chain n p := by
  cases hproto : o.proto with
  | none => simp only [chain, ho, hproto]
  | some p => simp only [chain, ho, hproto]

theorem lt_of_getElem? {ref : ℕ} {o : JSObject} (ho : h.objects[ref]? = some o) :
    ref < h.objects.length := by
  by_contra hc
  rw [List.getElem?_eq_none (Nat.le_of_not_lt hc)] at ho
  exact absurd ho (by simp only [reduceCtorEq, not_false_eq_true])

/-- A chain starts with its object. -/
theorem protoChain_cons {ref : ℕ} {o : JSObject} (ho : h.objects[ref]? = some o) :
    ∃ rest, h.protoChain ref = ref :: rest := by
  have hlt := lt_of_getElem? ho
  obtain ⟨n, hn⟩ : ∃ n, h.objects.length = n + 1 := ⟨h.objects.length - 1, by omega⟩
  unfold protoChain
  rw [hn, chain_succ ho]
  cases o.proto with
  | none => exact ⟨[], rfl⟩
  | some p => exact ⟨_, rfl⟩

/-- The chain of an object below the end of its chain. -/
theorem protoChain_pair {ref p : ℕ} {o q : JSObject} (ho : h.objects[ref]? = some o)
    (hproto : o.proto = some p) (hq : h.objects[p]? = some q) (hend : q.proto = none)
    (hne : ref ≠ p) : h.protoChain ref = [ref, p] := by
  have hlt := lt_of_getElem? ho
  have hlt' := lt_of_getElem? hq
  obtain ⟨n, hn⟩ : ∃ n, h.objects.length = n + 2 := ⟨h.objects.length - 2, by omega⟩
  unfold protoChain
  rw [hn, chain_succ ho, hproto]
  simp only [chain_succ hq, hend]

/-- The chain of an object two steps below the end. -/
theorem protoChain_triple {ref p r : ℕ} {o q s : JSObject} (ho : h.objects[ref]? = some o)
    (hproto : o.proto = some p) (hq : h.objects[p]? = some q) (hproto' : q.proto = some r)
    (hs : h.objects[r]? = some s) (hend : s.proto = none) (hne : ref ≠ p) (hne' : ref ≠ r)
    (hne'' : p ≠ r) : h.protoChain ref = [ref, p, r] := by
  have hlt := lt_of_getElem? ho
  have hlt' := lt_of_getElem? hq
  have hlt'' := lt_of_getElem? hs
  obtain ⟨n, hn⟩ : ∃ n, h.objects.length = n + 3 := ⟨h.objects.length - 3, by omega⟩
  unfold protoChain
  rw [hn, chain_succ ho, hproto]
  simp only [chain_succ hq, hproto', chain_succ hs, hend]

/-! ## Reading -/

theorem own_eq {ref : ℕ} {o : JSObject} (ho : h.objects[ref]? = some o) (atom : Atom) :
    h.own atom ref = o.own atom := by
  unfold own
  rw [ho]

/-- An own property is what a lookup finds. -/
theorem findProperty_of_own {ref : ℕ} {o : JSObject} {atom : Atom} {p : Property}
    (ho : h.objects[ref]? = some o) (hown : o.own atom = some p) :
    h.findProperty ref atom = some p := by
  rcases protoChain_cons ho with ⟨rest, hrest⟩
  unfold findProperty
  rw [hrest, List.findSome?_cons, own_eq ho, hown]

theorem getProperty_of_own {ref : ℕ} {o : JSObject} {atom : Atom} {v : JSValue} {e w : Bool}
    (ho : h.objects[ref]? = some o) (hown : o.own atom = some (.value v e w)) :
    h.getProperty ref atom = .ok v := by
  unfold getProperty
  rw [findProperty_of_own ho hown]

/-- Without elements the own properties are those in the list. -/
theorem own_of_pointer {o : JSObject} {info : Option ℕ} (hu : o.u = .pointer info) (atom : Atom) :
    o.own atom = o.properties.lookup atom := by
  unfold JSObject.own
  rw [hu]

/-! ## The built-in prototypes -/

/-- The built-in prototypes are as the engine made them, as far as conversions
    look: `Object.prototype` ends the chains, its only accessor is `__proto__`,
    its other properties can be overridden, and its constructor is a function
    named `Object`; `Array.prototype` is below it, and neither is
    `Date.prototype`. -/
structure Intact (h : Heap) : Prop where
  object : ∃ o, h.objects[h.objectProto]? = some o ∧ o.proto = none ∧
    o.own atomProto = some (.getSet .proto false) ∧
    (∀ atom p, atom ≠ atomProto → o.own atom = some p → ∃ v e, p = .value v e true) ∧
    ∃ ref e, o.own atomConstructor = some (.value (.object ref) e true) ∧
      ∃ f, h.objects[ref]? = some f ∧ f.classID ∈ callableClasses ∧
        ∃ e w, f.own atomName = some (.value (.string (JSString.ofSwift "Object")) e w)
  array : ∃ o, h.objects[h.arrayProto]? = some o ∧ o.proto = some h.objectProto
  object_ne_array : h.objectProto ≠ h.arrayProto
  date_ne_object : h.dateProto ≠ h.objectProto
  date_ne_array : h.dateProto ≠ h.arrayProto

/-- The built-in prototypes and the constructor `Object`, and nothing else. -/
def builtins : Heap :=
  { objects :=
      [{ classID := jsClassObject, proto := none,
         properties := [(atomProto, .getSet .proto false),
           (atomConstructor, .value (.object 2) false true)] },
       { classID := jsClassArray, proto := some 0, u := .array [],
         properties := [(atomLength, .value (jsNewInt32 0) false true)] },
       { classID := 12, proto := some 0,
         properties := [(atomName, .value (.string (JSString.ofSwift "Object")) false false)] },
       { classID := jsClassObject, proto := some 0 },
       { classID := jsClassObject, proto := some 0 }]
    context := 0
    objectProto := 0
    arrayProto := 1
    errorProto := 3
    dateProto := 4 }

theorem builtins_intact : builtins.Intact := by
  have hne : (atomConstructor == atomProto) = false := by decide +kernel
  refine ⟨⟨_, rfl, rfl, ?_, ?_, 2, false, ?_, _, rfl, by decide, false, false, ?_⟩, ⟨_, rfl, rfl⟩,
    by decide, by decide, by decide⟩
  · simp only [JSObject.own, List.lookup_cons, beq_self_eq_true]
  · intro atom p hatom hown
    simp only [JSObject.own, List.lookup_cons, beq_eq_false_iff_ne.mpr hatom, List.lookup_nil] at hown
    split at hown
    · exact ⟨_, _, (Option.some.inj hown).symm⟩
    · simp only [reduceCtorEq] at hown
  · simp only [JSObject.own, List.lookup_cons, hne, beq_self_eq_true]
  · simp only [JSObject.own, List.lookup_cons, beq_self_eq_true]

/-- Where nothing old changes, the built-in prototypes stay intact. -/
theorem Intact.frame {n : ℕ} (hintact : h.Intact) (hn : h.objects.length ≤ n)
    (hframe : Frame (· < n) h h') : h'.Intact := by
  have hkeep {ref : ℕ} {o : JSObject} (ho : h.objects[ref]? = some o) :
      h'.objects[ref]? = some o := by
    rw [hframe.objects ref (lt_of_lt_of_le (lt_of_getElem? ho) hn), ho]
  rcases hintact.object with ⟨o, ho, hend, hproto, hothers, ref, e, hconstructor, f, hf, hcall, hname⟩
  rcases hintact.array with ⟨a, ha, hparent⟩
  refine ⟨⟨o, ?_, hend, hproto, hothers, ref, e, hconstructor, f, hkeep hf, hcall, hname⟩,
    ⟨a, ?_, ?_⟩, ?_, ?_, ?_⟩
  · rw [hframe.objectProto]
    exact hkeep ho
  · rw [hframe.arrayProto]
    exact hkeep ha
  · rw [hframe.objectProto]
    exact hparent
  · rw [hframe.objectProto, hframe.arrayProto]
    exact hintact.object_ne_array
  · rw [hframe.objectProto, hframe.dateProto]
    exact hintact.date_ne_object
  · rw [hframe.arrayProto, hframe.dateProto]
    exact hintact.date_ne_array

/-! ## Writing -/

/-- Adding a name that is not there puts it last. -/
theorem put_of_lookup_none {o : JSObject} {atom : Atom} (hnone : o.properties.lookup atom = none)
    (p : Property) : o.put atom p = { o with properties := o.properties ++ [(atom, p)] } := by
  unfold JSObject.put
  rw [hnone]
  rfl

/-- The names after a write are the names before and the one written. -/
theorem mem_put {o : JSObject} {atom : Atom} {p : Property} {q : Atom × Property}
    (hq : q ∈ (o.put atom p).properties) : q.1 = atom ∨ ∃ q' ∈ o.properties, q'.1 = q.1 := by
  unfold JSObject.put at hq
  simp only at hq
  split_ifs at hq with hsome
  · rcases List.mem_map.mp hq with ⟨q', hq', heq⟩
    by_cases hatom : q'.1 = atom
    · rw [if_pos hatom] at heq
      exact Or.inl (heq ▸ rfl)
    · rw [if_neg hatom] at heq
      exact Or.inr ⟨q', hq', heq ▸ rfl⟩
  · rcases List.mem_append.mp hq with hq | hq
    · exact Or.inr ⟨q, hq, rfl⟩
    · rw [List.mem_singleton] at hq
      exact Or.inl (hq ▸ rfl)

/-- What an assignment may do to its object: its class, its union and its
    extensibility stay, and at most one name is new. -/
structure Assigned (atom : Atom) (o o' : JSObject) : Prop where
  classID : o'.classID = o.classID
  u : o'.u = o.u
  extensible : o'.extensible = o.extensible
  names : ∀ q ∈ o'.properties, q.1 = atom ∨ ∃ q' ∈ o.properties, q'.1 = q.1

theorem Assigned.refl (atom : Atom) (o : JSObject) : Assigned atom o o :=
  ⟨rfl, rfl, rfl, fun q hq => Or.inr ⟨q, hq, rfl⟩⟩

theorem assigned_put (atom : Atom) (o : JSObject) (p : Property) :
    Assigned atom o (o.put atom p) :=
  ⟨rfl, rfl, rfl, fun _ hq => mem_put hq⟩

/-- An update that is an assignment to one object. -/
theorem update_spec {ref : ℕ} {o : JSObject} {atom : Atom} {f : JSObject → JSObject}
    (ho : h.objects[ref]? = some o) (hf : Assigned atom o (f o)) :
    Frame (· ≠ ref) h (h.update ref f) ∧
      ∃ o', (h.update ref f).objects[ref]? = some o' ∧ Assigned atom o o' := by
  refine ⟨frame_update h ref f, f o, ?_, hf⟩
  rw [getElem?_update, ho, Option.map_some]

theorem setProto_spec {ref : ℕ} {o : JSObject} (ho : h.objects[ref]? = some o) (v : JSValue)
    (atom : Atom) :
    Frame (· ≠ ref) h (h.setProto ref v) ∧
      ∃ o', (h.setProto ref v).objects[ref]? = some o' ∧ Assigned atom o o' ∧
        o'.properties = o.properties := by
  have hsame : Frame (· ≠ ref) h h ∧ ∃ o', h.objects[ref]? = some o' ∧ Assigned atom o o' ∧
      o'.properties = o.properties := ⟨Frame.refl _ _, o, ho, Assigned.refl _ _, rfl⟩
  have hnew (p : Option ℕ) :
      Frame (· ≠ ref) h (h.update ref fun o => { o with proto := p }) ∧
        ∃ o', (h.update ref fun o => { o with proto := p }).objects[ref]? = some o' ∧
          Assigned atom o o' ∧ o'.properties = o.properties := by
    refine ⟨frame_update _ _ _, { o with proto := p }, ?_, ?_, rfl⟩
    · rw [getElem?_update, ho, Option.map_some]
    · exact ⟨rfl, rfl, rfl, fun q hq => Or.inr ⟨q, hq, rfl⟩⟩
  unfold setProto
  cases v with
  | object p =>
      simp only [ho]
      split_ifs
      · exact hnew (some p)
      · exact hsame
  | nullTag _ =>
      simp only [ho]
      split_ifs
      · exact hnew none
      · exact hsame
  | _ => exact hsame

/-- What an assignment does to its object, in general. -/
theorem setProperty_spec {ref : ℕ} {o : JSObject} {atom : Atom} {v : JSValue}
    (ho : h.objects[ref]? = some o) (hset : h.setProperty ref atom v = .ok h') :
    Frame (· ≠ ref) h h' ∧ ∃ o', h'.objects[ref]? = some o' ∧ Assigned atom o o' := by
  have hsame : Frame (· ≠ ref) h h ∧ ∃ o', h.objects[ref]? = some o' ∧ Assigned atom o o' :=
    ⟨Frame.refl _ _, o, ho, Assigned.refl _ _⟩
  have hsetter {accessor : Accessor} (hcall : h.callSetter ref v accessor = .ok h') :
      Frame (· ≠ ref) h h' ∧ ∃ o', h'.objects[ref]? = some o' ∧ Assigned atom o o' := by
    cases accessor with
    | proto =>
        simp only [callSetter, Except.ok.injEq] at hcall
        rcases setProto_spec ho v atom with ⟨hframe, o', ho', hassigned, _⟩
        rw [hcall] at hframe ho'
        exact ⟨hframe, o', ho', hassigned⟩
    | script => exact absurd hcall (by simp only [callSetter, reduceCtorEq, not_false_eq_true])
  unfold setProperty at hset
  rw [own_eq ho] at hset
  cases hown : o.own atom with
  | some p =>
      rw [hown] at hset
      cases p with
      | getSet accessor e => exact hsetter hset
      | value v' e w =>
          cases w with
          | true =>
              simp only [Except.ok.injEq] at hset
              rw [← hset]
              exact update_spec ho (assigned_put atom o _)
          | false =>
              simp only [Except.ok.injEq] at hset
              rw [← hset]
              exact hsame
  | none =>
      rw [hown] at hset
      simp only [ho] at hset
      split at hset
      · exact hsetter hset
      · simp only [Except.ok.injEq] at hset
        rw [← hset]
        exact hsame
      · split_ifs at hset
        · simp only [Except.ok.injEq] at hset
          rw [← hset]
          exact update_spec ho (assigned_put atom o _)
        · simp only [Except.ok.injEq] at hset
          rw [← hset]
          exact hsame

/-- From an object upwards nothing stands in the way of an assignment: neither an accessor
    nor a read-only property. -/
inductive Open (h : Heap) (atom : Atom) : Option ℕ → Prop
  | done : Open h atom none
  | next {ref : ℕ} {o : JSObject} (ho : h.objects[ref]? = some o)
      (hguard : h.inheritedGuard atom ref = none) (hrest : Open h atom o.proto) :
      Open h atom (some ref)

theorem Open.chain {atom : Atom} {p : Option ℕ} (hopen : h.Open atom p) {ref : ℕ}
    (hp : p = some ref) (n : ℕ) : (h.chain n ref).findSome? (h.inheritedGuard atom) = none := by
  induction hopen generalizing ref n with
  | done => exact absurd hp nofun
  | @next ref' o ho hguard hrest ih =>
      rw [← Option.some.inj hp]
      cases n with
      | zero => rfl
      | succ n =>
          rw [chain_succ ho]
          cases hproto : o.proto with
          | none => simp only [List.findSome?_cons, hguard, List.findSome?_nil]
          | some q => simp only [List.findSome?_cons, hguard, ih hproto n]

/-- An open way stays open where nothing old changes. -/
theorem Open.frame {atom : Atom} {p : Option ℕ} (hopen : h.Open atom p) {n : ℕ}
    (hn : h.objects.length ≤ n) (hframe : Frame (· < n) h h') : h'.Open atom p := by
  induction hopen with
  | done => exact Open.done
  | next ho hguard _ ih =>
      have ho' := (hframe.objects _ (lt_of_lt_of_le (lt_of_getElem? ho) hn)).trans ho
      refine Open.next ho' ?_ ih
      unfold inheritedGuard at hguard ⊢
      rw [own_eq ho] at hguard
      rw [own_eq ho']
      exact hguard

/-- Elements have no other names than indices. -/
theorem hasElement_name (s : JSString) (ref : ℕ) : h.hasElement (.name s) ref = false := by
  unfold hasElement
  split
  · rename_i hindex
    exact absurd hindex nofun
  · rfl

/-- Where nothing above stands in the way, nothing does before the first element. -/
theorem guards_eq_none {atom : Atom} {above : List ℕ}
    (hnone : above.findSome? (h.inheritedGuard atom) = none) :
    (h.guards atom above).findSome? (h.inheritedGuard atom) = none := by
  rw [List.findSome?_eq_none_iff] at hnone ⊢
  exact fun r hr => hnone r (List.takeWhile_subset _ hr)

/-- An assignment with an open way adds a property. -/
theorem setProperty_open {ref : ℕ} {o : JSObject} {atom : Atom} (ho : h.objects[ref]? = some o)
    (hu : o.u = .pointer none) (hextensible : o.extensible = true) (hopen : h.Open atom o.proto)
    (hnone : o.properties.lookup atom = none) (v : JSValue) :
    h.setProperty ref atom v =
      .ok (h.update ref fun o => o.put atom (.value v true true)) := by
  have hguard : (h.guards atom (h.protoChain ref).tail).findSome? (h.inheritedGuard atom)
      = none := by
    refine guards_eq_none ?_
    have hlt := lt_of_getElem? ho
    obtain ⟨n, hn⟩ : ∃ n, h.objects.length = n + 1 := ⟨h.objects.length - 1, by omega⟩
    unfold protoChain
    rw [hn, chain_succ ho]
    cases hproto : o.proto with
    | none => rfl
    | some p =>
        rw [hproto] at hopen
        exact hopen.chain rfl n
  unfold setProperty
  rw [own_eq ho, own_of_pointer hu, hnone]
  simp only [hguard, ho]
  rw [if_pos hextensible]

/-- A plain object is one step above the end of its chain. -/
structure PlainObject (h : Heap) (ref : ℕ) (o : JSObject) : Prop where
  object : h.objects[ref]? = some o
  ne : ref ≠ h.objectProto
  proto : o.proto = some h.objectProto
  u : o.u = .pointer none
  extensible : o.extensible = true

theorem PlainObject.protoChain {ref : ℕ} {o : JSObject} (hintact : h.Intact)
    (ho : h.PlainObject ref o) : h.protoChain ref = [ref, h.objectProto] := by
  rcases hintact.object with ⟨q, hq, hend, _⟩
  exact protoChain_pair ho.object ho.proto hq hend ho.ne

/-- Above a plain object only `__proto__` stands in the way. -/
theorem Intact.open_objectProto (hintact : h.Intact) {atom : Atom} (hne : atom ≠ atomProto) :
    h.Open atom (some h.objectProto) := by
  rcases hintact.object with ⟨q, hq, hend, _, hothers, _⟩
  refine Open.next hq ?_ (hend ▸ Open.done)
  unfold inheritedGuard
  rw [own_eq hq]
  cases hown : q.own atom with
  | none => rfl
  | some p =>
      rcases hothers atom p hne hown with ⟨v', e, rfl⟩
      rfl

/-- An assignment to a plain object adds a property, unless the name is
    `__proto__`. -/
theorem setProperty_fresh {ref : ℕ} {o : JSObject} {atom : Atom} (hintact : h.Intact)
    (ho : h.PlainObject ref o) (hnone : o.properties.lookup atom = none) (hne : atom ≠ atomProto)
    (v : JSValue) :
    h.setProperty ref atom v =
      .ok (h.update ref fun o => o.put atom (.value v true true)) :=
  setProperty_open ho.object ho.u ho.extensible (ho.proto ▸ hintact.open_objectProto hne) hnone v

/-- An assignment to `__proto__` calls the setter, which adds no property. -/
theorem setProperty_proto {ref : ℕ} {o : JSObject} (hintact : h.Intact)
    (ho : h.PlainObject ref o) (hnone : o.properties.lookup atomProto = none) (v : JSValue) :
    h.setProperty ref atomProto v = .ok (h.setProto ref v) := by
  have hname : atomProto = .name (JSString.ofSwift "__proto__") := by decide +kernel
  have hguard : (h.guards atomProto (h.protoChain ref).tail).findSome? (h.inheritedGuard atomProto)
      = some (some .proto) := by
    rcases hintact.object with ⟨q, hq, _, hproto, _⟩
    rw [ho.protoChain hintact, List.tail_cons]
    unfold guards
    rw [List.takeWhile_cons, hname, hasElement_name, ← hname, Bool.not_false, if_pos rfl, List.takeWhile_nil,
      List.findSome?_cons]
    unfold inheritedGuard
    rw [own_eq hq, hproto]
  unfold setProperty
  rw [own_eq ho.object, own_of_pointer ho.u, hnone]
  simp only [hguard, callSetter]

end Heap

end Substrata
