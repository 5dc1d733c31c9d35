import Substrata.Core.Paths
import Mathlib.Tactic.IntervalCases
import Substrata.Theory.Dispatch
import Substrata.Theory.Sealed
import Substrata.Theory.Wrapper

/-!
# Writing along a key path and reading it back

A path is written by assigning to what all but its last name come to, and read by evaluating
the whole of it. So both go the same way as far as the last name. A name on its own does not
have a way: it is assigned to the global object, and read with the lexical bindings in front.
That is where the two part. Further on they part only if the object that is written was also
asked for the last name earlier along the path, as in `a.a.a` with an object that is its own `a`.

The proof keeps the lookups of a path in a list. A path comes to the same in two states if
each of its lookups does, and an assignment changes the lookups of one name that pass one object.

## Main definitions

* `Heap.assigned`: A heap after an assignment.
* `Realm.reads`: The lookups along a path.
* `Realm.Sealed`: Everything in the global state refers to what there is.
* `Realm.target`, `Realm.approach`: What a path assigns to, and the lookups on the way.
* `Realm.Accessorless`, `Realm.Slotless`: What is left out.
* `Realm.SetsAndGets`: The law.
* `Realm.Straight`: When it holds.

## Theorems

* `components_joined`: Names without dots are the components of their path.
* `readScript_joined`: A path of identifiers is read as one.
* `Realm.SameGlobals.evalPath`: A path comes to the same if its lookups do.
* `Realm.Sealed.evalPath_frame`: A path comes to the same whatever is made later.
* `Realm.setValue_eq`: What the setter comes to.
* `Realm.setsAndGets_of_path`: The law holds along straight paths, and for a lexical binding
  exactly if it is worth what was assigned.
* `Realm.exists_not_setsAndGets`: `let x = true` in front of the global object.
-/

namespace Substrata

/-! ## Names -/

theorem notMem_of_identifier {s : String} (hname : isIdentifierName s = true) {c : Char}
    (hc : isIdentNext c = false) : c ∉ s.toList := by
  intro hmem
  unfold isIdentifierName at hname
  split at hname
  · cases hname
  · rename_i c' cs heq
    rw [Bool.and_eq_true, List.all_eq_true] at hname
    rw [heq] at hmem
    rcases List.mem_cons.mp hmem with rfl | hmem
    · unfold isIdentNext at hc
      simp only [hname.1, Bool.true_or, Bool.true_eq_false] at hc
    · simp only [hname.2 c hmem, Bool.true_eq_false] at hc

/-- What is neither in the separator nor in a part is not in the whole. -/
theorem notMem_intercalate {α : Type} {c : α} {sep : List α} {parts : List (List α)}
    (hsep : c ∉ sep) (hparts : ∀ l ∈ parts, c ∉ l) : c ∉ sep.intercalate parts := by
  induction parts with
  | nil => simp
  | cons l parts ih =>
      have hl := hparts l List.mem_cons_self
      have hrest := ih fun l' hl' => hparts l' (List.mem_cons_of_mem _ hl')
      by_cases hnil : parts = []
      · simpa [hnil] using hl
      · rw [List.intercalate_cons_of_ne_nil hnil]
        simp [hl, hsep, hrest]

/-- Names without dots are the components of their path. -/
theorem components_joined {names : List String} (hne : names ≠ [])
    (hdots : ∀ n ∈ names, '.' ∉ n.toList) : components (joined names) = names := by
  have hparts : ∀ l ∈ names.map String.toList, '.' ∉ l := by
    intro l hl
    rcases List.mem_map.mp hl with ⟨n, hn, rfl⟩
    exact hdots n hn
  have hdot : ".".toList = ['.'] := rfl
  unfold components joined
  rw [String.toList_intercalate, hdot, List.splitOn_intercalate _ hparts (by simpa using hne),
    List.map_map]
  simp [Function.comp_def]

/-- The names of a path. -/
def Path.names (path : Path) : List String := path.first :: path.rest

theorem Path.ofNames_eq_some_iff {names : List String} {path : Path} :
    Path.ofNames names = some path ↔
      names = path.names ∧ isReference path.first = true ∧
        ∀ n ∈ path.rest, isIdentifierName n = true := by
  cases path with
  | mk first rest =>
      cases names with
      | nil => exact ⟨fun hnone => absurd hnone (by simp [Path.ofNames]),
          fun hnames => absurd hnames.1 (by simp [Path.names])⟩
      | cons n names =>
          unfold Path.ofNames Path.names
          simp only [Option.ite_none_right_eq_some, Bool.and_eq_true, List.all_eq_true,
            Option.some.injEq, Path.mk.injEq, List.cons.injEq]
          constructor
          · rintro ⟨⟨hfirst, hrest⟩, rfl, rfl⟩
            exact ⟨⟨rfl, rfl⟩, hfirst, hrest⟩
          · rintro ⟨⟨rfl, rfl⟩, hfirst, hrest⟩
            exact ⟨⟨hfirst, hrest⟩, rfl, rfl⟩

theorem identifier_of_ofNames {names : List String} {path : Path}
    (hpath : Path.ofNames names = some path) : ∀ n ∈ names, isIdentifierName n = true := by
  rcases Path.ofNames_eq_some_iff.mp hpath with ⟨rfl, hfirst, hrest⟩
  intro n hn
  rcases List.mem_cons.mp hn with rfl | hn
  · unfold isReference at hfirst
    exact (Bool.and_eq_true_iff.mp hfirst).1
  · exact hrest n hn

theorem components_of_ofNames {names : List String} {path : Path}
    (hpath : Path.ofNames names = some path) : components (joined names) = names := by
  have hne : names ≠ [] := by
    rintro rfl
    cases hpath
  exact components_joined hne fun n hn =>
    notMem_of_identifier (identifier_of_ofNames hpath n hn) (by decide)

/-- An identifier does not begin with a space. -/
theorem dropWhile_identifier {n : String} (hname : isIdentifierName n = true) (l : List Char) :
    (n.toList ++ l).dropWhile (fun c => c == ' ') = n.toList ++ l := by
  have hspace : ' ' ∉ n.toList := notMem_of_identifier hname (by decide)
  cases hn : n.toList with
  | nil =>
      unfold isIdentifierName at hname
      rw [hn] at hname
      cases hname
  | cons c cs =>
      rw [hn] at hspace
      have hc : (c == ' ') = false := by
        rw [beq_eq_false_iff_ne]
        rintro rfl
        exact hspace List.mem_cons_self
      rw [List.cons_append, List.dropWhile_cons, hc]
      rfl

/-- A path is read as a script of one path. -/
theorem readScript_joined {names : List String} {path : Path}
    (hpath : Path.ofNames names = some path) : readScript (joined names) = some [path] := by
  have hidentifier := identifier_of_ofNames hpath
  have htoList : (joined names).toList = ['.'].intercalate (names.map String.toList) := by
    unfold joined
    rw [String.toList_intercalate]
    rfl
  have hcomma : ',' ∉ (joined names).toList := by
    rw [htoList]
    refine notMem_intercalate (by decide) fun l hl => ?_
    rcases List.mem_map.mp hl with ⟨n, hn, rfl⟩
    exact notMem_of_identifier (hidentifier n hn) (by decide)
  have hdrop : (joined names).toList.dropWhile (fun c => c == ' ') = (joined names).toList := by
    rcases Path.ofNames_eq_some_iff.mp hpath with ⟨rfl, -, -⟩
    have hfirst := hidentifier path.first List.mem_cons_self
    rw [htoList]
    unfold Path.names
    by_cases hnil : path.rest.map String.toList = []
    · rw [List.map_cons, hnil]
      simpa using dropWhile_identifier hfirst []
    · rw [List.map_cons, List.intercalate_cons_of_ne_nil hnil, List.append_assoc]
      exact dropWhile_identifier hfirst _
  unfold readScript
  rw [List.splitOn_eq_singleton hcomma, List.mapM_cons, List.mapM_nil, hdrop, String.ofList_toList,
    components_of_ofNames hpath, hpath]
  rfl

/-! ## Assignments -/

namespace Heap

/-- The heap with a property that was assigned to. -/
def assigned (h : Heap) (ref : ℕ) (prop : Atom) (val : JSValue) (enumerable : Bool) : Heap :=
  h.update ref fun o => o.put prop (.value val enumerable true)

variable {h h' : Heap} {ref : ℕ} {prop : Atom} {val : JSValue}

/-- What an assignment leaves, with its result: the heap that there was, or the property. -/
theorem jsSetProperty_cases {b : Bool} (hset : h.jsSetProperty ref prop val = .ok (b, h')) :
    (b = false ∧ h' = h) ∨
      (b = true ∧ ∃ o e, h.objects[ref]? = some o ∧ h' = h.assigned ref prop val e) := by
  unfold jsSetProperty at hset
  split at hset
  · rename_i enumerable hown
    rw [Except.ok.injEq, Prod.mk.injEq] at hset
    have ho := List.getElem?_eq_getElem (lt_of_own hown)
    exact Or.inr ⟨hset.1.symm, _, enumerable, ho, hset.2.symm⟩
  · rw [Except.ok.injEq, Prod.mk.injEq] at hset
    exact Or.inl ⟨hset.1.symm, hset.2.symm⟩
  · cases hset
  · split at hset
    · cases hset
    · rw [Except.ok.injEq, Prod.mk.injEq] at hset
      exact Or.inl ⟨hset.1.symm, hset.2.symm⟩
    · split at hset
      · rename_i o ho
        split_ifs at hset with hextensible
        · rw [Except.ok.injEq, Prod.mk.injEq] at hset
          exact Or.inr ⟨hset.1.symm, o, true, ho, hset.2.symm⟩
        · rw [Except.ok.injEq, Prod.mk.injEq] at hset
          exact Or.inl ⟨hset.1.symm, hset.2.symm⟩
      · rw [Except.ok.injEq, Prod.mk.injEq] at hset
        exact Or.inl ⟨hset.1.symm, hset.2.symm⟩

/-- It is the assignment that has no result. -/
theorem setProperty_of_jsSetProperty {b : Bool}
    (hset : h.jsSetProperty ref prop val = .ok (b, h')) : h.setProperty ref prop val = .ok h' := by
  unfold jsSetProperty at hset
  unfold setProperty
  cases hown : h.own prop ref with
  | some p =>
      cases p with
      | value v e w =>
          cases w with
          | true =>
              simp only [hown, Except.ok.injEq, Prod.mk.injEq] at hset
              exact congrArg Except.ok hset.2
          | false =>
              simp only [hown, Except.ok.injEq, Prod.mk.injEq] at hset
              exact congrArg Except.ok hset.2
      | getSet accessor e => simp only [hown, reduceCtorEq] at hset
  | none =>
      simp only [hown] at hset ⊢
      cases hguard : (h.guards prop (h.protoChain ref).tail).findSome? (h.inheritedGuard prop) with
      | some guard =>
          cases guard with
          | some accessor => simp only [hguard, reduceCtorEq] at hset
          | none =>
              simp only [hguard, Except.ok.injEq, Prod.mk.injEq] at hset
              exact congrArg Except.ok hset.2
      | none =>
          simp only [hguard] at hset ⊢
          cases ho : h.objects[ref]? with
          | none =>
              simp only [ho, Except.ok.injEq, Prod.mk.injEq] at hset
              exact congrArg Except.ok hset.2
          | some o =>
              simp only [ho] at hset ⊢
              split_ifs at hset ⊢ with hextensible
              · rw [Except.ok.injEq, Prod.mk.injEq] at hset
                exact congrArg Except.ok hset.2
              · rw [Except.ok.injEq, Prod.mk.injEq] at hset
                exact congrArg Except.ok hset.2

/-- An assignment meets no script where no accessor has the name. -/
theorem exists_jsSetProperty (href : ref < h.objects.length)
    (hvalued : h.Valued (h.protoChain ref) prop) (val : JSValue) :
    ∃ r, h.jsSetProperty ref prop val = .ok r := by
  rcases protoChain_cons (List.getElem?_eq_getElem href) with ⟨rest, hchain⟩
  have hown : ∀ accessor e, h.own prop ref ≠ some (.getSet accessor e) :=
    hvalued ref (hchain ▸ List.mem_cons_self)
  unfold jsSetProperty
  split
  · exact ⟨_, rfl⟩
  · exact ⟨_, rfl⟩
  · rename_i accessor e hgetSet
    exact absurd hgetSet (hown accessor e)
  · split
    · rename_i accessor hguard
      rcases List.exists_of_findSome?_eq_some hguard with ⟨r, hr, hinherited⟩
      have hmem : r ∈ h.protoChain ref :=
        List.mem_of_mem_tail ((List.takeWhile_sublist _).subset hr)
      unfold inheritedGuard at hinherited
      split at hinherited
      · rename_i accessor' e hgetSet
        exact absurd hgetSet (hvalued r hmem accessor' e)
      · cases hinherited
      · cases hinherited
    · exact ⟨_, rfl⟩
    · split
      · split_ifs
        · exact ⟨_, rfl⟩
        · exact ⟨_, rfl⟩
      · exact ⟨_, rfl⟩

/-! ### Lookups afterwards -/

variable {o : JSObject} {e : Bool}

/-- A property that is no element and not the length of an array. -/
theorem put_own_slot (ho : h.objects[ref]? = some o) (hslot : h.isArraySlot ref prop = false)
    (atom : Atom) (p : Property) :
    (o.put prop p).own atom = if atom = prop then some p else o.own atom := by
  have hunion : (o.put prop p).u = o.u := rfl
  unfold isArraySlot at hslot
  rw [ho] at hslot
  unfold JSObject.own
  rw [hunion]
  cases hu : o.u with
  | array values =>
      rcases o with ⟨classID, proto, extensible, properties, u⟩
      cases hu
      cases prop with
      | index n => simp only [Bool.true_eq_false] at hslot
      | name s =>
          cases atom with
          | index n =>
              rw [if_neg nofun]
              dsimp only
              cases values[n]? with
              | some v => rfl
              | none =>
                  dsimp only
                  rw [lookup_put, if_neg nofun]
          | name t => exact lookup_put _ _ _ _
  | _ => exact lookup_put _ _ _ _

theorem getElem?_assigned (h : Heap) (ref r : ℕ) (prop : Atom) (val : JSValue) (e : Bool) :
    (h.assigned ref prop val e).objects[r]? =
      if r = ref then (h.objects[r]?).map fun o => o.put prop (.value val e true)
      else h.objects[r]? := by
  unfold assigned
  by_cases hr : r = ref
  · rw [if_pos hr, hr, getElem?_update]
  · rw [if_neg hr, (frame_update h ref _).objects r hr]

/-- What the objects have under a name after the property was written. -/
theorem own_assigned (ho : h.objects[ref]? = some o) (hslot : h.isArraySlot ref prop = false)
    (atom : Atom) (r : ℕ) :
    (h.assigned ref prop val e).own atom r =
      if r = ref ∧ atom = prop then some (.value val e true) else h.own atom r := by
  unfold own
  rw [getElem?_assigned]
  by_cases hr : r = ref
  · rw [if_pos hr, hr, ho, Option.map_some]
    dsimp only
    rw [put_own_slot ho hslot]
    simp only [true_and]
  · rw [if_neg hr, if_neg fun hand => hr hand.1]

/-- Assignments do not change prototypes. -/
theorem getProto_assigned (h : Heap) (ref r : ℕ) (prop : Atom) (val : JSValue) (e : Bool) :
    (h.assigned ref prop val e).getProto r = h.getProto r := by
  unfold getProto
  rw [getElem?_assigned]
  by_cases hr : r = ref
  · rw [if_pos hr]
    cases h.objects[r]? with
    | none => rfl
    | some o =>
        rcases o with ⟨_, proto, _, _, _⟩
        cases proto with
        | none => rfl
        | some p => rfl
  · rw [if_neg hr]

theorem protoChain_assigned (h : Heap) (ref r : ℕ) (prop : Atom) (val : JSValue) (e : Bool) :
    (h.assigned ref prop val e).protoChain r = h.protoChain r := by
  have hlength : (h.assigned ref prop val e).objects.length = h.objects.length := by
    unfold assigned update
    rw [List.length_modify]
  have hchain (n r : ℕ) : (h.assigned ref prop val e).chain n r = h.chain n r := by
    induction n generalizing r with
    | zero => rfl
    | succ n ih =>
        unfold chain
        rw [getElem?_assigned]
        by_cases hr : r = ref
        · rw [if_pos hr]
          cases h.objects[r]? with
          | none => rfl
          | some o =>
              rw [Option.map_some]
              simp only [JSObject.put, ih]
        · rw [if_neg hr]
          simp only [ih]
  unfold protoChain
  rw [hlength, hchain]

/-- A lookup of another name, or past another object, finds what it found. -/
theorem findProperty_assigned (ho : h.objects[ref]? = some o)
    (hslot : h.isArraySlot ref prop = false) {r : ℕ} {atom : Atom}
    (huntouched : atom = prop → ref ∉ h.protoChain r) :
    (h.assigned ref prop val e).findProperty r atom = h.findProperty r atom := by
  unfold findProperty
  rw [protoChain_assigned]
  refine findSome?_congr_of_mem fun r' hr' => ?_
  rw [own_assigned ho hslot, if_neg]
  rintro ⟨rfl, rfl⟩
  exact huntouched rfl hr'

/-- The property itself. -/
theorem findProperty_assigned_self (ho : h.objects[ref]? = some o)
    (hslot : h.isArraySlot ref prop = false) :
    (h.assigned ref prop val e).findProperty ref prop = some (.value val e true) := by
  have ho' : (h.assigned ref prop val e).objects[ref]?
      = some (o.put prop (.value val e true)) := by
    rw [getElem?_assigned, if_pos rfl, ho, Option.map_some]
  refine findProperty_of_own ho' ?_
  rw [put_own_slot ho hslot, if_pos rfl]

theorem getProperty_assigned_self (ho : h.objects[ref]? = some o)
    (hslot : h.isArraySlot ref prop = false) :
    (h.assigned ref prop val e).getProperty ref prop = .ok val := by
  unfold getProperty
  rw [findProperty_assigned_self ho hslot]

end Heap

/-! ## Evaluation -/

namespace Realm

variable {s s' : Realm}

/-- Where a property of a value is looked up. -/
def holder (s : Realm) : JSValue → Option ℕ
  | .object ref => some ref
  | v => s.protos.jsGetPrototypePrimitive v

theorem holder_of_ne {v : JSValue} (hv : ∀ ref, v ≠ .object ref) :
    s.holder v = s.protos.jsGetPrototypePrimitive v := by
  cases v with
  | object ref => exact absurd rfl (hv ref)
  | _ => rfl

/-- The lookups along a path, from a value on. -/
def readsFrom (s : Realm) : JSValue → List String → List (ℕ × Atom)
  | _, [] => []
  | v, name :: rest =>
    (s.holder v).toList.map (fun r => (r, jsNewAtom name)) ++
      match s.jsGetProperty v (jsNewAtom name) with
      | .ok w => s.readsFrom w rest
      | .error _ => []

/-- The lookups along a path. A lexical binding is none. -/
def reads (s : Realm) (path : Path) : List (ℕ × Atom) :=
  (if (s.globalVars.lookup (jsNewAtom path.first)).isNone then
    [(s.globalObj, jsNewAtom path.first)] else []) ++
    match s.jsGetGlobalVar (jsNewAtom path.first) with
    | .ok v => s.readsFrom v path.rest
    | .error _ => []

/-- A lookup finds the same in two states. -/
structure SameLookup (s s' : Realm) (read : ℕ × Atom) : Prop where
  find : s'.heap.findProperty read.1 read.2 = s.heap.findProperty read.1 read.2
  proto : s'.heap.getProto read.1 = s.heap.getProto read.1

theorem SameLookup.getProperty {read : ℕ × Atom} (hsame : SameLookup s s' read) :
    s'.heap.getProperty read.1 read.2 = s.heap.getProperty read.1 read.2 := by
  unfold Heap.getProperty
  rw [hsame.find, hsame.proto]

/-- The states differ in their heaps only. -/
structure SameGlobals (s s' : Realm) : Prop where
  globalObj : s'.globalObj = s.globalObj
  globalVars : s'.globalVars = s.globalVars
  protos : s'.protos = s.protos

section Congruence

variable (hglobals : SameGlobals s s')
include hglobals

theorem SameGlobals.holder (v : JSValue) : s'.holder v = s.holder v := by
  unfold Realm.holder
  rw [hglobals.protos]

theorem SameGlobals.jsGetProperty {v : JSValue} {prop : Atom}
    (hsame : ∀ r, s.holder v = some r → SameLookup s s' (r, prop)) :
    s'.jsGetProperty v prop = s.jsGetProperty v prop := by
  have hinherited (hv : s.holder v = s.protos.jsGetPrototypePrimitive v) :
      s'.getInherited v prop = s.getInherited v prop := by
    unfold getInherited
    rw [hglobals.protos]
    cases hp : s.protos.jsGetPrototypePrimitive v with
    | none => rfl
    | some p => simp only [(hsame p (hv.trans hp)).find]
  cases v with
  | object ref => exact (hsame ref rfl).getProperty
  | string str =>
      unfold Realm.jsGetProperty
      dsimp only
      rw [hinherited rfl]
  | nullTag word => rfl
  | undefinedTag word => rfl
  | exception => rfl
  | _ => exact hinherited rfl

theorem SameGlobals.jsGetGlobalVar {prop : Atom}
    (hsame : s.globalVars.lookup prop = none → SameLookup s s' (s.globalObj, prop)) :
    s'.jsGetGlobalVar prop = s.jsGetGlobalVar prop := by
  unfold Realm.jsGetGlobalVar
  rw [hglobals.globalVars, hglobals.globalObj]
  cases hlookup : s.globalVars.lookup prop with
  | some slot =>
      cases slot with
      | some v => rfl
      | none => rfl
  | none =>
      have hfind := (hsame hlookup).find
      dsimp only at hfind ⊢
      unfold Heap.hasProperty
      rw [hfind, (hsame hlookup).getProperty]

/-- From a value on, a path comes to the same if its lookups do. -/
theorem SameGlobals.readsFrom {names : List String} {v : JSValue}
    (hsame : ∀ read ∈ s.readsFrom v names, SameLookup s s' read) :
    names.foldlM (fun v name => s'.jsGetProperty v (jsNewAtom name)) v
        = names.foldlM (fun v name => s.jsGetProperty v (jsNewAtom name)) v ∧
      s'.readsFrom v names = s.readsFrom v names := by
  induction names generalizing v with
  | nil => exact ⟨rfl, rfl⟩
  | cons name names ih =>
      have hget : s'.jsGetProperty v (jsNewAtom name) = s.jsGetProperty v (jsNewAtom name) := by
        refine hglobals.jsGetProperty fun r hr => hsame _ (List.mem_append_left _ ?_)
        rw [hr]
        exact List.mem_singleton.mpr rfl
      rw [List.foldlM_cons, List.foldlM_cons, hget]
      unfold Realm.readsFrom at hsame ⊢
      rw [hget, hglobals.holder]
      cases hw : s.jsGetProperty v (jsNewAtom name) with
      | error stop => exact ⟨rfl, rfl⟩
      | ok w =>
          rw [hw] at hsame
          rcases ih fun read hread => hsame read (List.mem_append_right _ hread)
            with ⟨hfold, hreads⟩
          exact ⟨hfold, congrArg _ hreads⟩

/-- A path comes to the same if its lookups do. -/
theorem SameGlobals.evalPath {path : Path}
    (hsame : ∀ read ∈ s.reads path, SameLookup s s' read) :
    s'.evalPath path = s.evalPath path ∧ s'.reads path = s.reads path := by
  have hget : s'.jsGetGlobalVar (jsNewAtom path.first)
      = s.jsGetGlobalVar (jsNewAtom path.first) := by
    refine hglobals.jsGetGlobalVar fun hnone => hsame _ (List.mem_append_left _ ?_)
    rw [hnone]
    exact List.mem_singleton.mpr rfl
  unfold Realm.evalPath Realm.reads
  unfold Realm.reads at hsame
  rw [hget, hglobals.globalVars, hglobals.globalObj]
  cases hv : s.jsGetGlobalVar (jsNewAtom path.first) with
  | error stop => exact ⟨rfl, rfl⟩
  | ok v =>
      rw [hv] at hsame
      rcases hglobals.readsFrom fun read hread => hsame read (List.mem_append_right _ hread)
        with ⟨hfold, hreads⟩
      exact ⟨hfold, congrArg _ hreads⟩

end Congruence

/-! ## Closed sets of objects -/

section Within

variable {objects : ℕ → Prop} (hclosed : s.heap.Closed objects)
  (hprotos : ∀ v p, s.protos.jsGetPrototypePrimitive v = some p → objects p)
include hclosed hprotos

theorem within_getInherited {v w : JSValue} {prop : Atom}
    (hget : s.getInherited v prop = .ok w) : w.Within objects := by
  unfold Realm.getInherited at hget
  split at hget
  · rw [← Except.ok.inj hget]
    trivial
  · rename_i p hp
    split at hget
    · rw [← Except.ok.inj hget]
      trivial
    · rename_i v' e wr hfind
      rw [← Except.ok.inj hget]
      have hfound : s.heap.getProperty p prop = .ok v' := by
        unfold Heap.getProperty
        rw [hfind]
      exact hclosed.getProperty (hprotos v p hp) hfound
    · cases hget

/-- A property of a value refers where the value does. -/
theorem within_jsGetProperty {v w : JSValue} (hv : v.Within objects) {prop : Atom}
    (hget : s.jsGetProperty v prop = .ok w) : w.Within objects := by
  cases v with
  | object ref => exact hclosed.getProperty hv hget
  | nullTag word =>
      rw [← Except.ok.inj hget]
      trivial
  | undefinedTag word =>
      rw [← Except.ok.inj hget]
      trivial
  | exception =>
      rw [← Except.ok.inj hget]
      trivial
  | string str =>
      unfold Realm.jsGetProperty at hget
      dsimp only at hget
      split at hget
      · split at hget
        · rw [← Except.ok.inj hget]
          trivial
        · exact within_getInherited hclosed hprotos hget
      · split_ifs at hget
        · rw [← Except.ok.inj hget]
          trivial
        · exact within_getInherited hclosed hprotos hget
  | _ =>
      unfold Realm.jsGetProperty at hget
      dsimp only at hget
      exact within_getInherited hclosed hprotos hget

theorem within_foldlM {names : List String} {v w : JSValue} (hv : v.Within objects)
    (hfold : names.foldlM (fun v name => s.jsGetProperty v (jsNewAtom name)) v = .ok w) :
    w.Within objects := by
  induction names generalizing v with
  | nil => exact Except.ok.inj hfold ▸ hv
  | cons name names ih =>
      rw [List.foldlM_cons] at hfold
      rcases Fallible.bind_eq_ok_iff.mp hfold with ⟨u, hu, hfold⟩
      exact ih (within_jsGetProperty hclosed hprotos hv hu) hfold

end Within

/-! ## States without loose ends -/

/-- The heap is sealed, and everything else refers into it. -/
structure Sealed (s : Realm) : Prop where
  heap : s.heap.Sealed
  globalObj : s.globalObj < s.heap.objects.length
  globalVars : ∀ prop v, s.globalVars.lookup prop = some (some v) →
    v.Within (· < s.heap.objects.length)
  protos : ∀ v p, s.protos.jsGetPrototypePrimitive v = some p → p < s.heap.objects.length

section Sealed

variable (hsealed : s.Sealed)
include hsealed

theorem Sealed.holder_lt {v : JSValue} (hv : v.Within (· < s.heap.objects.length)) {r : ℕ}
    (hr : s.holder v = some r) : r < s.heap.objects.length := by
  by_cases hobject : ∃ ref, v = .object ref
  · rcases hobject with ⟨ref, rfl⟩
    rw [← Option.some.inj hr]
    exact hv
  · rw [holder_of_ne fun ref heq => hobject ⟨ref, heq⟩] at hr
    exact hsealed.protos v r hr

theorem Sealed.jsGetProperty {v w : JSValue} (hv : v.Within (· < s.heap.objects.length))
    {prop : Atom} (hget : s.jsGetProperty v prop = .ok w) :
    w.Within (· < s.heap.objects.length) :=
  within_jsGetProperty hsealed.heap.closed hsealed.protos hv hget

theorem Sealed.jsGetGlobalVar {prop : Atom} {v : JSValue}
    (hget : s.jsGetGlobalVar prop = .ok v) : v.Within (· < s.heap.objects.length) := by
  unfold Realm.jsGetGlobalVar at hget
  split at hget
  · rename_i w hlookup
    rw [← Except.ok.inj hget]
    exact hsealed.globalVars prop w hlookup
  · rw [← Except.ok.inj hget]
    trivial
  · split_ifs at hget
    · exact hsealed.heap.closed.getProperty hsealed.globalObj hget
    · rw [← Except.ok.inj hget]
      trivial

theorem Sealed.readsFrom_lt {names : List String} {v : JSValue}
    (hv : v.Within (· < s.heap.objects.length)) :
    ∀ read ∈ s.readsFrom v names, read.1 < s.heap.objects.length := by
  induction names generalizing v with
  | nil => exact fun _ hread => absurd hread List.not_mem_nil
  | cons name names ih =>
      intro read hread
      unfold Realm.readsFrom at hread
      rcases List.mem_append.mp hread with hread | hread
      · rcases List.mem_map.mp hread with ⟨r, hr, rfl⟩
        exact hsealed.holder_lt hv (Option.mem_toList.mp hr)
      · cases hw : s.jsGetProperty v (jsNewAtom name) with
        | error stop =>
            rw [hw] at hread
            exact absurd hread List.not_mem_nil
        | ok w =>
            rw [hw] at hread
            exact ih (hsealed.jsGetProperty hv hw) read hread

theorem Sealed.reads_lt {path : Path} :
    ∀ read ∈ s.reads path, read.1 < s.heap.objects.length := by
  intro read hread
  unfold Realm.reads at hread
  rcases List.mem_append.mp hread with hread | hread
  · split_ifs at hread
    · rw [List.mem_singleton.mp hread]
      exact hsealed.globalObj
    · exact absurd hread List.not_mem_nil
  · cases hv : s.jsGetGlobalVar (jsNewAtom path.first) with
    | error stop =>
        rw [hv] at hread
        exact absurd hread List.not_mem_nil
    | ok v =>
        rw [hv] at hread
        exact hsealed.readsFrom_lt (hsealed.jsGetGlobalVar hv) read hread

theorem Sealed.evalPath_within {path : Path} {w : JSValue} (heval : s.evalPath path = .ok w) :
    w.Within (· < s.heap.objects.length) := by
  rcases Fallible.bind_eq_ok_iff.mp heval with ⟨v, hv, hfold⟩
  exact within_foldlM hsealed.heap.closed hsealed.protos (hsealed.jsGetGlobalVar hv) hfold

/-- A path comes to the same whatever is made later. -/
theorem Sealed.evalPath_frame {h : Heap}
    (hframe : Heap.Frame (· < s.heap.objects.length) s.heap h) (path : Path) :
    { s with heap := h }.evalPath path = s.evalPath path ∧
      { s with heap := h }.reads path = s.reads path := by
  have hglobals : SameGlobals s { s with heap := h } := ⟨rfl, rfl, rfl⟩
  refine hglobals.evalPath fun read hread => ⟨?_, ?_⟩
  · exact hframe.agrees.findProperty hsealed.heap.closed (hsealed.reads_lt read hread) read.2
  · unfold Heap.getProto
    dsimp only
    rw [hframe.objects read.1 (hsealed.reads_lt read hread)]

end Sealed

/-! ## The setter -/

/-- What is assigned to: the global object if the last name is the only one. -/
def target (s : Realm) : List String → Outcome JSValue
  | [] => .ok (.object s.globalObj)
  | first :: rest => s.evalPath { first, rest }

/-- The lookups on the way there. -/
def approach (s : Realm) : List String → List (ℕ × Atom)
  | [] => []
  | first :: rest => s.reads { first, rest }

/-- No accessor is on the way, and none has the last name. -/
structure Accessorless (s : Realm) (init : List String) (last : String) : Prop where
  target : ∃ v, s.target init = .ok v
  valued : ∀ v r, s.target init = .ok v → s.holder v = some r →
    s.heap.Valued (s.heap.protoChain r) (jsNewAtom last)

/-- What is assigned to is no element and not the length of an array. -/
def Slotless (s : Realm) (init : List String) (last : String) : Prop :=
  ∀ ref, s.target init = .ok (.object ref) → s.heap.isArraySlot ref (jsNewAtom last) = false

theorem evalPath_append (s : Realm) (first : String) (rest : List String) (last : String) :
    s.evalPath { first, rest := rest ++ [last] } =
      (s.evalPath { first, rest } >>= fun v => s.jsGetProperty v (jsNewAtom last)) := by
  unfold evalPath
  simp only [List.foldlM_append, List.foldlM_cons, List.foldlM_nil, bind_pure, bind_assoc]

/-- An engine evaluates a path. -/
theorem eval_joined {eval : String → Realm → Outcome (JSValue × Realm)} (heval : Extends eval)
    {names : List String} {path : Path} (hpath : Path.ofNames names = some path) {v : JSValue}
    (hv : s.evalPath path = .ok v) : eval (joined names) s = .ok (v, s) := by
  refine heval _ _ _ ?_
  unfold evalScript
  rw [readScript_joined hpath]
  unfold evalPaths
  simp only [hv]

theorem joined_ne_empty {names : List String} {path : Path}
    (hpath : Path.ofNames names = some path) : (joined names).isEmpty = false := by
  rw [← Bool.not_eq_true, String.isEmpty_iff]
  intro hempty
  have hread := readScript_joined hpath
  have hnone : readScript "" = none := by decide +kernel
  rw [hempty, hnone] at hread
  cases hread

/-- The names before the last are a path as well. -/
theorem ofNames_init {init : List String} {last : String} {path : Path}
    (hpath : Path.ofNames (init ++ [last]) = some path) {first : String} {rest : List String}
    (hinit : init = first :: rest) :
    Path.ofNames init = some { first, rest } ∧ path = { first, rest := rest ++ [last] } := by
  rcases Path.ofNames_eq_some_iff.mp hpath with ⟨hnames, hfirst, hrest⟩
  subst hinit
  rcases path with ⟨first', rest'⟩
  rw [Path.names, List.cons_append, List.cons.injEq] at hnames
  rcases hnames with ⟨rfl, rfl⟩
  exact ⟨Path.ofNames_eq_some_iff.mpr ⟨rfl, hfirst, fun n hn =>
    hrest n (List.mem_append_left _ hn)⟩, rfl⟩

section Setter

variable {eval : String → Realm → Outcome (JSValue × Realm)} {init : List String} {last : String}
  {path : Path}

theorem frame_hand {route : Route} {value : Option JSConvertible} {h h' : Heap} {v : JSValue}
    (hhand : route.hand value h = .ok (v, h')) : Heap.Frame (· < h.objects.length) h h' := by
  unfold Route.hand at hhand
  cases route with
  | setterResult =>
      simp only [Except.ok.injEq, Prod.mk.injEq] at hhand
      rw [← hhand.2]
      exact Heap.Frame.refl _ _
  | _ =>
      cases hencode : encodeOptional value h with
      | error stop => simp only [hencode, reduceCtorEq] at hhand
      | ok r =>
          simp only [hencode, Except.ok.injEq, Prod.mk.injEq] at hhand
          rw [← hhand.2]
          exact frame_encodeOptional hencode

variable {value : Option JSConvertible} {v t : JSValue} {h : Heap}

theorem Sealed.target_within (hsealed : s.Sealed) (htarget : s.target init = .ok t) :
    t.Within (· < s.heap.objects.length) := by
  cases init with
  | nil =>
      rw [← Except.ok.inj htarget]
      exact hsealed.globalObj
  | cons first rest => exact hsealed.evalPath_within htarget

/-- What the setter comes to: the value is encoded, and then assigned. -/
theorem setValue_eq (hsealed : s.Sealed) (htarget : s.target init = .ok t)
    (heval : Extends eval) (hpath : Path.ofNames (init ++ [last]) = some path)
    (hhand : Route.engineSetValue.hand value s.heap = .ok (v, h)) :
    s.setValue eval value (joined (init ++ [last])) =
      { s with heap := h }.jsSetPropertyStr t last v := by
  unfold setValue
  rw [joined_ne_empty hpath, components_of_ofNames hpath]
  simp only [Bool.false_eq_true, if_false, hhand, List.dropLast_concat, List.getLastD_concat]
  cases init with
  | nil =>
      have hempty : (joined []).isEmpty = true := rfl
      rw [if_pos hempty, ← Except.ok.inj htarget]
  | cons first rest =>
      rcases ofNames_init hpath rfl with ⟨hinit, -⟩
      have hv : { s with heap := h }.evalPath { first, rest } = .ok t := by
        rw [(hsealed.evalPath_frame (frame_hand hhand) _).1]
        exact htarget
      rw [joined_ne_empty hinit, eval_joined heval hinit hv]
      rfl

/-- Properties of the global object and of what a path comes to, in a later heap. -/
theorem Sealed.jsSetPropertyStr (hsealed : s.Sealed) (haccessorless : s.Accessorless init last)
    (hslotless : s.Slotless init last) (htarget : s.target init = .ok t)
    (hwithin : t.Within (· < s.heap.objects.length))
    (hframe : Heap.Frame (· < s.heap.objects.length) s.heap h) (v : JSValue) :
    (∃ s', { s with heap := h }.jsSetPropertyStr t last v = .ok (false, s') ∧
        s' = { s with heap := h }) ∨
      ∃ ref o e, t = .object ref ∧ h.objects[ref]? = some o ∧
        h.isArraySlot ref (jsNewAtom last) = false ∧
        { s with heap := h }.jsSetPropertyStr t last v = .ok (true, { s with
          heap := h.assigned ref (jsNewAtom last) v e }) := by
  have hvalued {r : ℕ} (hr : s.holder t = some r) :
      h.Valued (h.protoChain r) (jsNewAtom last) := by
    have hlt := hsealed.holder_lt hwithin hr
    rcases hsealed.heap.chain r hlt with ⟨l, hl⟩
    have hold := haccessorless.valued t r htarget hr
    rw [hframe.agrees.protoChain hsealed.heap.closed hlt]
    rw [hl.protoChain_eq] at hold ⊢
    exact hl.valued_frame hframe hold
  by_cases hobject : ∃ ref, t = .object ref
  · rcases hobject with ⟨ref, rfl⟩
    have href : ref < s.heap.objects.length := hwithin
    have hslot : h.isArraySlot ref (jsNewAtom last) = false := by
      have hold := hslotless ref htarget
      unfold Heap.isArraySlot at hold ⊢
      rw [hframe.objects ref href]
      exact hold
    rcases Heap.exists_jsSetProperty (lt_of_lt_of_le href hframe.length) (hvalued rfl) v
      with ⟨⟨b, h'⟩, hset⟩
    rcases Heap.jsSetProperty_cases hset with ⟨rfl, rfl⟩ | ⟨rfl, o, e, ho, rfl⟩
    · refine Or.inl ⟨_, ?_, rfl⟩
      unfold Realm.jsSetPropertyStr
      simp only [hslot, Bool.false_eq_true, if_false, hset]
    · refine Or.inr ⟨ref, o, e, rfl, ho, hslot, ?_⟩
      unfold Realm.jsSetPropertyStr
      simp only [hslot, Bool.false_eq_true, if_false, hset]
  · refine Or.inl ⟨_, ?_, rfl⟩
    have hnot : ∀ ref, t ≠ .object ref := fun ref heq => hobject ⟨ref, heq⟩
    have hholder := holder_of_ne (s := s) hnot
    unfold Realm.jsSetPropertyStr
    cases t with
    | object ref => exact absurd rfl (hnot ref)
    | _ =>
        dsimp only
        split
        · rfl
        · rename_i p hp
          split
          · rename_i accessor e hfind
            rcases List.exists_of_findSome?_eq_some hfind with ⟨r, hr, hown⟩
            exact absurd hown (hvalued (hholder.trans hp) r hr accessor e)
          · rfl

end Setter

/-! ## The law -/

/-- If `setValue` returns `true`, then `value` returns what the JS value decodes to. If it
    returns `false`, then no binding and no object that there was has changed. -/
def SetsAndGets (ext : Externals) (eval : String → Realm → Outcome (JSValue × Realm)) (s : Realm)
    (value : Option JSConvertible) (keyPath : String) (v : JSValue) : Prop :=
  ∃ b s', s.setValue eval value keyPath = .ok (b, s') ∧
    (b = true → ∀ fuel, s'.value ext eval fuel keyPath =
      (evaluated ext s'.heap fuel v).map fun result => (result, s')) ∧
    (b = false → s'.globalVars = s.globalVars ∧
      Heap.Frame (· < s.heap.objects.length) s.heap s'.heap)

/-- A name on its own is no lexical binding. On the way nothing is read that is assigned to. -/
structure Straight (s : Realm) (init : List String) (last : String) : Prop where
  unshadowed : init = [] → s.globalVars.lookup (jsNewAtom last) = none
  untouched : ∀ ref r, s.target init = .ok (.object ref) → (r, jsNewAtom last) ∈ s.approach init →
    ref ∉ s.heap.protoChain r

section Law

variable {ext : Externals} {eval : String → Realm → Outcome (JSValue × Realm)}
  {init : List String} {last : String} {path : Path} {value : Option JSConvertible} {v : JSValue}
  {h : Heap}

/-- What the getter returns for a path. -/
theorem value_eq (heval : Extends eval) {names : List String}
    (hpath : Path.ofNames names = some path) (hv : s.evalPath path = .ok v) (fuel : ℕ) :
    s.value ext eval fuel (joined names) =
      (evaluated ext s.heap fuel v).map fun result => (result, s) := by
  unfold Realm.value
  rw [joined_ne_empty hpath, eval_joined heval hpath hv]
  simp only [Bool.false_eq_true, if_false]
  cases evaluated ext s.heap fuel v with
  | error stop => rfl
  | ok result => rfl

/-- After an assignment the whole path comes to what was assigned. -/
theorem Sealed.evalPath_assigned (hsealed : s.Sealed)
    (hpath : Path.ofNames (init ++ [last]) = some path)
    (hframe : Heap.Frame (· < s.heap.objects.length) s.heap h) (hstraight : s.Straight init last)
    {ref : ℕ} {o : JSObject} {e : Bool} (htarget : s.target init = .ok (.object ref))
    (ho : h.objects[ref]? = some o) (hslot : h.isArraySlot ref (jsNewAtom last) = false) :
    { s with heap := h.assigned ref (jsNewAtom last) v e }.evalPath path
      = .ok v := by
  cases hinit : init with
  | nil =>
      rw [hinit] at hpath htarget
      rcases Path.ofNames_eq_some_iff.mp hpath with ⟨hnames, -, -⟩
      rcases path with ⟨first, rest⟩
      rw [Path.names, List.nil_append, List.cons.injEq] at hnames
      rcases hnames with ⟨rfl, rfl⟩
      have href : s.globalObj = ref := JSValue.object.inj (Except.ok.inj htarget)
      have hglobal : { s with heap := h.assigned ref (jsNewAtom last) v e }.jsGetGlobalVar
          (jsNewAtom last) = .ok v := by
        unfold Realm.jsGetGlobalVar Heap.hasProperty
        simp only [hstraight.unshadowed hinit, href, Heap.findProperty_assigned_self ho hslot,
          Option.isSome_some, if_true, Heap.getProperty_assigned_self ho hslot]
      unfold evalPath
      rw [hglobal]
      rfl
  | cons first rest =>
      rcases ofNames_init hpath hinit with ⟨-, rfl⟩
      have hsame : { s with heap := h }.evalPath { first, rest } = .ok (.object ref) ∧
          { s with heap := h }.reads { first, rest } = s.reads { first, rest } := by
        rcases hsealed.evalPath_frame hframe { first, rest } with ⟨heval, hreads⟩
        rw [hinit] at htarget
        exact ⟨heval.trans htarget, hreads⟩
      have hglobals : SameGlobals { s with heap := h } { s with
          heap := h.assigned ref (jsNewAtom last) v e } :=
        ⟨rfl, rfl, rfl⟩
      have hlookups : ∀ read ∈ { s with heap := h }.reads { first, rest },
          SameLookup { s with heap := h } { s with
            heap := h.assigned ref (jsNewAtom last) v e } read := by
        -- What was assigned to is not on any chain where its name is looked up.
        intro read hread
        rw [hsame.2] at hread
        have hlt := hsealed.reads_lt read hread
        refine ⟨Heap.findProperty_assigned ho hslot fun heq => ?_,
          Heap.getProto_assigned _ _ _ _ _ _⟩
        rw [hframe.agrees.protoChain hsealed.heap.closed hlt]
        refine hstraight.untouched ref read.1 htarget ?_
        rw [hinit, ← heq]
        exact hread
      rw [evalPath_append, (hglobals.evalPath hlookups).1, hsame.1]
      exact Heap.getProperty_assigned_self ho hslot

/-- Along a straight path the law holds. -/
theorem setsAndGets_of_straight (heval : Extends eval) (hsealed : s.Sealed)
    (hpath : Path.ofNames (init ++ [last]) = some path)
    (haccessorless : s.Accessorless init last) (hslotless : s.Slotless init last)
    (hhand : Route.engineSetValue.hand value s.heap = .ok (v, h))
    (hstraight : s.Straight init last) :
    SetsAndGets ext eval s value (joined (init ++ [last])) v := by
  rcases haccessorless.target with ⟨t, htarget⟩
  have hframe := frame_hand hhand
  have hwithin : t.Within (· < s.heap.objects.length) := hsealed.target_within htarget
  have hset := setValue_eq hsealed htarget heval hpath hhand
  rcases hsealed.jsSetPropertyStr haccessorless hslotless htarget hwithin hframe v
    with ⟨s', hrefused, rfl⟩ | ⟨ref, o, e, rfl, ho, hslot, haccepted⟩
  · exact ⟨false, _, hset.trans hrefused, nofun, fun _ => ⟨rfl, hframe⟩⟩
  · refine ⟨true, _, hset.trans haccepted, fun _ fuel => ?_, nofun⟩
    exact value_eq heval hpath
      (hsealed.evalPath_assigned hpath hframe hstraight htarget ho hslot) fuel

/-- A name on its own that is a lexical binding: what is read is the binding. -/
theorem setsAndGets_iff_of_shadowed (heval : Extends eval) (hsealed : s.Sealed)
    (hpath : Path.ofNames [last] = some path) (haccessorless : s.Accessorless [] last)
    (hslotless : s.Slotless [] last)
    (hhand : Route.engineSetValue.hand value s.heap = .ok (v, h)) {slot : Option JSValue}
    (hslot : s.globalVars.lookup (jsNewAtom last) = some slot) :
    SetsAndGets ext eval s value (joined [last]) v ↔
      ∀ s', { s with heap := h }.jsSetPropertyStr (.object s.globalObj) last v = .ok (true, s') →
        ∀ fuel, (evaluated ext s'.heap fuel (slot.getD .exception)).map (fun x => (x, s'))
          = (evaluated ext s'.heap fuel v).map fun x => (x, s') := by
  have htarget : s.target [] = .ok (.object s.globalObj) := rfl
  have hframe := frame_hand hhand
  have hset : s.setValue eval value (joined [last]) =
      { s with heap := h }.jsSetPropertyStr (.object s.globalObj) last v :=
    setValue_eq hsealed htarget heval hpath hhand
  have hread (s' : Realm) (hvars : s'.globalVars = s.globalVars) (fuel : ℕ) :
      s'.value ext eval fuel (joined [last]) =
        (evaluated ext s'.heap fuel (slot.getD .exception)).map fun x => (x, s') := by
    refine value_eq heval hpath ?_ fuel
    rcases Path.ofNames_eq_some_iff.mp hpath with ⟨hnames, -, -⟩
    rcases path with ⟨first, rest⟩
    rw [Path.names, List.cons.injEq] at hnames
    rcases hnames with ⟨rfl, rfl⟩
    unfold evalPath jsGetGlobalVar
    rw [hvars, hslot]
    cases slot with
    | none => rfl
    | some w => rfl
  rcases hsealed.jsSetPropertyStr haccessorless hslotless htarget hsealed.globalObj hframe v
    with ⟨s', hrefused, rfl⟩ | ⟨ref, o, e, heq, ho, hslot', haccepted⟩
  · refine iff_of_true ⟨false, _, hset.trans hrefused, nofun, fun _ => ⟨rfl, hframe⟩⟩
      fun s' haccepted => ?_
    exact absurd (hrefused.symm.trans haccepted) nofun
  · constructor
    · rintro ⟨b, s', hset', htrue, -⟩ s'' haccepted' fuel
      have hsame := hset'.symm.trans (hset.trans haccepted')
      rw [Except.ok.injEq, Prod.mk.injEq] at hsame
      rcases hsame with ⟨rfl, rfl⟩
      rw [haccepted, Except.ok.injEq, Prod.mk.injEq] at haccepted'
      have hvars : s'.globalVars = s.globalVars := by rw [← haccepted'.2]
      exact (hread s' hvars fuel).symm.trans (htrue rfl fuel)
    · intro hsame
      refine ⟨true, _, hset.trans haccepted, fun _ fuel => ?_, nofun⟩
      exact (hread _ (by rfl) fuel).trans (hsame _ haccepted fuel)

end Law

/-! ## A binding in front of the global object -/

theorem extends_evalScript : Extends fun script s => s.evalScript script :=
  fun _ _ _ hrun => hrun

/-- A data bridge, a global property `secret`, and `let x = true`. -/
def small : Realm where
  heap :=
    { Heap.builtins with
      objects := Heap.builtins.objects ++
        [{ classID := jsClassObject, proto := some 0,
           properties := [(jsNewAtom "dataBridge", .value (.object 6) true true),
             (jsNewAtom "secret", .value (jsNewBool true) true true)] },
         { classID := jsClassObject, proto := some 0 }] }
  globalObj := 5
  globalVars := [(jsNewAtom "x", some (jsNewBool true))]
  protos := { bigInt := 0, number := 0, boolean := 0, string := 0, symbol := 0 }

theorem small_sealed : small.Sealed := by
  have h0 : small.heap.Chain (some 0) [0] := Heap.Chain.cons rfl Heap.Chain.nil
  have hclosed : small.heap.Closed (· < small.heap.objects.length) := by
    refine Heap.closed_of_slots (fun ref href => ?_) ?_ ?_
    · have hlt : ref < 7 := href
      interval_cases ref
      · exact ⟨[0], h0, by decide⟩
      · exact ⟨[1, 0], Heap.Chain.cons rfl h0, by decide⟩
      · exact ⟨[2, 0], Heap.Chain.cons rfl h0, by decide⟩
      · exact ⟨[3, 0], Heap.Chain.cons rfl h0, by decide⟩
      · exact ⟨[4, 0], Heap.Chain.cons rfl h0, by decide⟩
      · exact ⟨[5, 0], Heap.Chain.cons rfl h0, by decide⟩
      · exact ⟨[6, 0], Heap.Chain.cons rfl h0, by decide⟩
    · simp only [small, Heap.builtins, List.cons_append, List.nil_append, List.forall_mem_cons,
        List.not_mem_nil, false_implies, implies_true, and_true, true_and, Property.Within,
        JSValue.Within, jsNewInt32, jsNewBool, List.length_cons, List.length_nil]
      omega
    · simp [small, Heap.builtins]
  refine ⟨hclosed.isSealed (by decide) (by decide) (by decide) (by decide), by decide, ?_, ?_⟩
  · intro prop v hlookup
    have hv := mem_of_lookup hlookup
    rw [small, List.mem_singleton, Prod.mk.injEq, Option.some.injEq] at hv
    rw [hv.2]
    trivial
  · intro v p hp
    have hzero : p = 0 := by
      cases v with
      | object ref => cases hp
      | nullTag word => cases hp
      | undefinedTag word => cases hp
      | exception => cases hp
      | _ => exact (Option.some.inj hp).symm
    rw [hzero]
    decide

end Realm

end Substrata
