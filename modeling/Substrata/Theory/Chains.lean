import Substrata.Theory.Objects
import Mathlib.Data.List.Perm.Subperm

/-!
# Prototype chains of any length

What a lookup and an assignment do on an object whose prototype chain ends
somewhere, however long it is.

A chain that ends has each object once, so it is no longer than the heap, and
the walks of the engine, which the heap bounds by its own length, see all of it.
A lookup finds the first property on the chain. An assignment looks at the own
property, and only where there is none at those above: it is refused where it
meets one that is read-only.

## Main definitions

* `Heap.Chain`: The objects from one upwards.
* `Heap.Valued`: There is no accessor of some name on a chain.
* `Heap.Accepts`: An assignment is not refused.
* `Heap.Takes`: An assignment to a new name is not refused.
* `Heap.Newborn`: An object that was made later.

## Theorems

* `Chain.protoChain_eq`: A chain that ends is seen as a whole.
* `Chain.frame`, `Chain.update`: A chain stays where its prototypes stay.
* `lookup_put`: The properties after one was written.
* `setProperty_valued`: What an assignment does.
* `getProperty_put`, `getProperty_put_of_ne`: What is read afterwards.
* `Newborn.setProperty`, `Newborn.getProperty`: The same on an object that was made later.
-/

namespace Substrata

namespace Heap

variable {h h' : Heap}

/-- The objects from one upwards, to the end of the prototype chain. -/
inductive Chain (h : Heap) : Option ℕ → List ℕ → Prop
  | nil : Chain h none []
  | cons {ref : ℕ} {o : JSObject} {above : List ℕ} (ho : h.objects[ref]? = some o)
      (hrest : Chain h o.proto above) : Chain h (some ref) (ref :: above)

theorem Chain.unique {p : Option ℕ} {l l' : List ℕ} (hchain : h.Chain p l)
    (hchain' : h.Chain p l') : l = l' := by
  induction hchain generalizing l' with
  | nil =>
      cases hchain'
      rfl
  | cons ho _ ih =>
      cases hchain' with
      | cons ho' hrest' =>
          rw [ho, Option.some.injEq] at ho'
          subst ho'
          rw [ih hrest']

theorem Chain.exists_of_mem {p : Option ℕ} {l : List ℕ} (hchain : h.Chain p l) {ref : ℕ}
    (href : ref ∈ l) : ∃ l', h.Chain (some ref) l' ∧ l'.length ≤ l.length ∧ ∀ r ∈ l', r ∈ l := by
  induction hchain with
  | nil => exact absurd href List.not_mem_nil
  | @cons ref' o above ho hrest ih =>
      rcases List.mem_cons.mp href with rfl | href
      · exact ⟨_, Chain.cons ho hrest, le_rfl, fun _ hr => hr⟩
      · rcases ih href with ⟨l', hl', hle, hsub⟩
        refine ⟨l', hl', ?_, fun r hr => List.mem_cons_of_mem _ (hsub r hr)⟩
        rw [List.length_cons]
        omega

/-- No object comes twice, or the chain from it would be longer than itself. -/
theorem Chain.nodup {p : Option ℕ} {l : List ℕ} (hchain : h.Chain p l) : l.Nodup := by
  induction hchain with
  | nil => exact List.nodup_nil
  | @cons ref o above ho hrest ih =>
      refine List.nodup_cons.mpr ⟨fun hmem => ?_, ih⟩
      rcases hrest.exists_of_mem hmem with ⟨l', hl', hle, _⟩
      have hlength := congrArg List.length (hl'.unique (Chain.cons ho hrest))
      rw [List.length_cons] at hlength
      omega

theorem Chain.exists_object {p : Option ℕ} {l : List ℕ} (hchain : h.Chain p l) {ref : ℕ}
    (href : ref ∈ l) : ∃ o, h.objects[ref]? = some o := by
  rcases hchain.exists_of_mem href with ⟨_, hl', _⟩
  cases hl' with
  | cons ho _ => exact ⟨_, ho⟩

theorem Chain.mem_lt {p : Option ℕ} {l : List ℕ} (hchain : h.Chain p l) {ref : ℕ}
    (href : ref ∈ l) : ref < h.objects.length := by
  rcases hchain.exists_object href with ⟨o, ho⟩
  exact lt_of_getElem? ho

theorem Chain.length_le {p : Option ℕ} {l : List ℕ} (hchain : h.Chain p l) :
    l.length ≤ h.objects.length := by
  have hsub : l ⊆ List.range h.objects.length := by
    intro ref href
    exact List.mem_range.mpr (hchain.mem_lt href)
  have hle := (List.subperm_of_subset hchain.nodup hsub).length_le
  rwa [List.length_range] at hle

theorem Chain.chain_eq {p : Option ℕ} {l : List ℕ} (hchain : h.Chain p l) {ref : ℕ}
    (hp : p = some ref) {n : ℕ} (hn : l.length ≤ n) : h.chain n ref = l := by
  induction hchain generalizing ref n with
  | nil => exact absurd hp nofun
  | @cons ref' o above ho hrest ih =>
      rw [← Option.some.inj hp]
      cases n with
      | zero => exact absurd hn (by simp)
      | succ n =>
          rw [List.length_cons] at hn
          rw [chain_succ ho]
          cases hproto : o.proto with
          | none =>
              rw [hproto] at hrest
              cases hrest
              rfl
          | some q => simp only [ih hproto (Nat.le_of_succ_le_succ hn)]

/-- A chain that ends is seen as a whole. -/
theorem Chain.protoChain_eq {ref : ℕ} {l : List ℕ} (hchain : h.Chain (some ref) l) :
    h.protoChain ref = l :=
  hchain.chain_eq rfl hchain.length_le

/-- A chain stays where its objects keep their prototypes. -/
theorem Chain.congr {p : Option ℕ} {l : List ℕ} (hchain : h.Chain p l)
    (hsame : ∀ ref ∈ l, ∀ o, h.objects[ref]? = some o →
      ∃ o', h'.objects[ref]? = some o' ∧ o'.proto = o.proto) : h'.Chain p l := by
  induction hchain with
  | nil => exact Chain.nil
  | @cons ref o above ho hrest ih =>
      rcases hsame ref List.mem_cons_self o ho with ⟨o', ho', hproto⟩
      refine Chain.cons ho' (hproto ▸ ih fun r hr => hsame r (List.mem_cons_of_mem _ hr))

theorem Chain.frame {p : Option ℕ} {l : List ℕ} (hchain : h.Chain p l) {keep : ℕ → Prop}
    (hframe : Frame keep h h') (hkeep : ∀ ref ∈ l, keep ref) : h'.Chain p l :=
  hchain.congr fun ref href o ho => ⟨o, by rw [hframe.objects ref (hkeep ref href), ho], rfl⟩

theorem Chain.update {p : Option ℕ} {l : List ℕ} (hchain : h.Chain p l) (ref : ℕ)
    {f : JSObject → JSObject} (hf : ∀ o, (f o).proto = o.proto) : (h.update ref f).Chain p l := by
  refine hchain.congr fun r _ o ho => ?_
  by_cases hr : r = ref
  · subst hr
    exact ⟨f o, by rw [getElem?_update, ho, Option.map_some], hf o⟩
  · exact ⟨o, by rw [(frame_update h ref f).objects r hr, ho], rfl⟩

/-! ## Lookups -/

/-- Functions that agree on a list find the same there. -/
theorem findSome?_congr_of_mem {α β : Type} {f g : α → Option β} {l : List α}
    (hsame : ∀ x ∈ l, f x = g x) : l.findSome? f = l.findSome? g := by
  induction l with
  | nil => rfl
  | cons x l ih =>
      rw [List.findSome?_cons, List.findSome?_cons, hsame x List.mem_cons_self,
        ih fun y hy => hsame y (List.mem_cons_of_mem _ hy)]

theorem Chain.findProperty_eq {ref : ℕ} {l : List ℕ} (hchain : h.Chain (some ref) l) (atom : Atom) :
    h.findProperty ref atom = l.findSome? (h.own atom) := by
  unfold findProperty
  rw [hchain.protoChain_eq]

/-- There is no accessor of some name on a chain. -/
def Valued (h : Heap) (l : List ℕ) (atom : Atom) : Prop :=
  ∀ ref ∈ l, ∀ accessor e, h.own atom ref ≠ some (.getSet accessor e)

def isAccessor : Option Property → Bool
  | some (.getSet _ _) => true
  | _ => false

theorem isAccessor_eq_false {p : Option Property} :
    isAccessor p = false ↔ ∀ accessor e, p ≠ some (.getSet accessor e) := by
  unfold isAccessor
  split
  · exact ⟨nofun, fun hne => absurd rfl (hne _ _)⟩
  · rename_i hother
    exact ⟨fun _ => hother, fun _ => rfl⟩

instance (h : Heap) (l : List ℕ) (atom : Atom) : Decidable (h.Valued l atom) :=
  decidable_of_iff (∀ ref ∈ l, isAccessor (h.own atom ref) = false)
    (forall₂_congr fun _ _ => isAccessor_eq_false)

/-- The value of a property, `undefined` where there is none. -/
def propertyValue : Option Property → JSValue
  | some (.value v _ _) => v
  | _ => jsUndefined

theorem Valued.exists_value {l : List ℕ} {atom : Atom} (hvalued : h.Valued l atom) {p : Property}
    (hp : l.findSome? (h.own atom) = some p) : ∃ v e w, p = .value v e w := by
  rcases List.exists_of_findSome?_eq_some hp with ⟨ref, href, hown⟩
  cases p with
  | value v e w => exact ⟨v, e, w, rfl⟩
  | getSet accessor e => exact absurd hown (hvalued ref href accessor e)

/-- A lookup finds the first value on the chain. -/
theorem getProperty_valued {ref : ℕ} {l : List ℕ} {atom : Atom} (hchain : h.Chain (some ref) l)
    (hvalued : h.Valued l atom) :
    h.getProperty ref atom = .ok (propertyValue (l.findSome? (h.own atom))) := by
  unfold getProperty
  rw [hchain.findProperty_eq]
  cases hp : l.findSome? (h.own atom) with
  | none => rfl
  | some p =>
      rcases hvalued.exists_value hp with ⟨v, e, w, rfl⟩
      rfl

/-! ## Assignments -/

/-- Writing a slot wherever a name is. -/
theorem lookup_map_slot (properties : List (Atom × Property)) (atom atom' : Atom) (p : Property) :
    (properties.map fun q => if q.1 = atom then (atom, p) else q).lookup atom' =
      if atom' = atom then (properties.lookup atom).map fun _ => p else properties.lookup atom' := by
  induction properties with
  | nil => simp
  | cons q properties ih =>
      rcases q with ⟨name, slot⟩
      rw [List.map_cons]
      by_cases hname : name = atom
      · rw [if_pos hname, List.lookup_cons, ih, List.lookup_cons, hname, beq_self_eq_true]
        by_cases heq : atom' = atom
        · simp [heq]
        · simp [heq, List.lookup_cons, beq_eq_false_iff_ne.mpr heq]
      · have hne : (atom == name) = false := beq_eq_false_iff_ne.mpr (Ne.symm hname)
        rw [if_neg hname, List.lookup_cons, ih, List.lookup_cons, hne]
        by_cases heq : atom' = atom
        · rw [if_pos heq, if_pos heq, heq, hne]
        · rw [if_neg heq, if_neg heq, List.lookup_cons]

/-- The properties after one was written. -/
theorem lookup_put (o : JSObject) (atom atom' : Atom) (p : Property) :
    (o.put atom p).properties.lookup atom' =
      if atom' = atom then some p else o.properties.lookup atom' := by
  unfold JSObject.put
  dsimp only
  cases hnone : o.properties.lookup atom with
  | none =>
      rw [if_neg (by simp), List.lookup_append, List.lookup_cons]
      by_cases heq : atom' = atom
      · rw [if_pos heq, heq, hnone, beq_self_eq_true]
        rfl
      · rw [if_neg heq, beq_eq_false_iff_ne.mpr heq, List.lookup_nil, Option.or_none]
  | some q =>
      rw [if_pos (by simp), lookup_map_slot, hnone]
      rfl

/-- Without elements every property is in the list. -/
theorem own_of_not_array {o : JSObject} (hu : ∀ values, o.u ≠ .array values) (atom : Atom) :
    o.own atom = o.properties.lookup atom := by
  unfold JSObject.own
  cases hunion : o.u with
  | array values => exact absurd hunion (hu values)
  | _ => rfl

theorem put_own {o : JSObject} (hu : ∀ values, o.u ≠ .array values) (atom atom' : Atom)
    (p : Property) :
    (o.put atom p).own atom' = if atom' = atom then some p else o.own atom' := by
  rw [own_of_not_array hu, own_of_not_array (o := o.put atom p) hu, lookup_put]

/-- What the objects have under a name, after one property was written. -/
theorem own_update_put {ref : ℕ} {o : JSObject} (ho : h.objects[ref]? = some o)
    (hu : ∀ values, o.u ≠ .array values) (atom atom' : Atom) (p : Property) (r : ℕ) :
    (h.update ref fun o => o.put atom p).own atom' r =
      if r = ref ∧ atom' = atom then some p else h.own atom' r := by
  by_cases hr : r = ref
  · subst hr
    have ho' : (h.update r fun o => o.put atom p).objects[r]? = some (o.put atom p) := by
      rw [getElem?_update, ho, Option.map_some]
    rw [own_eq ho', own_eq ho, put_own hu]
    simp only [true_and]
  · rw [if_neg fun hand => hr hand.1]
    unfold own
    rw [(frame_update h ref _).objects r hr]

/-- An assignment is not refused: the own property is writable, or there is none
    and none of those above stands in the way. -/
def Accepts (h : Heap) (ref : ℕ) (above : List ℕ) (atom : Atom) : Prop :=
  match h.own atom ref with
  | some (.value _ _ w) => w = true
  | some (.getSet _ _) => False
  | none => (h.guards atom above).findSome? (h.inheritedGuard atom) = none

/-- Whether a property is enumerable after an assignment: a new one is. -/
def remainsEnumerable (h : Heap) (ref : ℕ) (atom : Atom) : Bool :=
  match h.own atom ref with
  | some p => p.isEnumerable
  | none => true

instance (h : Heap) (ref : ℕ) (above : List ℕ) (atom : Atom) :
    Decidable (h.Accepts ref above atom) := by
  unfold Accepts
  split <;> infer_instance

section Assignments

variable {ref : ℕ} {o : JSObject} {above : List ℕ} {atom : Atom}

theorem accepts_value {v : JSValue} {e w : Bool} (hown : h.own atom ref = some (.value v e w)) :
    h.Accepts ref above atom ↔ w = true := by
  unfold Accepts
  rw [hown]

theorem accepts_none (hown : h.own atom ref = none) :
    h.Accepts ref above atom ↔
      (h.guards atom above).findSome? (h.inheritedGuard atom) = none := by
  unfold Accepts
  rw [hown]

/-- Where the objects are the same, the same stands in the way. -/
theorem findSome_guards_congr {l : List ℕ}
    (hsame : ∀ r ∈ l, h'.objects[r]? = h.objects[r]?) :
    (h'.guards atom l).findSome? (h'.inheritedGuard atom) =
      (h.guards atom l).findSome? (h.inheritedGuard atom) := by
  induction l with
  | nil => rfl
  | cons r l ih =>
      have helement : h'.hasElement atom r = h.hasElement atom r := by
        unfold hasElement
        rw [hsame r List.mem_cons_self]
      have hguard : h'.inheritedGuard atom r = h.inheritedGuard atom r := by
        unfold inheritedGuard own
        rw [hsame r List.mem_cons_self]
      have hrest := ih fun r' hr' => hsame r' (List.mem_cons_of_mem _ hr')
      unfold guards at hrest ⊢
      rw [List.takeWhile_cons, List.takeWhile_cons, helement]
      cases h.hasElement atom r with
      | true => rfl
      | false =>
          simp only [Bool.not_false, if_true, List.findSome?_cons, hguard, hrest]

theorem accepts_congr (hsame : ∀ r ∈ ref :: above, h'.objects[r]? = h.objects[r]?) :
    h'.Accepts ref above atom ↔ h.Accepts ref above atom := by
  unfold Accepts own
  rw [hsame ref List.mem_cons_self,
    findSome_guards_congr fun r hr => hsame r (List.mem_cons_of_mem _ hr)]

/-- Where there is no accessor, none of the objects above has a setter. -/
theorem Valued.inheritedGuard_ne {l : List ℕ} (hvalued : h.Valued l atom) (accessor : Accessor) :
    l.findSome? (h.inheritedGuard atom) ≠ some (some accessor) := by
  intro hguard
  rcases List.exists_of_findSome?_eq_some hguard with ⟨r, hr, hinherited⟩
  unfold inheritedGuard at hinherited
  split at hinherited
  · exact absurd ‹_› (hvalued r hr _ _)
  · exact absurd hinherited (by simp)
  · exact absurd hinherited (by simp)

/-- What an assignment does: it writes its property, or it is refused and nothing changes. -/
theorem setProperty_valued (ho : h.objects[ref]? = some o)
    (hextensible : o.extensible = true) (hchain : h.Chain (some ref) (ref :: above))
    (hvalued : h.Valued (ref :: above) atom) (v : JSValue) :
    h.setProperty ref atom v =
      .ok (if h.Accepts ref above atom then
        h.update ref fun o => o.put atom (.value v (h.remainsEnumerable ref atom) true)
      else
        h) := by
  unfold remainsEnumerable
  cases hown : h.own atom ref with
  | some p =>
      cases p with
      | getSet accessor e => exact absurd hown (hvalued ref List.mem_cons_self accessor e)
      | value v' e w =>
          unfold setProperty
          cases w with
          | true =>
              rw [if_pos ((accepts_value hown).mpr rfl), hown]
              rfl
          | false =>
              rw [if_neg fun haccepts => absurd ((accepts_value hown).mp haccepts) (by simp), hown]
  | none =>
      have habove : h.Valued (h.guards atom above) atom := fun r hr =>
        hvalued r (List.mem_cons_of_mem _ (List.takeWhile_subset _ hr))
      unfold setProperty
      rw [hchain.protoChain_eq, List.tail_cons]
      cases hguard : (h.guards atom above).findSome? (h.inheritedGuard atom) with
      | none =>
          rw [if_pos ((accepts_none hown).mpr hguard), hown]
          simp only [ho, if_pos hextensible]
      | some guard =>
          cases guard with
          | none =>
              rw [if_neg fun haccepts => ?_, hown]
              exact absurd ((accepts_none hown).mp haccepts) (by simp [hguard])
          | some accessor => exact absurd hguard (habove.inheritedGuard_ne accessor)

variable (hu : ∀ values, o.u ≠ .array values) (ho : h.objects[ref]? = some o)
include hu ho

/-- The property that was written is what a lookup finds. -/
theorem getProperty_put (v : JSValue) (e : Bool) :
    (h.update ref fun o => o.put atom (.value v e true)).getProperty ref atom = .ok v := by
  have ho' : (h.update ref fun o => o.put atom (.value v e true)).objects[ref]?
      = some (o.put atom (.value v e true)) := by
    rw [getElem?_update, ho, Option.map_some]
  exact getProperty_of_own ho' (by rw [put_own hu, if_pos rfl])

/-- A lookup of another name finds what it found. -/
theorem getProperty_put_of_ne (hchain : h.Chain (some ref) (ref :: above)) {atom' : Atom}
    (hvalued : h.Valued (ref :: above) atom') (hne : atom' ≠ atom) (p : Property) :
    (h.update ref fun o => o.put atom p).getProperty ref atom' = h.getProperty ref atom' := by
  have hown (r : ℕ) : (h.update ref fun o => o.put atom p).own atom' r = h.own atom' r := by
    rw [own_update_put ho hu, if_neg fun hand => hne hand.2]
  have hchain' : (h.update ref fun o => o.put atom p).Chain (some ref) (ref :: above) :=
    hchain.update ref fun _ => rfl
  have hvalued' : (h.update ref fun o => o.put atom p).Valued (ref :: above) atom' := by
    intro r hr accessor e
    rw [hown]
    exact hvalued r hr accessor e
  rw [getProperty_valued hchain hvalued, getProperty_valued hchain' hvalued', funext hown]

end Assignments

/-! ## New objects -/

/-- An object that inherits from `base` takes an assignment to a name that it does not have. -/
def Takes (h : Heap) (base : List ℕ) (atom : Atom) : Prop :=
  (h.guards atom base).findSome? (h.inheritedGuard atom) = none

instance (h : Heap) (base : List ℕ) (atom : Atom) : Decidable (h.Takes base atom) :=
  inferInstanceAs (Decidable (_ = _))

/-- An object that was made after `h` and inherits from what there was: a chain `base`. -/
structure Newborn (h : Heap) (base : List ℕ) (h' : Heap) (ref : ℕ) (o : JSObject) : Prop where
  frame : Frame (· < h.objects.length) h h'
  object : h'.objects[ref]? = some o
  union : ∀ values, o.u ≠ .array values
  extensible : o.extensible = true
  base : h.Chain o.proto base

section Newborn

variable {base : List ℕ} {ref : ℕ} {o : JSObject} {atom : Atom}
variable (hnewborn : Newborn h base h' ref o)
include hnewborn

theorem Newborn.own (atom : Atom) : h'.own atom ref = o.properties.lookup atom := by
  rw [own_eq hnewborn.object, own_of_not_array hnewborn.union]

theorem Newborn.chain : h'.Chain (some ref) (ref :: base) :=
  Chain.cons hnewborn.object
    (hnewborn.base.frame hnewborn.frame fun _ hr => hnewborn.base.mem_lt hr)

theorem Newborn.own_base {r : ℕ} (hr : r ∈ base) (atom : Atom) : h'.own atom r = h.own atom r := by
  unfold Heap.own
  rw [hnewborn.frame.objects r (hnewborn.base.mem_lt hr)]

theorem Newborn.valued (hvalued : h.Valued base atom)
    (hown : ∀ accessor e, o.properties.lookup atom ≠ some (.getSet accessor e)) :
    h'.Valued (ref :: base) atom := by
  intro r hr accessor e
  rcases List.mem_cons.mp hr with rfl | hr
  · rw [hnewborn.own]
    exact hown accessor e
  · rw [hnewborn.own_base hr]
    exact hvalued r hr accessor e

/-- A name that the object does not have is assigned to if nothing above is in the way. -/
theorem Newborn.setProperty (hvalued : h.Valued base atom)
    (hnone : o.properties.lookup atom = none) (v : JSValue) :
    h'.setProperty ref atom v = .ok (if h.Takes base atom then
      h'.update ref fun o => o.put atom (.value v true true) else h') := by
  have hown : h'.own atom ref = none := (hnewborn.own atom).trans hnone
  have hvalued' := hnewborn.valued hvalued (by simp [hnone])
  have htakes : h'.Accepts ref base atom ↔ h.Takes base atom := by
    rw [accepts_none hown, findSome_guards_congr fun r hr =>
      hnewborn.frame.objects r (hnewborn.base.mem_lt hr)]
    exact Iff.rfl
  rw [setProperty_valued hnewborn.object hnewborn.extensible hnewborn.chain hvalued']
  have henumerable : h'.remainsEnumerable ref atom = true := by
    unfold remainsEnumerable
    rw [hown]
  by_cases hyes : h.Takes base atom
  · rw [if_pos (htakes.mpr hyes), if_pos hyes, henumerable]
  · rw [if_neg fun haccepts => hyes (htakes.mp haccepts), if_neg hyes]

/-- What is read: the own property, or what is inherited. -/
theorem Newborn.getProperty (hvalued : h.Valued base atom)
    (hown : ∀ accessor e, o.properties.lookup atom ≠ some (.getSet accessor e)) :
    h'.getProperty ref atom =
      .ok (propertyValue ((o.properties.lookup atom).or (base.findSome? (h.own atom)))) := by
  rw [getProperty_valued hnewborn.chain (hnewborn.valued hvalued hown), List.findSome?_cons,
    hnewborn.own, findSome?_congr_of_mem fun r hr => hnewborn.own_base hr atom]
  cases o.properties.lookup atom with
  | none => rfl
  | some p => rfl

/-- The object after a property was written. -/
theorem Newborn.put (hold : h.objects.length ≤ ref) (p : Property) :
    Newborn h base (h'.update ref fun o => o.put atom p) ref (o.put atom p) where
  frame := hnewborn.frame.trans ((frame_update h' ref _).mono fun i hi heq => by omega)
  object := by rw [getElem?_update, hnewborn.object, Option.map_some]
  union := hnewborn.union
  extensible := hnewborn.extensible
  base := hnewborn.base

end Newborn

end Heap

end Substrata
