import Substrata.Basis.Fallible
import Substrata.Core.Convert
import Substrata.Theory.Congruence

/-!
# The error that native code throws

`throwError` makes an error object and assigns a name and a message to it, in the order
message and name. The assignments are ordinary ones: what `Error.prototype` inherits or has
may refuse them, and then the field reads as what is inherited.

## Main definitions

* `Heap.Throwable`: Nothing on the chain of `Error.prototype` is a script.
* `Heap.shown`: What a field of a new error reads as.
* `Shows`: It reads as some text.

## Theorems

* `setErrorString_newborn`: One field.
* `toJSValue_thrown`: The error object, and what is read from it.
-/

namespace Substrata

/-- The name of every error that native code throws. -/
def nativeCodeException : String := "Native Code Exception"

/-- The chain from `Error.prototype` ends, and has no accessor for the two fields. -/
structure Heap.Throwable (h : Heap) (base : List ℕ) : Prop where
  chain : h.Chain (some h.errorProto) base
  name : h.Valued base (jsNewAtom "name")
  message : h.Valued base (jsNewAtom "message")

/-- What is read under a field that a text was assigned to: the text, up to its first NUL, or
    what is inherited if the assignment was refused. -/
def Heap.shown (h : Heap) (base : List ℕ) (field text : String) : JSValue :=
  if h.Takes base (jsNewAtom field) then .string (JSString.ofSwift text)
  else Heap.propertyValue (base.findSome? (h.own (jsNewAtom field)))

/-- The field reads as all of some text. -/
def Shows (h : Heap) (base : List ℕ) (field assigned text : String) : Prop :=
  h.shown base field assigned = .string (Utf16.encode text.toList)

instance (h : Heap) (base : List ℕ) (field assigned text : String) :
    Decidable (Shows h base field assigned text) :=
  inferInstanceAs (Decidable (_ = _))

/-- An old chain stays as it is when something is made, and so does what a field reads as. -/
theorem Heap.Throwable.frame {h h' : Heap} {base : List ℕ} (hthrowable : h.Throwable base)
    (hframe : Heap.Frame (· < h.objects.length) h h') : h'.Throwable base where
  chain := by
    rw [hframe.errorProto]
    exact hthrowable.chain.frame hframe fun _ hr => hthrowable.chain.mem_lt hr
  name := hthrowable.chain.valued_frame hframe hthrowable.name
  message := hthrowable.chain.valued_frame hframe hthrowable.message

theorem Heap.Throwable.shown_frame {h h' : Heap} {base : List ℕ} (hthrowable : h.Throwable base)
    (hframe : Heap.Frame (· < h.objects.length) h h') (field text : String) :
    h'.shown base field text = h.shown base field text := by
  have hsame (r : ℕ) (hr : r ∈ base) : h'.objects[r]? = h.objects[r]? :=
    hframe.objects r (hthrowable.chain.mem_lt hr)
  have hown : base.findSome? (h'.own (jsNewAtom field)) = base.findSome? (h.own (jsNewAtom field)) :=
    Heap.findSome?_congr_of_mem fun r hr => by
      unfold Heap.own
      rw [hsame r hr]
  have htakes : h'.Takes base (jsNewAtom field) ↔ h.Takes base (jsNewAtom field) := by
    unfold Heap.Takes
    rw [Heap.findSome_guards_congr hsame]
  unfold Heap.shown
  simp only [htakes, hown]

section Fields

variable {h h' : Heap} {base : List ℕ} {ref : ℕ} {o : JSObject}

/-- What an assignment of a text leaves. -/
structure Titled (h : Heap) (base : List ℕ) (field text : String) (o o' : JSObject) : Prop where
  classID : o'.classID = o.classID
  lookup : ∀ atom, o'.properties.lookup atom =
    if atom = jsNewAtom field ∧ h.Takes base (jsNewAtom field) then
      some (.value (.string (JSString.ofSwift text)) true true)
    else
      o.properties.lookup atom

/-- One field. -/
theorem setErrorString_newborn (hnewborn : Heap.Newborn h base h' ref o)
    (hold : h.objects.length ≤ ref) {field : String} (hvalued : h.Valued base (jsNewAtom field))
    (hnone : o.properties.lookup (jsNewAtom field) = none) (text : String) :
    ∃ h'' o', setErrorString ref h' (field, some text) = .ok h'' ∧
      Heap.Newborn h base h'' ref o' ∧ Titled h base field text o o' := by
  have hset := hnewborn.setProperty hvalued hnone (.string (JSString.ofSwift text))
  by_cases htakes : h.Takes base (jsNewAtom field)
  · rw [if_pos htakes] at hset
    refine ⟨_, _, hset, hnewborn.put hold _, rfl, fun atom => ?_⟩
    simp only [Heap.lookup_put, htakes, and_true]
  · rw [if_neg htakes] at hset
    refine ⟨_, _, hset, hnewborn, rfl, fun atom => ?_⟩
    rw [if_neg fun hand => htakes hand.2]

/-- What the field reads as. -/
theorem Titled.shown {field text : String} {o' : JSObject} (htitled : Titled h base field text o o')
    (hnone : o.properties.lookup (jsNewAtom field) = none) :
    Heap.propertyValue ((o'.properties.lookup (jsNewAtom field)).or
      (base.findSome? (h.own (jsNewAtom field)))) = h.shown base field text := by
  rw [htitled.lookup, hnone]
  unfold Heap.shown
  by_cases htakes : h.Takes base (jsNewAtom field)
  · rw [if_pos ⟨rfl, htakes⟩, if_pos htakes]
    rfl
  · rw [if_neg fun hand => htakes hand.2, if_neg htakes]
    rfl

end Fields

/-- The error object in the heap afterwards. -/
structure Thrown (h : Heap) (base : List ℕ) (description : String) (h' : Heap) : Prop where
  frame : Heap.Frame (· < h.objects.length) h h'
  error : ∃ o, h'.objects[h.objects.length]? = some o ∧ o.classID = jsClassError
  name : h'.getProperty h.objects.length (jsNewAtom "name")
    = .ok (h.shown base "name" nativeCodeException)
  message : h'.getProperty h.objects.length (jsNewAtom "message")
    = .ok (h.shown base "message" description)
  other : ∀ atom, atom ≠ jsNewAtom "name" → atom ≠ jsNewAtom "message" → h.Valued base atom →
    h'.getProperty h.objects.length atom = .ok (Heap.propertyValue (base.findSome? (h.own atom)))

/-- An error that native code throws, and what is read from it. -/
theorem toJSValue_thrown {h : Heap} {base : List ℕ} (hthrowable : h.Throwable base)
    (description : String) :
    ∃ h', JSConvertible.toJSValue
        (.jsError (some nativeCodeException) (some description) none none) h
        = .ok (some (.object h.objects.length), h') ∧ Thrown h base description h' := by
  have hne : jsNewAtom "message" ≠ jsNewAtom "name" := by decide +kernel
  have hnew : Heap.Newborn h base h.newError.1 h.objects.length
      { classID := jsClassError, proto := some h.errorProto } :=
    ⟨Heap.frame_allocate h _, Heap.getElem?_allocate h _, nofun, rfl, hthrowable.chain⟩
  rcases setErrorString_newborn hnew le_rfl hthrowable.message rfl description
    with ⟨h₁, o₁, hmessage, hnewborn₁, htitled₁⟩
  have hnone : o₁.properties.lookup (jsNewAtom "name") = none := by
    rw [htitled₁.lookup, if_neg fun hand => hne hand.1.symm]
    rfl
  rcases setErrorString_newborn hnewborn₁ le_rfl hthrowable.name hnone nativeCodeException
    with ⟨h₂, o₂, hname, hnewborn₂, htitled₂⟩
  have hsame : o₂.properties.lookup (jsNewAtom "message")
      = o₁.properties.lookup (jsNewAtom "message") := by
    rw [htitled₂.lookup, if_neg fun hand => hne hand.1]
  refine ⟨h₂, ?_, hnewborn₂.frame, ⟨o₂, hnewborn₂.object, ?_⟩, ?_, ?_, ?_⟩
  · have hfold : [("message", some description), ("name", some nativeCodeException),
        ("cause", none), ("stack", none)].foldlM (setErrorString h.newError.2) h.newError.1
        = .ok h₂ := by
      simp only [List.foldlM_cons]
      refine Fallible.bind_eq_ok_iff.mpr ⟨h₁, hmessage, ?_⟩
      exact Fallible.bind_eq_ok_iff.mpr ⟨h₂, hname, rfl⟩
    rw [JSConvertible.toJSValue, hfold]
    rfl
  · rw [htitled₂.classID, htitled₁.classID]
  · rw [hnewborn₂.getProperty hthrowable.name ?_, htitled₂.shown hnone]
    intro accessor e hlookup
    rw [htitled₂.lookup, hnone] at hlookup
    split_ifs at hlookup
    exact absurd hlookup nofun
  · rw [hnewborn₂.getProperty hthrowable.message ?_, hsame, htitled₁.shown rfl]
    intro accessor e hlookup
    rw [hsame, htitled₁.lookup] at hlookup
    split_ifs at hlookup
    · exact absurd hlookup nofun
    · exact absurd hlookup nofun
  · intro atom hnotName hnotMessage hvalued
    have hlookup : o₂.properties.lookup atom = none := by
      rw [htitled₂.lookup, if_neg fun hand => hnotName hand.1, htitled₁.lookup,
        if_neg fun hand => hnotMessage hand.1]
      rfl
    rw [hnewborn₂.getProperty hvalued fun accessor e => hlookup ▸ nofun, hlookup, Option.none_or]

end Substrata
