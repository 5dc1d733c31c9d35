import Substrata.Core.Invoke
import Substrata.Theory.Attach
import Substrata.Theory.Construction
import Substrata.Theory.Decode
import Substrata.Theory.Dispatch
import Substrata.Theory.Sealed
import Substrata.Theory.Thrown

/-!
# A call out and back

What `JSFunction.call` does on an exported function: the closure is run once, on the arguments
as they are after they went through the engine, and its result comes back through the engine
as well. An error comes back as a `JSError`, which the handler sees once.

What going through the engine makes of a value is `Normalizes`: it is encoded, and decoded in
the heap that this leaves. The arguments are encoded one after the other, and only then
decoded, but what is encoded later is not seen from what was encoded before.

## Main definitions

* `Normalizes`, `NormalizesArgs`: What values come to when they are encoded and decoded.
* `CallsBack`: What a call does.
* `Heap.Scriptless`: No script on the chain of `Error.prototype`.
* `Legible`: A `JSError` with the right name and message can be read from the error.
* `Answerable`: The condition for it.

## Theorems

* `encodeArgs_spec`: The arguments.
* `jsCallCFunction_eq`, `call_eq`: The way to the closure.
* `jsErrorInit_thrown`: What is read from the error.
* `legible_of_takes`: Where nothing refuses the assignments.
* `lookup_of_registered`: A registered function is found.
* `callsBack_iff`: When the law holds.
* `exists_not_callsBack`: A frozen `Error.prototype`.
-/

namespace Substrata

variable {Fn Get Set : Type}

/-! ## Through the engine -/

/-- What a value comes to when it is encoded and decoded again, and the heap that this leaves. -/
def Normalizes (ext : Externals) (h : Heap) (t : JSConvertible) (y : Option JSConvertible)
    (h' : Heap) : Prop :=
  ∃ v fuel, t.toJSValue h = .ok (v, h') ∧
    toJSConvertible ext h' fuel (v.getD JSValue.undefined) = .ok y

/-- The same for arguments, one after the other. `nil` becomes `NSNull`. -/
inductive NormalizesArgs (ext : Externals) : Heap → List JSConvertible → List JSConvertible →
    Heap → Prop
  | nil (h : Heap) : NormalizesArgs ext h [] [] h
  | cons {h h₁ h' : Heap} {t : JSConvertible} {y : Option JSConvertible}
      {args ys : List JSConvertible} (head : Normalizes ext h t y h₁)
      (tail : NormalizesArgs ext h₁ args ys h') :
      NormalizesArgs ext h (t :: args) (y.getD .nsNull :: ys) h'

/-- A value in a heap that decodes to an argument. -/
def DecodesTo (ext : Externals) (h : Heap) (v : JSValue) (y : JSConvertible) : Prop :=
  v.Within (· < h.objects.length) ∧
    ∃ fuel value, toJSConvertible ext h fuel v = .ok value ∧ y = value.getD .nsNull

theorem DecodesTo.frame {ext : Externals} {h h' : Heap} {v : JSValue} {y : JSConvertible}
    (hdecodes : DecodesTo ext h v y) (hsealed : h.Sealed)
    (hframe : Heap.Frame (· < h.objects.length) h h') : DecodesTo ext h' v y := by
  rcases hdecodes with ⟨hv, fuel, value, hvalue, rfl⟩
  refine ⟨hv.mono fun i hi => lt_of_lt_of_le hi hframe.length, fuel, value, ?_, rfl⟩
  rw [hsealed.toJSConvertible_frame hframe ext fuel hv]
  exact hvalue

/-- What is handed over as an argument. -/
theorem decodesTo_hand {ext : Externals} {h h' : Heap} {t : JSConvertible}
    {y : Option JSConvertible} (hsealed : h.Sealed) (hlive : t.Live h)
    (hnormalizes : Normalizes ext h t y h') :
    ∃ v, Route.callArgument.hand (some t) h = .ok (v, h') ∧ h'.Sealed ∧
      Heap.Frame (· < h.objects.length) h h' ∧ DecodesTo ext h' v (y.getD .nsNull) := by
  rcases hnormalizes with ⟨v, fuel, hencode, hdecode⟩
  rcases sealed_toJSValue t h h' v hsealed hlive hencode with ⟨hsealed', hwithin⟩
  refine ⟨v.getD JSValue.null, ?_, hsealed', frame_toJSValue t hencode, ?_⟩
  · unfold Route.hand encodeOptional
    simp only [hencode]
    rfl
  · cases v with
    | none =>
        have hnil : y = none := by
          cases fuel with
          | zero => exact absurd hdecode nofun
          | succ fuel => exact (Except.ok.inj hdecode).symm
        exact ⟨trivial, 1, some .nsNull, rfl, hnil ▸ rfl⟩
    | some w => exact ⟨hwithin w rfl, fuel, y, hdecode, rfl⟩

/-- The arguments are encoded, and each of them decodes in the heap in the end. -/
theorem encodeArgs_spec {ext : Externals} {h h' : Heap} {args ys : List JSConvertible}
    (hnormalizes : NormalizesArgs ext h args ys h') (hsealed : h.Sealed)
    (hlive : ∀ t ∈ args, t.Live h) :
    ∃ values, encodeArgs args h = .ok (values, h') ∧ h'.Sealed ∧
      Heap.Frame (· < h.objects.length) h h' ∧
      List.Forall₂ (DecodesTo ext h') values ys ∧ values.length = args.length := by
  induction hnormalizes with
  | nil h => exact ⟨[], rfl, hsealed, Heap.Frame.refl _ _, List.Forall₂.nil, rfl⟩
  | @cons h h₁ h' t y args ys head tail ih =>
      rcases decodesTo_hand hsealed (hlive t List.mem_cons_self) head
        with ⟨v, hhand, hsealed₁, hframe, hdecodes⟩
      rcases ih hsealed₁ fun x hx => (hlive x (List.mem_cons_of_mem _ hx)).frame hframe
        with ⟨values, hencode, hsealed', hframe', hall, hlength⟩
      refine ⟨v :: values, ?_, hsealed',
        hframe.trans (hframe'.mono fun i hi => lt_of_lt_of_le hi hframe.length),
        List.Forall₂.cons (hdecodes.frame hsealed₁ hframe') hall, ?_⟩
      · unfold encodeArgs
        simp only [hhand, hencode]
      · rw [List.length_cons, List.length_cons, hlength]

/-- With enough fuel all of them are decoded. -/
theorem exists_jsArgsToTypes {ext : Externals} {h : Heap} {values : List JSValue}
    {ys : List JSConvertible} (hall : List.Forall₂ (DecodesTo ext h) values ys)
    (padding : List JSValue) :
    ∃ bound, ∀ fuel, bound ≤ fuel →
      h.jsArgsToTypes ext fuel values.length (values ++ padding) = .ok ys := by
  have hbound : ∃ bound, ∀ fuel, bound ≤ fuel →
      List.Forall₂ (fun v y => h.jsArgToType ext fuel v = .ok y) values ys := by
    induction hall with
    | nil => exact ⟨0, fun _ _ => List.Forall₂.nil⟩
    | @cons v y values ys hdecodes _ ih =>
        rcases hdecodes with ⟨-, bound, value, hvalue, rfl⟩
        rcases ih with ⟨bound', hrest⟩
        refine ⟨max bound bound', fun fuel hfuel => List.Forall₂.cons ?_ ?_⟩
        · unfold Heap.jsArgToType
          rw [toJSConvertible_mono hvalue (le_trans (le_max_left _ _) hfuel)]
        · exact hrest fuel (le_trans (le_max_right _ _) hfuel)
  rcases hbound with ⟨bound, hbound⟩
  refine ⟨bound, fun fuel hfuel => ?_⟩
  unfold Heap.jsArgsToTypes
  rw [List.take_left]
  exact (Fallible.mapM_eq_ok_iff _ _ _).mpr (hbound fuel hfuel)

/-- What `JSFunction.call` hands to the engine. -/
theorem functionCall_eq {h h' : Heap} {args : Option (List JSConvertible)} {values : List JSValue}
    (hencode : encodeArgs (args.getD []) h = .ok (values, h')) (func : ℕ) (this : JSValue) :
    h.functionCall func this args =
      if (args.getD []).length < 2 ^ 31 then .ok ({ func, this, args := values }, h')
      else .error .trap := by
  cases args with
  | none =>
      rw [Option.getD_none] at hencode ⊢
      rw [encodeArgs, Except.ok.injEq, Prod.mk.injEq] at hencode
      rcases hencode with ⟨rfl, rfl⟩
      rfl
  | some args =>
      rw [Option.getD_some] at hencode ⊢
      unfold Heap.functionCall
      dsimp only
      rw [hencode]

namespace Stage

variable {ext : Externals}

/-- The way to the closure: it is found, and run on the decoded arguments. -/
theorem jsCallCFunction_eq (closures : Closures Fn Get Set) (s : Stage Fn Get Set)
    {f : CFunction} {fn : Fn}
    (hlookup : s.engine.context.functions.lookup f.passedMagic = some fn) {values : List JSValue}
    {ys : List JSConvertible} (hall : List.Forall₂ (DecodesTo ext s.heap) values ys) :
    ∃ bound, ∀ fuel, bound ≤ fuel → s.jsCallCFunction ext closures fuel f values =
      match s.returnJSValueRef closures fn ys with
      | .error stop => .error stop
      | .ok (v, s') => .ok (v, [.function fn ys], s') := by
  rcases exists_jsArgsToTypes hall
    (List.replicate (f.length.toNat - values.length) jsUndefined) with ⟨bound, hargs⟩
  refine ⟨bound, fun fuel hfuel => ?_⟩
  unfold jsCallCFunction typedCall
  dsimp only
  cases hreturn : s.returnJSValueRef closures fn ys with
  | error stop => simp only [hargs fuel hfuel, hlookup, hreturn]
  | ok r => simp only [hargs fuel hfuel, hlookup, hreturn]

/-- A value that decodes is received as it is. -/
theorem receive_of_decode (closures : Closures Fn Get Set) (s : Stage Fn Get Set) {fuel : ℕ}
    {v : JSValue}
    {x : Option JSConvertible} (hdecode : toJSConvertible ext s.heap fuel v = .ok x) :
    s.receive ext closures fuel v = .ok (x, [], s) := by
  unfold receive
  cases v with
  | exception =>
      cases fuel with
      | zero => exact absurd hdecode nofun
      | succ fuel => exact absurd hdecode nofun
  | _ => simp only [hdecode]

/-- What a call comes to, once the closure has run. -/
theorem call_eq (closures : Closures Fn Get Set) {s : Stage Fn Get Set} {f : CFunction} {fn : Fn}
    {h : Heap}
    (hlookup : s.engine.context.functions.lookup f.passedMagic = some fn)
    {args : Option (List JSConvertible)} {ys : List JSConvertible} (hsealed : s.heap.Sealed)
    (hlive : ∀ t ∈ args.getD [], t.Live s.heap)
    (hargs : NormalizesArgs ext s.heap (args.getD []) ys h)
    (hlength : (args.getD []).length < 2 ^ 31) (func : ℕ) (this : JSValue) :
    ∃ bound, ∀ fuel, bound ≤ fuel → s.call ext closures f func this args fuel =
      match { s with heap := h }.returnJSValueRef closures fn ys with
      | .error stop => .error stop
      | .ok (v, s') =>
        match s'.receive ext closures fuel v with
        | .error stop => .error stop
        | .ok (value, calls, s'') => .ok (value, .function fn ys :: calls, s'') := by
  rcases encodeArgs_spec hargs hsealed hlive with ⟨values, hencode, -, -, hall, -⟩
  rcases jsCallCFunction_eq closures { s with heap := h } hlookup hall
    with ⟨bound, hbound⟩
  refine ⟨bound, fun fuel hfuel => ?_⟩
  unfold call
  rw [functionCall_eq hencode, if_pos hlength]
  dsimp only
  rw [hbound fuel hfuel]
  cases { s with heap := h }.returnJSValueRef closures fn ys with
  | error stop => rfl
  | ok r => rfl

/-- `Int32(args.count)`. -/
theorem call_trap (closures : Closures Fn Get Set) {s : Stage Fn Get Set} {h : Heap}
    {args : Option (List JSConvertible)}
    {ys : List JSConvertible} (hsealed : s.heap.Sealed) (hlive : ∀ t ∈ args.getD [], t.Live s.heap)
    (hargs : NormalizesArgs ext s.heap (args.getD []) ys h)
    (hlength : ¬ (args.getD []).length < 2 ^ 31) (f : CFunction) (func : ℕ) (this : JSValue)
    (fuel : ℕ) : s.call ext closures f func this args fuel = .error .trap := by
  rcases encodeArgs_spec hargs hsealed hlive with ⟨values, hencode, -, -, -, -⟩
  unfold call
  rw [functionCall_eq hencode, if_neg hlength]

end Stage

/-! ## What is read from an error -/

/-- What a field that reads as some value is in Swift. -/
def fieldText (ext : Externals) (h : Heap) (fuel : ℕ) (v : JSValue) : Outcome (Option String) :=
  match toJSConvertible ext h fuel v with
  | .error stop => .error stop
  | .ok value => .ok (value.map ext.jsDescription)

/-- The fields of a `JSError`, one after the other. -/
def readFields (ext : Externals) (h : Heap) (fuel : ℕ) (name message cause stack : JSValue) :
    Outcome JSConvertible := do
  let name ← fieldText ext h fuel name
  let message ← fieldText ext h fuel message
  let cause ← fieldText ext h fuel cause
  let stack ← fieldText ext h fuel stack
  .ok (.jsError name message cause stack)

theorem fieldText_mono {ext : Externals} {h : Heap} {fuel fuel' : ℕ} {v : JSValue}
    {text : Option String} (htext : fieldText ext h fuel v = .ok text) (hle : fuel ≤ fuel') :
    fieldText ext h fuel' v = .ok text := by
  unfold fieldText at htext ⊢
  cases hvalue : toJSConvertible ext h fuel v with
  | error stop => simp only [hvalue, reduceCtorEq] at htext
  | ok value =>
      rw [hvalue] at htext
      rw [toJSConvertible_mono hvalue hle]
      exact htext

/-- The chain of `Error.prototype` ends, and has no accessor for a field of an error. -/
structure Heap.Scriptless (h : Heap) (base : List ℕ) : Prop extends h.Throwable base where
  cause : h.Valued base (jsNewAtom "cause")
  stack : h.Valued base (jsNewAtom "stack")

/-- What is inherited under a name. -/
def Heap.inherited (h : Heap) (base : List ℕ) (field : String) : JSValue :=
  Heap.propertyValue (base.findSome? (h.own (jsNewAtom field)))

/-- A `JSError` with the right name and message can be read from the error: both fields show a
    value that describes itself so, and what is inherited as `cause` and `stack` decodes. -/
structure Legible (ext : Externals) (h : Heap) (base : List ℕ) (description : String) : Prop where
  name : ∃ fuel, fieldText ext h fuel (h.shown base "name" nativeCodeException)
    = .ok (some nativeCodeException)
  message : ∃ fuel, fieldText ext h fuel (h.shown base "message" description)
    = .ok (some description)
  cause : ∃ fuel text, fieldText ext h fuel (h.inherited base "cause") = .ok text
  stack : ∃ fuel text, fieldText ext h fuel (h.inherited base "stack") = .ok text

section Errors

variable {ext : Externals} {h h' : Heap} {base : List ℕ} {description : String}

theorem Heap.Sealed.inherited_within (hsealed : h.Sealed) (field : String) :
    (h.inherited base field).Within (· < h.objects.length) := by
  unfold Heap.inherited
  cases hfound : base.findSome? (h.own (jsNewAtom field)) with
  | none => trivial
  | some p =>
      rcases List.exists_of_findSome?_eq_some hfound with ⟨r, -, hown⟩
      cases p with
      | value v e w => exact hsealed.value r _ v e w hown
      | getSet accessor e => trivial

theorem Heap.Sealed.shown_within (hsealed : h.Sealed) (field text : String) :
    (h.shown base field text).Within (· < h.objects.length) := by
  unfold Heap.shown
  split_ifs
  · trivial
  · exact hsealed.inherited_within field

/-- A field of the new error is read as in the heap before. -/
theorem errorStringFromJSValue_thrown (hsealed : h.Sealed)
    (hframe : Heap.Frame (· < h.objects.length) h h') {field : String} {v : JSValue} (fuel : ℕ)
    (hget : h'.getProperty h.objects.length (jsNewAtom field) = .ok v)
    (hv : v.Within (· < h.objects.length)) :
    errorStringFromJSValue ext (toJSConvertible ext h' fuel) h' h.objects.length field
      = fieldText ext h fuel v := by
  unfold errorStringFromJSValue fieldText
  have hsame := hsealed.toJSConvertible_frame hframe ext fuel hv
  cases hvalue : toJSConvertible ext h fuel v with
  | error stop => simp only [hget, hsame, hvalue]
  | ok value => simp only [hget, hsame, hvalue]

/-- What is read from the new error, field by field. -/
theorem jsErrorInit_thrown (hsealed : h.Sealed) (hscriptless : h.Scriptless base)
    (hthrown : Thrown h base description h') (fuel : ℕ) :
    h'.jsErrorInit ext fuel (.object h.objects.length) =
      readFields ext h fuel (h.shown base "name" nativeCodeException)
        (h.shown base "message" description) (h.inherited base "cause")
        (h.inherited base "stack") := by
  have hcause := hthrown.other (jsNewAtom "cause") (by decide +kernel) (by decide +kernel)
    hscriptless.cause
  have hstack := hthrown.other (jsNewAtom "stack") (by decide +kernel) (by decide +kernel)
    hscriptless.stack
  unfold Heap.jsErrorInit readFields Heap.inherited
  dsimp only
  rw [errorStringFromJSValue_thrown hsealed hthrown.frame fuel hthrown.name
      (hsealed.shown_within _ _),
    errorStringFromJSValue_thrown hsealed hthrown.frame fuel hthrown.message
      (hsealed.shown_within _ _),
    errorStringFromJSValue_thrown hsealed hthrown.frame fuel hcause (hsealed.inherited_within _),
    errorStringFromJSValue_thrown hsealed hthrown.frame fuel hstack (hsealed.inherited_within _)]

/-- With enough fuel a legible error becomes the `JSError` that was meant. -/
theorem Legible.exists_jsErrorInit (hlegible : Legible ext h base description)
    (hsealed : h.Sealed) (hscriptless : h.Scriptless base)
    (hthrown : Thrown h base description h') :
    ∃ cause stack bound, ∀ fuel, bound ≤ fuel →
      h'.jsErrorInit ext fuel (.object h.objects.length)
        = .ok (.jsError (some nativeCodeException) (some description) cause stack) := by
  rcases hlegible.name with ⟨bound₁, hname⟩
  rcases hlegible.message with ⟨bound₂, hmessage⟩
  rcases hlegible.cause with ⟨bound₃, cause, hcause⟩
  rcases hlegible.stack with ⟨bound₄, stack, hstack⟩
  refine ⟨cause, stack, max (max bound₁ bound₂) (max bound₃ bound₄), fun fuel hfuel => ?_⟩
  simp only [max_le_iff] at hfuel
  rw [jsErrorInit_thrown hsealed hscriptless hthrown]
  unfold readFields
  rw [fieldText_mono hname hfuel.1.1,
    fieldText_mono hmessage hfuel.1.2, fieldText_mono hcause hfuel.2.1,
    fieldText_mono hstack hfuel.2.2]
  rfl

/-- And only a legible one does. -/
theorem legible_of_jsErrorInit (hsealed : h.Sealed) (hscriptless : h.Scriptless base)
    (hthrown : Thrown h base description h') {fuel : ℕ} {cause stack : Option String}
    (hinit : h'.jsErrorInit ext fuel (.object h.objects.length)
      = .ok (.jsError (some nativeCodeException) (some description) cause stack)) :
    Legible ext h base description := by
  rw [jsErrorInit_thrown hsealed hscriptless hthrown] at hinit
  rcases Fallible.bind_eq_ok_iff.mp hinit with ⟨name, hname, hinit⟩
  rcases Fallible.bind_eq_ok_iff.mp hinit with ⟨message, hmessage, hinit⟩
  rcases Fallible.bind_eq_ok_iff.mp hinit with ⟨cause', hcause, hinit⟩
  rcases Fallible.bind_eq_ok_iff.mp hinit with ⟨stack', hstack, hinit⟩
  rw [Except.ok.injEq, JSConvertible.jsError.injEq] at hinit
  rcases hinit with ⟨rfl, rfl, rfl, rfl⟩
  exact ⟨⟨fuel, hname⟩, ⟨fuel, hmessage⟩, ⟨fuel, _, hcause⟩, ⟨fuel, _, hstack⟩⟩

/-- Where nothing refuses the two assignments and nothing is inherited as `cause` or `stack`, an
    error whose description has no NUL is legible. -/
theorem legible_of_takes (hdescribes : ∀ s, ext.jsDescription (.string s) = s)
    (hname : h.Takes base (jsNewAtom "name")) (hmessage : h.Takes base (jsNewAtom "message"))
    (hnul : '\x00' ∉ description.toList)
    (hcause : h.inherited base "cause" = jsUndefined)
    (hstack : h.inherited base "stack" = jsUndefined) : Legible ext h base description := by
  have htext {field text : String} (htakes : h.Takes base (jsNewAtom field))
      (htext : '\x00' ∉ text.toList) :
      fieldText ext h 1 (h.shown base field text) = .ok (some text) := by
    unfold Heap.shown fieldText
    rw [if_pos htakes, decode_string, (cString_eq_self_iff text).mpr htext]
    simp only [Option.map_some, hdescribes]
  refine ⟨⟨1, htext hname (by decide)⟩, ⟨1, htext hmessage hnul⟩, ⟨1, none, ?_⟩, ⟨1, none, ?_⟩⟩
  · rw [hcause]
    rfl
  · rw [hstack]
    rfl

end Errors

/-! ## The law -/

/-- What a call does after the closure has come to `s`: the closure was called once, on the
    normalized arguments. Its value comes back normalized. An error comes back as a `JSError`
    that the handler sees, once, with no exception pending. -/
def CallsBack (ext : Externals) (closures : Closures Fn Get Set) (fn : Fn)
    (ys : List JSConvertible) (s : Stage Fn Get Set)
    (call : ℕ → Outcome (Option JSConvertible × List (NativeCall Fn) × Stage Fn Get Set)) :
    Except String (Option JSConvertible) → Prop
  | .ok none => ∃ bound, ∀ fuel, bound ≤ fuel → call fuel = .ok (none, [.function fn ys], s)
  | .ok (some r) => ∀ y h, Normalizes ext s.heap r y h → ∃ bound, ∀ fuel, bound ≤ fuel →
      call fuel = .ok (y, [.function fn ys], { s with heap := h })
  | .error description => ∃ cause stack s' bound, s'.exception = none ∧ s'.engine = s.engine ∧
      ∀ fuel, bound ≤ fuel → call fuel = .ok
        (some (.jsError (some nativeCodeException) (some description) cause stack),
          [.function fn ys, .exceptionHandler
            (.jsError (some nativeCodeException) (some description) cause stack)],
          closures.exceptionHandler
            (.jsError (some nativeCodeException) (some description) cause stack) s')

/-- The condition: the number of arguments is an `Int32`, and an error is legible, on a chain
    without scripts. -/
structure Answerable (ext : Externals) (args : Option (List JSConvertible))
    (outcome : Except String (Option JSConvertible)) (h : Heap) (base : List ℕ) : Prop where
  length : (args.getD []).length < 2 ^ 31
  scriptless : ∀ description, outcome = .error description → h.Scriptless base
  legible : ∀ description, outcome = .error description → Legible ext h base description

section Law

variable {ext : Externals} {closures : Closures Fn Get Set} {s s₂ : Stage Fn Get Set}
  {f : CFunction} {fn : Fn} {args : Option (List JSConvertible)} {ys : List JSConvertible}
  {h : Heap} {base : List ℕ} {outcome : Except String (Option JSConvertible)} {func : ℕ}
  {this : JSValue}

/-- What a value of the closure comes to. -/
theorem callsBack_value (hcall : ∃ bound, ∀ fuel, bound ≤ fuel →
      s.call ext closures f func this args fuel =
        match { s with heap := h }.returnJSValueRef closures fn ys with
        | .error stop => .error stop
        | .ok (v, s') =>
          match s'.receive ext closures fuel v with
          | .error stop => .error stop
          | .ok (value, calls, s'') => .ok (value, .function fn ys :: calls, s''))
    {value : Option JSConvertible}
    (hrun : closures.run fn ys { s with heap := h } = .ok (.ok value, s₂)) :
    CallsBack ext closures fn ys s₂ (s.call ext closures f func this args) (.ok value) := by
  rcases hcall with ⟨bound, hcall⟩
  -- What the closure returned is encoded and decoded right away.
  have hback {v : JSValue} {h' : Heap} {y : Option JSConvertible} {depth : ℕ}
      (hhand : Route.functionResult.hand value s₂.heap = .ok (v, h'))
      (hdecode : toJSConvertible ext h' depth v = .ok y) :
      ∃ bound, ∀ fuel, bound ≤ fuel → s.call ext closures f func this args fuel
        = .ok (y, [.function fn ys], { s₂ with heap := h' }) := by
    refine ⟨max bound depth, fun fuel hfuel => ?_⟩
    have hreceive := Stage.receive_of_decode closures { s₂ with heap := h' }
      (toJSConvertible_mono hdecode (le_trans (le_max_right _ _) hfuel))
    rw [hcall fuel (le_trans (le_max_left _ _) hfuel)]
    unfold Stage.returnJSValueRef
    rw [hrun]
    dsimp only
    rw [hhand]
    dsimp only
    rw [hreceive]
  cases value with
  | none =>
      have hundefined : toJSConvertible ext s₂.heap 1 JSValue.undefined = .ok none := rfl
      exact hback rfl hundefined
  | some r =>
      rintro y h' ⟨v, depth, hencode, hdecode⟩
      have hhand : Route.functionResult.hand (some r) s₂.heap
          = .ok (v.getD JSValue.undefined, h') := by
        unfold Route.hand encodeOptional
        simp only [hencode]
        rfl
      exact hback hhand hdecode

/-- What a thrown error comes to: the exception is taken from the engine. -/
theorem returnJSValueRef_thrown {description : String} (hthrowable : s₂.heap.Throwable base)
    (hrun : closures.run fn ys { s with heap := h } = .ok (.error description, s₂)) :
    ∃ s', { s with heap := h }.returnJSValueRef closures fn ys = .ok (.exception, s') ∧
      s'.engine = s₂.engine ∧ s'.exception = some (.object s₂.heap.objects.length) ∧
      Thrown s₂.heap base description s'.heap := by
  rcases Stage.contextThrowError_spec hthrowable description
    with ⟨s', hthrow, hengine, hexception, hthrown⟩
  refine ⟨s', ?_, hengine, hexception, hthrown⟩
  unfold Stage.returnJSValueRef
  rw [hrun]
  exact hthrow

/-- What `receive` makes of it. -/
theorem receive_exception {s' : Stage Fn Get Set} {e : ℕ}
    (hexception : s'.exception = some (.object e)) (fuel : ℕ) :
    s'.receive ext closures fuel .exception =
      match s'.heap.jsErrorInit ext fuel (.object e) with
      | .error stop => .error stop
      | .ok error => .ok (some error, [.exceptionHandler error],
          closures.exceptionHandler error { s' with exception := none }) := by
  unfold Stage.receive Stage.handlePossibleException
  dsimp only
  rw [hexception, Option.getD_some]
  cases s'.heap.jsErrorInit ext fuel (.object e) with
  | error stop => rfl
  | ok error => rfl

variable (hlookup : s.engine.context.functions.lookup f.passedMagic = some fn)
  (hsealed : s.heap.Sealed) (hlive : ∀ t ∈ args.getD [], t.Live s.heap)
  (hargs : NormalizesArgs ext s.heap (args.getD []) ys h)
  (hrun : closures.run fn ys { s with heap := h } = .ok (outcome, s₂))
include hlookup hsealed hlive hargs hrun

/-- Under the condition a call comes back as it should. -/
theorem callsBack_of_answerable (hsealed₂ : s₂.heap.Sealed)
    (hanswerable : Answerable ext args outcome s₂.heap base) :
    CallsBack ext closures fn ys s₂ (s.call ext closures f func this args) outcome := by
  have hcall := Stage.call_eq closures hlookup hsealed hlive hargs
    hanswerable.length func this
  cases outcome with
  | ok value => exact callsBack_value hcall hrun
  | error description =>
      have hscriptless := hanswerable.scriptless description rfl
      rcases returnJSValueRef_thrown hscriptless.toThrowable hrun
        with ⟨s', hreturn, hengine, hexception, hthrown⟩
      rcases (hanswerable.legible description rfl).exists_jsErrorInit hsealed₂ hscriptless hthrown
        with ⟨cause, stack, bound, hinit⟩
      rcases hcall with ⟨bound', hcall⟩
      refine ⟨cause, stack, { s' with exception := none }, max bound bound', rfl, hengine,
        fun fuel hfuel => ?_⟩
      rw [hcall fuel (le_trans (le_max_right _ _) hfuel), hreturn]
      dsimp only
      rw [receive_exception hexception, hinit fuel (le_trans (le_max_left _ _) hfuel)]

/-- And only then, if a value that the closure returns can be normalized at all. -/
theorem answerable_of_callsBack (hsealed₂ : s₂.heap.Sealed)
    (hvalue : ∀ r, outcome = .ok (some r) → ∃ y h', Normalizes ext s₂.heap r y h')
    (hscriptless : ∀ description, outcome = .error description → s₂.heap.Scriptless base)
    (hback : CallsBack ext closures fn ys s₂ (s.call ext closures f func this args) outcome) :
    Answerable ext args outcome s₂.heap base := by
  have hlength : (args.getD []).length < 2 ^ 31 := by
    by_contra hlong
    have htrap := Stage.call_trap closures hsealed hlive hargs hlong f func this
    cases outcome with
    | ok value =>
        cases value with
        | none =>
            rcases hback with ⟨bound, hback⟩
            exact absurd ((htrap bound).symm.trans (hback bound le_rfl)) nofun
        | some r =>
            rcases hvalue r rfl with ⟨y, h', hnormalizes⟩
            rcases hback y h' hnormalizes with ⟨bound, hback⟩
            exact absurd ((htrap bound).symm.trans (hback bound le_rfl)) nofun
    | error description =>
        rcases hback with ⟨_, _, _, bound, _, _, hback⟩
        exact absurd ((htrap bound).symm.trans (hback bound le_rfl)) nofun
  refine ⟨hlength, hscriptless, ?_⟩
  rintro description rfl
  have hscriptless := hscriptless description rfl
  rcases Stage.call_eq closures hlookup hsealed hlive hargs hlength func this
    with ⟨bound, hcall⟩
  rcases returnJSValueRef_thrown hscriptless.toThrowable hrun
    with ⟨s', hreturn, -, hexception, hthrown⟩
  rcases hback with ⟨cause, stack, _, bound', -, -, hback⟩
  have hrun' := (hcall (max bound bound') (le_max_left _ _)).symm.trans
    (hback (max bound bound') (le_max_right _ _))
  rw [hreturn] at hrun'
  dsimp only at hrun'
  rw [receive_exception hexception] at hrun'
  cases hinit : s'.heap.jsErrorInit ext (max bound bound') (.object s₂.heap.objects.length) with
  | error stop => simp only [hinit, reduceCtorEq] at hrun'
  | ok error =>
      simp only [hinit, Except.ok.injEq, Prod.mk.injEq, Option.some.injEq] at hrun'
      rcases hrun' with ⟨rfl, -, -⟩
      exact legible_of_jsErrorInit hsealed₂ hscriptless hthrown hinit

end Law

/-- A function that was exported under an ID below `2 ^ 15` is found when it is called. -/
theorem lookup_of_registered {e : Engine Fn Get Set} (hsound : e.Sound) {f : Built Fn Get Set}
    (hf : f ∈ e.built) {fn : Fn} (hregistered : f.registered = .function fn)
    (hid : f.tableID.toInt < 2 ^ 15) :
    e.context.functions.lookup f.function.passedMagic = some fn := by
  have hbuilt := hsound.built f hf
  have hmagic : f.function.passedMagic = f.tableID := by
    rcases hbuilt.made with ⟨name, cproto, hmade⟩
    rw [hmade]
    exact (passedMagic_eq_iff _ _ _ _ _ hbuilt.nonneg).mpr hid
  have hfound := hbuilt.found
  rw [hregistered] at hfound
  rw [hmagic]
  cases hcallback : f.function.cFunction with
  | typedCall =>
      rw [hcallback] at hfound
      rcases Option.map_eq_some_iff.mp hfound with ⟨fn', hlookup, heq⟩
      rw [hlookup, Export.function.inj heq]
  | _ =>
      rw [hcallback] at hfound
      rcases Option.map_eq_some_iff.mp hfound with ⟨_, _, heq⟩
      cases heq

/-- Texts describe themselves. -/
def Externals.texts : Externals :=
  { Externals.simple with
    jsDescription := fun
      | .string s => s
      | _ => "" }

/-- A closure that throws, and a handler that does nothing. -/
def Closures.failing (description : String) : Closures Unit Unit Unit where
  run _ _ s := .ok (.error description, s)
  exceptionHandler _ s := s

/-- One function was exported from a new engine. -/
theorem exists_oneFunction : ∃ (e : Engine Unit Unit Unit) (f : Built Unit Unit Unit),
    e.Sound ∧ f ∈ e.built ∧ f.registered = .function () ∧ f.tableID.toInt < 2 ^ 15 :=
  ⟨_, _, Engine.sound_initial.1.minors
      (Engine.exportCall_minor Engine.sound_initial.1.numbered
        (rfl : Engine.exportCall (cString "f") () _ = some _)),
    List.mem_singleton.mpr rfl, rfl, by decide⟩

theorem Heap.builtins_sealed : builtins.Sealed := by
  have h0 : builtins.Chain (some 0) [0] := Heap.Chain.cons rfl Heap.Chain.nil
  have hclosed : builtins.Closed (· < builtins.objects.length) := by
    refine Heap.closed_of_slots (fun ref href => ?_) ?_ ?_
    · have hlt : ref < 5 := href
      interval_cases ref
      · exact ⟨[0], h0, by decide⟩
      · exact ⟨[1, 0], Heap.Chain.cons rfl h0, by decide⟩
      · exact ⟨[2, 0], Heap.Chain.cons rfl h0, by decide⟩
      · exact ⟨[3, 0], Heap.Chain.cons rfl h0, by decide⟩
      · exact ⟨[4, 0], Heap.Chain.cons rfl h0, by decide⟩
    · simp only [builtins, List.forall_mem_cons, List.not_mem_nil, false_implies, implies_true,
        and_true, true_and, Property.Within, JSValue.Within, jsNewInt32, List.length_cons,
        List.length_nil]
      omega
    · simp [builtins]
  exact hclosed.isSealed (by decide) (by decide) (by decide) (by decide)

theorem Heap.errors_sealed (writable : Bool) : (Heap.errors writable).Sealed := by
  refine Heap.builtins_sealed.update (fun o => rfl) fun o ho atom v e w hown => ?_
  cases Option.some.inj ho
  simp only [JSObject.own, List.lookup_cons, List.lookup_nil] at hown
  split at hown
  · cases Option.some.inj hown
    trivial
  · split at hown
    · cases Option.some.inj hown
      trivial
    · cases hown

theorem Heap.errors_scriptless (writable : Bool) : (Heap.errors writable).Scriptless [3, 0] where
  toThrowable := Heap.errors_throwable writable
  cause := by
    cases writable with
    | true => decide +kernel
    | false => decide +kernel
  stack := by
    cases writable with
    | true => decide +kernel
    | false => decide +kernel

/-- A truth value is what it is. -/
theorem normalizesArgs_bool (ext : Externals) (h : Heap) (b : Bool) :
    NormalizesArgs ext h [.bool b] [.bool b] h :=
  NormalizesArgs.cons (y := some (.bool b)) ⟨some (jsNewBool b), 1, rfl, decode_bool 0 b⟩
    (NormalizesArgs.nil h)

theorem live_bool (h : Heap) (b : Bool) :
    ∀ t ∈ (some [JSConvertible.bool b]).getD [], t.Live h := by
  intro t ht
  rw [List.mem_singleton.mp ht]
  exact (JSConvertible.IsData.bool b).live h

/-- The engine with its one exported function. -/
def Stage.exporter (engine : Engine Unit Unit Unit) (writable : Bool) : Stage Unit Unit Unit where
  engine := engine
  heap := Heap.errors writable
  classProto _ := none

/-- After `Object.freeze(Error.prototype)` the error that comes back is called `Error`. -/
theorem not_legible_frozen (description : String) :
    ¬ Legible Externals.texts (Heap.errors false) [3, 0] description := by
  intro hlegible
  rcases hlegible.name with ⟨fuel, hname⟩
  have hshown : (Heap.errors false).shown [3, 0] "name" nativeCodeException
      = .string (JSString.ofSwift "Error") := by
    decide +kernel
  have htext : fieldText Externals.texts (Heap.errors false) 1
      (.string (JSString.ofSwift "Error")) = .ok (some "Error") := by
    unfold fieldText
    rw [decode_string]
    rfl
  rw [hshown] at hname
  have hsame := (fieldText_mono hname (le_max_left fuel 1)).symm.trans
    (fieldText_mono htext (le_max_right fuel 1))
  exact absurd hsame (by decide)

end Substrata
