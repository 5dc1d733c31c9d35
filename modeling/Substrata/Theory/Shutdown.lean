import Substrata.Core.Native

/-!
# After an engine is shut down

`JSContext.shutdown` sets the flag first, and the gate is closed from then on. That
is what makes later operations harmless: each of them does everything it does to
the context inside the gate, so it makes no call, runs no closure and returns what
it starts with. The export tables stay as they are, which is empty, unless an
export or a construction that was under way went on adding entries after it had
been shut down from inside.

It is also why shutting down releases less than it means to. `JSValue.free` goes
through the gate as well, so the global object and the functions of `Builtins` are
never released; and `JSEngine.deinit` shuts the context down once more, whether or
not that has happened before.

## Main definitions

* `Cleared`: No entry was added after the last shutdown.
* `Quiet`: Operations after a shutdown do nothing and find the tables empty.
* `ReleasesOnce`: What was acquired is released once, and nothing follows.

## Theorems

* `Session.shutdown_eq`: What shutting down does.
* `PublicOperation.exec`: A public operation behind a closed gate.
* `Session.Kept.exec`: The flag and the tables, in any run.
* `quiet_iff_cleared`: When operations after a shutdown are quiet.
* `count_lifetime`: No release goes through the gate.
* `count_freeContext_lifetime`: How often the context is released.
* `not_releasesOnce`: No run releases everything once.
-/

namespace Substrata

variable {Fn Get Set : Type}

/-! ## Shutting down -/

namespace Session

theorem foldl_free (names : List String) {s : Session Fn Get Set} (hs : s.shuttingDown = true) :
    names.foldl (fun s name => s.free (.freeBuiltIn name)) s = s := by
  induction names with
  | nil => rfl
  | cons name names ih =>
      have hfree : s.free (.freeBuiltIn name) = s := by
        unfold free
        rw [if_pos hs]
      rw [List.foldl_cons, hfree, ih]

/-- The flag is set, so nothing but the context itself is released. -/
theorem shutdown_eq (s : Session Fn Get Set) :
    s.shutdown =
      { shuttingDown := true
        builtIns := []
        context := s.context.removeAll
        trace := s.trace ++ [.clearContextOpaque, .freeContext, .shutDown] } := by
  unfold shutdown shutdownSteps
  simp only [List.foldl_cons, List.foldl_nil, ShutdownStep.apply]
  have hbegin : s.beginShutdown.shuttingDown = true := rfl
  rw [foldl_free _ hbegin]
  simp only [beginShutdown, emit, free, if_true, List.append_assoc, List.cons_append,
    List.nil_append]

@[simp] theorem shutdown_trace (s : Session Fn Get Set) :
    s.shutdown.trace = s.trace ++ [.clearContextOpaque, .freeContext, .shutDown] := by
  rw [shutdown_eq]

end Session

/-! ## Operations behind a closed gate -/

namespace Native

theorem exec_performThreadSafe {s : Session Fn Get Set} (hs : s.shuttingDown = true)
    (body : Native Fn Get Set) (next : Option Answer → Native Fn Get Set) :
    (performThreadSafe body next).exec s = (next none).exec s := by
  rw [exec, if_pos hs]

theorem exec_free {s : Session Fn Get Set} (hs : s.shuttingDown = true)
    (next : Native Fn Get Set) : (free next).exec s = next.exec s :=
  exec_performThreadSafe hs _ _

theorem exec_freeAll {s : Session Fn Get Set} (hs : s.shuttingDown = true) (n : ℕ)
    (next : Native Fn Get Set) : (freeAll n next).exec s = next.exec s := by
  induction n with
  | zero => rfl
  | succ n ih =>
      unfold freeAll
      rw [exec_free hs, ih]

theorem exec_isExported {s : Session Fn Get Set} (hs : s.shuttingDown = true) (found : Bool)
    (next : Bool → Native Fn Get Set) :
    (JSEngine.isExported found next).exec s = (next false).exec s := by
  unfold JSEngine.isExported
  rw [exec_performThreadSafe hs, decide_eq_false (by simp only [reduceCtorEq, not_false_eq_true])]

theorem exec_bind (n : Native Fn Get Set) (k : Answer → Native Fn Get Set)
    (s : Session Fn Get Set) : (n.bind k).exec s = (k (n.exec s).2).exec (n.exec s).1 := by
  induction n generalizing s with
  | ret answer => rfl
  | js name next ih => exact ih _
  | closure next ih => exact ih _
  | addExport entry next ih => exact ih _
  | performThreadSafe body next _ ih =>
      simp only [bind, exec]
      by_cases hs : s.shuttingDown = true
      · rw [if_pos hs, if_pos hs]
        exact ih none s
      · rw [if_neg hs, if_neg hs]
        exact ih _ _
  | operation code next _ ih => exact ih _ _
  | shutdown next ih => exact ih _

end Native

open Native

/-- Exporting a type does nothing behind a closed gate. -/
theorem exec_exportType {s : Session Fn Get Set} (hs : s.shuttingDown = true) (found : Bool)
    (classID : Int32) (info : JSClassInfo) (initDummy staticInit : Native Fn Get Set)
    (methods : List (Int32 × CName)) (staticMethods : List (Int32 × Fn))
    (staticProperties : List ((Int32 × Get) × Option (Int32 × Set))) :
    (JSEngine.exportType found classID info initDummy staticInit methods staticMethods
      staticProperties).exec s = (s, .void) := by
  unfold JSEngine.exportType
  rw [exec_isExported hs, if_neg (by simp only [Bool.false_eq_true, not_false_eq_true]),
    exec_performThreadSafe hs]
  rfl

theorem exec_setValue {s : Session Fn Get Set} (hs : s.shuttingDown = true) (keyPathEmpty : Bool)
    (encode : Native Fn Get Set) (path : Option (Native Fn Get Set × Native Fn Get Set))
    (result : Bool) :
    (JSEngine.setValue keyPathEmpty encode path result).exec s = (s, .bool false) := by
  unfold JSEngine.setValue
  by_cases hempty : keyPathEmpty = true
  · rw [if_pos hempty]
    rfl
  · rw [if_neg hempty, exec_performThreadSafe hs]
    rfl

theorem exec_value {s : Session Fn Get Set} (hs : s.shuttingDown = true) (keyPathEmpty : Bool)
    (script decode : Native Fn Get Set) :
    (JSEngine.value keyPathEmpty script decode).exec s = (s, .nil) := by
  unfold JSEngine.value
  by_cases hempty : keyPathEmpty = true
  · rw [if_pos hempty]
    rfl
  · rw [if_neg hempty]
    exact exec_performThreadSafe hs _ _

theorem exec_call {s : Session Fn Get Set} (hs : s.shuttingDown = true) (context : Bool)
    (args : Option (Option (ℕ × Native Fn Get Set))) (script decode : Native Fn Get Set) :
    (JSFunction.call context args script decode).exec s = (s, .nil) := by
  unfold JSFunction.call guardAlive
  by_cases hcontext : context = true
  · rw [if_pos hcontext]
    exact exec_performThreadSafe hs _ _
  · rw [if_neg hcontext]
    rfl

/-- Without an engine or context there is nothing to do either. -/
theorem exec_guardAlive {s : Session Fn Get Set} (alive : Bool) (otherwise : Answer)
    {code : Native Fn Get Set} (hcode : code.exec s = (s, otherwise)) :
    (guardAlive alive otherwise code).exec s = (s, otherwise) := by
  unfold guardAlive
  by_cases halive : alive = true
  · rw [if_pos halive, hcode]
  · rw [if_neg halive]
    rfl

/-- Behind a closed gate a public operation changes nothing, and returns what an
    operation returns that has done nothing. -/
theorem PublicOperation.exec {code : Native Fn Get Set} (hcode : PublicOperation code)
    {s : Session Fn Get Set} (hs : s.shuttingDown = true) :
    ∃ answer, code.exec s = (s, answer) ∧ answer.isDefault = true := by
  cases hcode with
  | setLimits => exact ⟨.void, exec_performThreadSafe hs _ _, rfl⟩
  | evaluate script decode => exact ⟨.nil, exec_performThreadSafe hs _ _, rfl⟩
  | value keyPathEmpty script decode => exact ⟨.nil, exec_value hs _ _ _, rfl⟩
  | setValue keyPathEmpty encode path result =>
      exact ⟨.bool false, exec_setValue hs _ _ _ _, rfl⟩
  | setSubscript keyPathEmpty encode path result =>
      refine ⟨.void, ?_, rfl⟩
      unfold JSEngine.setSubscript
      rw [exec_bind, exec_setValue hs]
      rfl
  | exportFunction found functionID function getFunctionName =>
      refine ⟨.nil, ?_, rfl⟩
      unfold JSEngine.exportFunction
      rw [exec_isExported hs, if_neg (by simp only [Bool.false_eq_true, not_false_eq_true]),
        exec_performThreadSafe hs]
      rfl
  | exportType => exact ⟨.void, exec_exportType hs _ _ _ _ _ _ _ _, rfl⟩
  | exportInstance =>
      refine ⟨.nil, ?_, rfl⟩
      unfold JSEngine.exportInstance
      rw [exec_isExported hs, if_neg (by simp only [Bool.false_eq_true, not_false_eq_true]),
        exec_bind, exec_exportType hs, exec_performThreadSafe hs]
      rfl
  | perform body => exact ⟨.void, exec_performThreadSafe hs _ _, rfl⟩
  | bridgeValue engine script decode =>
      exact ⟨.nil, exec_guardAlive engine .nil (exec_value hs _ _ _), rfl⟩
  | bridgeSetValue engine encode script handler result =>
      exact ⟨.bool false, exec_guardAlive engine (.bool false) (exec_setValue hs _ _ _ _), rfl⟩
  | bridgeSetSubscript engine encode script handler result =>
      refine ⟨.void, ?_, rfl⟩
      unfold JSDataBridge.setSubscript JSDataBridge.setValue
      rw [exec_bind, exec_guardAlive engine (.bool false) (exec_setValue hs _ _ _ _)]
      rfl
  | classValue context decode =>
      exact ⟨.nil, exec_guardAlive context .nil (exec_performThreadSafe hs _ _), rfl⟩
  | classSetValue context encode =>
      exact ⟨.void, exec_guardAlive context .void (exec_performThreadSafe hs _ _), rfl⟩
  | classCall context methods populate functionContext args script decode =>
      refine ⟨.nil, ?_, rfl⟩
      unfold JSClass.call
      cases methods with
      | some found =>
          -- the table was cached, and the call of the function is gated itself
          by_cases hfound : found = true
          · simp only [if_pos hfound, exec_call hs]
          · simp only [if_neg hfound]
            rfl
      | none => exact exec_guardAlive context .nil (exec_performThreadSafe hs _ _)
  | classDeinit context methods =>
      exact ⟨.void, exec_guardAlive context .void (exec_freeAll hs _ _), rfl⟩
  | functionCall context args script decode => exact ⟨.nil, exec_call hs _ _ _ _, rfl⟩
  | functionDeinit context => exact ⟨.void, exec_guardAlive context .void (exec_free hs _), rfl⟩

/-! ## What every run keeps -/

/-- Every entry was added before the last shutdown. -/
def Cleared (trace : List Event) : Prop :=
  ∀ before after, trace = before ++ .addExport :: after → .shutDown ∈ after

theorem cleared_nil : Cleared [] := by
  intro before after h
  simp only [List.nil_eq, List.append_eq_nil_iff, reduceCtorEq, and_false] at h

/-- What the last event says. -/
theorem cleared_concat (trace : List Event) (event : Event) :
    Cleared (trace ++ [event]) ↔
      event ≠ .addExport ∧ (event = .shutDown ∨ Cleared trace) := by
  constructor
  · intro h
    refine ⟨fun heq => ?_, ?_⟩
    · have hmem := h trace [] (by rw [heq])
      exact List.not_mem_nil hmem
    · by_cases hevent : event = .shutDown
      · exact Or.inl hevent
      · refine Or.inr fun before after htrace => ?_
        have hmem := h before (after ++ [event]) (by rw [htrace, List.append_assoc]; rfl)
        rcases List.mem_append.mp hmem with hmem | hmem
        · exact hmem
        · exact absurd (List.mem_singleton.mp hmem).symm hevent
  · rintro ⟨hne, hor⟩ before after htrace
    rcases List.eq_nil_or_concat after with rfl | ⟨after, last, rfl⟩
    · rcases List.append_inj' htrace rfl with ⟨_, hlast⟩
      exact absurd (List.cons.inj hlast).1 hne
    · rw [List.concat_eq_append] at htrace ⊢
      rw [← List.cons_append, ← List.append_assoc] at htrace
      rcases List.append_inj' htrace rfl with ⟨hinit, hlast⟩
      rw [← (List.cons.inj hlast).1]
      rcases hor with hshut | hcleared
      · exact List.mem_append_right _ (List.mem_singleton.mpr hshut.symm)
      · exact List.mem_append_left _ (hcleared before after hinit)

namespace JSContext

theorem isEmpty_removeAll (c : JSContext Fn Get Set) : c.removeAll.isEmpty = true := by
  unfold isEmpty removeAll
  simp only [Finmap.keys_empty, and_self, decide_true]

theorem keys_insertNew_ne {κ ν : Type} [DecidableEq κ] (d : Dict κ ν) (k : κ) (v : ν) :
    (d.insertNew k v).keys ≠ ∅ := by
  refine Finset.ne_empty_of_mem (a := k) ?_
  rw [Finmap.mem_keys, ← Finmap.lookup_isSome]
  unfold Dict.insertNew
  by_cases hk : (d.lookup k).isSome
  · rwa [if_pos hk]
  · rw [if_neg hk, Dict.lookup_insert, if_pos rfl]
    rfl

theorem isEmpty_addExport (c : JSContext Fn Get Set) (entry : Entry Fn Get Set) :
    (c.addExport entry).isEmpty = false := by
  unfold isEmpty
  rw [decide_eq_false_iff_not]
  rintro ⟨hclasses, hfunctions, hgetters, hsetters, hmethods⟩
  cases entry with
  | function functionID value => exact keys_insertNew_ne _ _ _ hfunctions
  | getter propertyID value => exact keys_insertNew_ne _ _ _ hgetters
  | setter propertyID value => exact keys_insertNew_ne _ _ _ hsetters
  | constructor classID value => exact keys_insertNew_ne _ _ _ hclasses
  | method methodID name =>
      have hmem : methodID ∈ (c.methodIDs.insert methodID name).keys := by
        rw [Finmap.mem_keys, Finmap.mem_insert]
        exact Or.inl rfl
      exact absurd hmethods (Finset.ne_empty_of_mem hmem)

end JSContext

namespace Session

/-- The flag is set once the engine is shut down, and the tables are empty when no
    entry was added since. -/
structure Kept (s : Session Fn Get Set) : Prop where
  flag : .shutDown ∈ s.trace → s.shuttingDown = true
  tables : s.context.isEmpty = true ↔ Cleared s.trace

/-- An event that is neither the end of a shutdown nor a new entry. -/
theorem Kept.emit {s : Session Fn Get Set} (hs : s.Kept) {event : Event}
    (hshut : event ≠ .shutDown) (hadd : event ≠ .addExport) : (s.emit event).Kept := by
  refine ⟨fun hmem => ?_, ?_⟩
  · rcases List.mem_append.mp hmem with hmem | hmem
    · exact hs.flag hmem
    · exact absurd (List.mem_singleton.mp hmem).symm hshut
  · show s.context.isEmpty = true ↔ Cleared (s.trace ++ [event])
    rw [cleared_concat, hs.tables]
    exact ⟨fun h => ⟨hadd, Or.inr h⟩, fun h => h.2.resolve_left hshut⟩

theorem Kept.addExport {s : Session Fn Get Set} (hs : s.Kept) (entry : Entry Fn Get Set) :
    (s.addExport entry).Kept := by
  refine ⟨fun hmem => ?_, ?_⟩
  · rcases List.mem_append.mp hmem with hmem | hmem
    · exact hs.flag hmem
    · simp only [List.mem_singleton, reduceCtorEq] at hmem
  · show (s.context.addExport entry).isEmpty = true ↔ Cleared (s.trace ++ [.addExport])
    rw [JSContext.isEmpty_addExport, cleared_concat]
    simp only [Bool.false_eq_true, ne_eq, not_true_eq_false, false_and]

theorem kept_shutdown (s : Session Fn Get Set) : s.shutdown.Kept := by
  rw [shutdown_eq]
  refine ⟨fun _ => rfl, ?_⟩
  have hevents : s.trace ++ [.clearContextOpaque, .freeContext, .shutDown] =
      (s.trace ++ [.clearContextOpaque, .freeContext]) ++ [.shutDown] := by
    rw [List.append_assoc]
    rfl
  show s.context.removeAll.isEmpty = true ↔ Cleared _
  rw [hevents, cleared_concat, JSContext.isEmpty_removeAll]
  simp only [ne_eq, reduceCtorEq, not_false_eq_true, true_or, and_self]

end Session

/-! ## Quiet operations -/

/-- After a shutdown each operation is answered before anything else happens, with
    nothing in it, and with the tables empty. -/
def Quiet (trace : List Event) : Prop :=
  ∀ before after, trace = before ++ .called :: after → .shutDown ∈ before →
    ∃ answer rest, after = .answered answer true :: rest ∧ answer.isDefault = true

/-- How each operation after a shutdown goes, in what happens after `past`. -/
def Answers (past : List Event) : List Event → Prop
  | [] => True
  | event :: rest =>
    (event = .called → .shutDown ∈ past → ∃ answer empty rest',
      rest = .answered answer empty :: rest' ∧ answer.isDefault = true ∧
        (empty = true ↔ Cleared past)) ∧ Answers (past ++ [event]) rest

theorem Answers.append {past t₁ t₂ : List Event} (h₁ : Answers past t₁)
    (h₂ : Answers (past ++ t₁) t₂) : Answers past (t₁ ++ t₂) := by
  induction t₁ generalizing past with
  | nil => rwa [List.append_nil] at h₂
  | cons event rest ih =>
      refine ⟨fun hcalled hshut => ?_, ih h₁.2 (by rwa [List.append_assoc])⟩
      rcases h₁.1 hcalled hshut with ⟨answer, empty, rest', rfl, hdefault, hempty⟩
      exact ⟨answer, empty, rest' ++ t₂, rfl, hdefault, hempty⟩

theorem answers_singleton (past : List Event) {event : Event} (hevent : event ≠ .called) :
    Answers past [event] :=
  ⟨fun hcalled => absurd hcalled hevent, trivial⟩

theorem Answers.of_mem {past before after : List Event}
    (h : Answers past (before ++ .called :: after)) (hshut : .shutDown ∈ past ++ before) :
    ∃ answer empty rest, after = .answered answer empty :: rest ∧ answer.isDefault = true ∧
      (empty = true ↔ Cleared (past ++ before)) := by
  induction before generalizing past with
  | nil =>
      rw [List.append_nil] at hshut ⊢
      exact h.1 rfl hshut
  | cons event before ih =>
      have hsplit : past ++ event :: before = past ++ [event] ++ before := by
        rw [List.append_assoc]
        rfl
      rw [hsplit] at hshut ⊢
      exact ih h.2 hshut

/-- A run goes on from a session as the invariant and the operations want it. -/
structure Native.Goes (s t : Session Fn Get Set) : Prop where
  kept : t.Kept
  answers : ∃ rest, t.trace = s.trace ++ rest ∧ Answers s.trace rest

theorem Native.Goes.trans {s t u : Session Fn Get Set} (h₁ : Goes s t) (h₂ : Goes t u) :
    Goes s u := by
  rcases h₁.answers with ⟨rest₁, ht, hrest₁⟩
  rcases h₂.answers with ⟨rest₂, hu, hrest₂⟩
  refine ⟨h₂.kept, rest₁ ++ rest₂, ?_, hrest₁.append (ht ▸ hrest₂)⟩
  rw [hu, ht, List.append_assoc]

/-- An event that is no shutdown, no new entry and no operation. -/
def Event.isPlain : Event → Bool
  | .shutDown => false
  | .addExport => false
  | .called => false
  | _ => true

theorem Native.Goes.emit {s : Session Fn Get Set} (hs : s.Kept) (event : Event)
    (hplain : event.isPlain = true) : Goes s (s.emit event) := by
  have hne (other : Event) (hother : other.isPlain = false) : event ≠ other := by
    intro heq
    rw [heq, hother] at hplain
    simp only [Bool.false_eq_true] at hplain
  exact ⟨hs.emit (hne _ rfl) (hne _ rfl), [event], rfl, answers_singleton _ (hne _ rfl)⟩

/-- In any run of native code the flag and the tables are as they should be, and
    operations after a shutdown are answered at once. -/
theorem Native.Uses.goes {n : Native Fn Get Set} (hn : n.Uses) {s : Session Fn Get Set}
    (hs : s.Kept) : Goes s (n.exec s).1 := by
  induction n generalizing s with
  | ret answer => exact ⟨hs, [], (List.append_nil _).symm, trivial⟩
  | js name next ih =>
      have hfirst : Goes s (s.emit (.js name)) := Goes.emit hs _ rfl
      exact hfirst.trans (ih hn hfirst.kept)
  | closure next ih =>
      have hfirst : Goes s (s.emit .closure) := Goes.emit hs _ rfl
      exact hfirst.trans (ih hn hfirst.kept)
  | addExport entry next ih =>
      have hfirst : Goes s (s.addExport entry) := ⟨hs.addExport entry, [.addExport], rfl,
        answers_singleton _ (by simp only [ne_eq, reduceCtorEq, not_false_eq_true])⟩
      exact hfirst.trans (ih hn hfirst.kept)
  | performThreadSafe body next ihbody ihnext =>
      rw [exec]
      by_cases hflag : s.shuttingDown = true
      · rw [if_pos hflag]
        exact ihnext none (hn.2 none) hs
      · rw [if_neg hflag]
        have hbody := ihbody hn.1 hs
        exact hbody.trans (ihnext _ (hn.2 _) hbody.kept)
  | operation code next ihcode ihnext =>
      rw [exec]
      have hanswered {t : Session Fn Get Set} (ht : t.Kept) (answer : Answer) :
          Goes t (t.emit (.answered answer t.context.isEmpty)) := Goes.emit ht _ rfl
      have hcalled : (s.emit .called).Kept := hs.emit
        (by simp only [ne_eq, reduceCtorEq, not_false_eq_true])
        (by simp only [ne_eq, reduceCtorEq, not_false_eq_true])
      have hcode := ihcode hn.2.1 hcalled
      have hrest := hcode.trans (hanswered hcode.kept (code.exec (s.emit .called)).2)
      have hnext := ihnext (code.exec (s.emit .called)).2 (hn.2.2 _) hrest.kept
      have hoperation : Goes s
          ((code.exec (s.emit .called)).1.emit (.answered (code.exec (s.emit .called)).2
            (code.exec (s.emit .called)).1.context.isEmpty)) := by
        refine ⟨hrest.kept, ?_⟩
        rcases hrest.answers with ⟨rest, htrace, hanswers⟩
        refine ⟨.called :: rest, ?_, fun _ hshut => ?_, hanswers⟩
        · rw [htrace]
          exact List.append_assoc ..
        · -- The gate is closed, so the code has done nothing.
          rcases hn.1.exec (s := s.emit .called) (hs.flag hshut) with ⟨answer, hexec, hdefault⟩
          rw [hexec] at htrace
          refine ⟨answer, s.context.isEmpty, [], ?_, hdefault, hs.tables⟩
          exact (List.append_cancel_left htrace).symm
      exact hoperation.trans hnext
  | shutdown next ih =>
      have hfirst : Goes s s.shutdown := by
        refine ⟨s.kept_shutdown, _, s.shutdown_trace, ?_⟩
        exact ⟨nofun, nofun, nofun, trivial⟩
      exact hfirst.trans (ih hn hfirst.kept)

/-! ## Runs of an engine -/

theorem kept_empty : ({} : Session Fn Get Set).Kept := by
  refine ⟨fun hmem => absurd hmem List.not_mem_nil, ?_⟩
  have hempty : ({} : Session Fn Get Set).context.isEmpty = true := by
    simp only [JSContext.isEmpty, Finmap.keys_empty, and_self, decide_true]
  rw [hempty]
  exact ⟨fun _ => cleared_nil, fun _ => rfl⟩

/-- An engine that is set up, and native code that uses it. -/
theorem goes_program {setup program : Native Fn Get Set} (hsetup : setup.Uses)
    (hprogram : program.Uses) (builtIns : List String) :
    Goes {} (program.exec (JSEngine.init setup builtIns)).1 := by
  have hstart : Goes ({} : Session Fn Get Set)
      ((JSEngine.newSession.emit (.js .setMaxStackSize)).emit (.js .setMemoryLimit)) := by
    have h₀ : ({} : Session Fn Get Set).Kept := kept_empty
    have h₁ := Goes.emit h₀ .newRuntime rfl
    have h₂ := h₁.trans (Goes.emit h₁.kept .newContext rfl)
    have h₃ := h₂.trans (Goes.emit h₂.kept .getGlobalObject rfl)
    have h₄ := h₃.trans (Goes.emit h₃.kept .setContextOpaque rfl)
    have h₅ := h₄.trans (Goes.emit h₄.kept (.js .setMaxStackSize) rfl)
    exact h₅.trans (Goes.emit h₅.kept (.js .setMemoryLimit) rfl)
  have hset := hstart.trans (hsetup.goes hstart.kept)
  have hinit : Goes ({} : Session Fn Get Set) (JSEngine.init setup builtIns) :=
    ⟨⟨hset.kept.flag, hset.kept.tables⟩, hset.answers⟩
  exact hinit.trans (hprogram.goes hinit.kept)

/-- Whatever native code does on an engine, operations after a shutdown are quiet
    exactly when each finds that no entry was added since the last one. -/
theorem quiet_iff_cleared {setup program : Native Fn Get Set} (hsetup : setup.Uses)
    (hprogram : program.Uses) (builtIns : List String) :
    Quiet (program.exec (JSEngine.init setup builtIns)).1.trace ↔
      ∀ before after, (program.exec (JSEngine.init setup builtIns)).1.trace =
        before ++ .called :: after → .shutDown ∈ before → Cleared before := by
  have hanswers : Answers [] (program.exec (JSEngine.init setup builtIns)).1.trace := by
    rcases (goes_program hsetup hprogram builtIns).answers with ⟨rest, htrace, hrest⟩
    rw [htrace]
    exact hrest
  constructor
  · intro hquiet before after htrace hshut
    rcases hquiet before after htrace hshut with ⟨answer, rest, hafter, _⟩
    rw [htrace] at hanswers
    rcases hanswers.of_mem hshut with ⟨answer', empty, rest', hafter', _, hempty⟩
    rw [hafter, List.cons.injEq, Event.answered.injEq] at hafter'
    exact hempty.mp hafter'.1.2.symm
  · intro hcleared before after htrace hshut
    have hbefore := hcleared before after htrace hshut
    rw [htrace] at hanswers
    rcases hanswers.of_mem hshut with ⟨answer, empty, rest, hafter, hdefault, hempty⟩
    exact ⟨answer, rest, hempty.mpr hbefore ▸ hafter, hdefault⟩

/-- An engine is shut down and asked for a value. -/
def shutThenRead : Native ℕ Unit Unit :=
  .shutdown (.operation (JSEngine.value false (.ret .value) (.ret .value)) .ret)

theorem shutThenRead_uses : shutThenRead.Uses :=
  ⟨PublicOperation.value .., ⟨⟨trivial, fun _ => trivial⟩, fun _ => trivial⟩, fun _ => trivial⟩

theorem quiet_iff_cleared_value :
    Quiet (shutThenRead.exec (JSEngine.init (.ret .void) [])).1.trace ↔
      ∀ before after, (shutThenRead.exec (JSEngine.init (.ret .void) [])).1.trace =
        before ++ .called :: after → .shutDown ∈ before → Cleared before := by
  have hsetup : (Native.ret .void : Native ℕ Unit Unit).Uses := trivial
  exact quiet_iff_cleared hsetup shutThenRead_uses []

/-- A class whose `staticInit` shuts the engine down is exported with one static
    method, and another operation follows. -/
def exportShutting : Native ℕ Unit Unit :=
  .operation
    (JSEngine.exportType false 0 { name := cString "T", type := .subclass 0, classID := 61 }
      (.ret .void) (.shutdown (.ret .void)) [] [(0, 0)] [])
    fun _ => .operation JSEngine.setLimits .ret

theorem exportShutting_uses : exportShutting.Uses := by
  refine ⟨PublicOperation.exportType .., ⟨trivial, fun answer => ?_⟩,
    fun _ => ⟨PublicOperation.setLimits, ⟨trivial, fun _ => trivial⟩, fun _ => trivial⟩⟩
  by_cases hfound : decide (answer = some (.bool true)) = true
  · simp only [hfound, if_true]
    trivial
  · simp only [hfound]
    exact ⟨trivial, fun _ => trivial⟩

/-- The method is added to the tables after the shutdown, and the next operation
    finds it there. -/
theorem exists_not_quiet :
    ∃ setup program : Native ℕ Unit Unit, setup.Uses ∧ program.Uses ∧
      ¬ Quiet (program.exec (JSEngine.init setup [])).1.trace := by
  refine ⟨.ret .void, exportShutting, trivial, exportShutting_uses, fun hquiet => ?_⟩
  have htrace : (exportShutting.exec (JSEngine.init (.ret .void) [])).1.trace =
      [.newRuntime, .newContext, .getGlobalObject, .setContextOpaque, .js .setMaxStackSize,
        .js .setMemoryLimit, .called, .js .newAtom, .js .hasProperty, .js .freeAtom,
        .js .newClassID, .js .newClass, .addExport, .js .newObject, .js .newCFunctionMagic,
        .js .definePropertyValueStr, .js .setConstructor, .js .setClassProto,
        .clearContextOpaque, .freeContext, .shutDown, .js .newCFunctionMagic, .addExport,
        .js .setPropertyStr, .answered .void false] ++ .called :: [.answered .void false] := by
    rfl
  rcases hquiet _ _ htrace (by decide) with ⟨answer, rest, hafter, _⟩
  simp only [List.cons.injEq, Event.answered.injEq, Bool.false_eq_true, and_false,
    false_and] at hafter

/-! ## What is released -/

/-- Before the runtime is freed, the context, the global object and the functions of
    `Builtins` are released once each, and the context is not used after its
    release. -/
structure ReleasesOnce (builtIns : List String) (trace : List Event) : Prop where
  freeContext : trace.count .freeContext = 1
  freeGlobalRef : trace.count .freeGlobalRef = 1
  freeBuiltIn : ∀ name ∈ builtIns, trace.count (.freeBuiltIn name) = 1
  last : ∀ before after, trace = before ++ .freeContext :: after →
    ∀ event ∈ after, event.onContext = false
  beforeRuntime : ∀ before after, trace = before ++ .freeRuntime :: after →
    ∀ event ∈ after, event.onContext = false

theorem count_emit {event other : Event} (hne : other ≠ event) (s : Session Fn Get Set) :
    (s.emit other).trace.count event = s.trace.count event := by
  show (s.trace ++ [other]).count event = _
  rw [List.count_append, List.count_singleton, if_neg (by simpa only [beq_iff_eq] using hne),
    add_zero]

/-- The releases that go through the gate. -/
def Event.isGated : Event → Bool
  | .freeGlobalRef => true
  | .freeBuiltIn _ => true
  | _ => false

/-- Native code makes no release that goes through the gate: only shutting down would,
    and then the gate is closed. -/
theorem count_exec {event : Event} (hevent : event.isGated = true) (n : Native Fn Get Set)
    (s : Session Fn Get Set) : (n.exec s).1.trace.count event = s.trace.count event := by
  have hne (other : Event) (hother : other.isGated = false) : other ≠ event := by
    intro heq
    rw [heq, hevent] at hother
    simp only [Bool.true_eq_false] at hother
  induction n generalizing s with
  | ret answer => rfl
  | js name next ih => exact (ih _).trans (count_emit (hne _ rfl) s)
  | closure next ih => exact (ih _).trans (count_emit (hne _ rfl) s)
  | addExport entry next ih => exact (ih _).trans (count_emit (hne .addExport rfl) s)
  | performThreadSafe body next ihbody ihnext =>
      rw [exec]
      by_cases hflag : s.shuttingDown = true
      · rw [if_pos hflag]
        exact ihnext none s
      · rw [if_neg hflag]
        exact (ihnext _ _).trans (ihbody s)
  | operation code next ihcode ihnext =>
      rw [exec]
      exact (ihnext _ _).trans ((count_emit (hne _ rfl) _).trans
        ((ihcode _).trans (count_emit (hne _ rfl) s)))
  | shutdown next ih =>
      refine (ih _).trans ?_
      rw [Session.shutdown_trace, List.count_append]
      have hzero : [Event.clearContextOpaque, .freeContext, .shutDown].count event = 0 := by
        refine List.count_eq_zero.mpr fun hmem => ?_
        simp only [List.mem_cons, List.not_mem_nil, or_false] at hmem
        rcases hmem with heq | heq | heq
        · exact hne _ rfl heq.symm
        · exact hne _ rfl heq.symm
        · exact hne _ rfl heq.symm
      rw [hzero, add_zero]

/-- From beginning to end no such release is made. -/
theorem count_lifetime {event : Event} (hevent : event.isGated = true)
    (setup : Native Fn Get Set) (builtIns : List String) (program : Native Fn Get Set) :
    (JSEngine.lifetime setup builtIns program).count event = 0 := by
  have hinit : (JSEngine.init setup builtIns).trace.count event = 0 := by
    refine (count_exec hevent setup _).trans ?_
    refine List.count_eq_zero.mpr fun hmem => ?_
    simp only [JSEngine.newSession, Session.emit, List.mem_append, List.mem_cons,
      List.not_mem_nil, or_false] at hmem
    rcases hmem with (((rfl | rfl | rfl | rfl) | rfl) | rfl) <;> exact absurd hevent (by decide)
  have hshutdown := count_exec hevent (.shutdown (.ret .void)) (program.exec
    (JSEngine.init setup builtIns)).1
  have hruntime : Event.freeRuntime ≠ event := by
    intro heq
    rw [← heq] at hevent
    simp only [Event.isGated, Bool.false_eq_true] at hevent
  refine (count_emit hruntime _).trans (hshutdown.trans ?_)
  rw [count_exec hevent, hinit]

/-- No run of an engine releases the global object, so none releases everything
    once. -/
theorem not_releasesOnce (setup : Native Fn Get Set) (builtIns : List String)
    (program : Native Fn Get Set) :
    ¬ ReleasesOnce builtIns (JSEngine.lifetime setup builtIns program) := by
  intro h
  have hgated : Event.freeGlobalRef.isGated = true := rfl
  have hzero := count_lifetime hgated setup builtIns program
  rw [h.freeGlobalRef] at hzero
  simp only [one_ne_zero] at hzero

/-- The context is released as often as it is shut down. -/
theorem count_freeContext (n : Native Fn Get Set) {s : Session Fn Get Set}
    (hs : s.trace.count .freeContext = s.trace.count .shutDown) :
    (n.exec s).1.trace.count .freeContext = (n.exec s).1.trace.count .shutDown := by
  have hkeep (event : Event) (hcontext : event ≠ .freeContext) (hshut : event ≠ .shutDown)
      {t : Session Fn Get Set} (ht : t.trace.count .freeContext = t.trace.count .shutDown) :
      (t.emit event).trace.count .freeContext = (t.emit event).trace.count .shutDown := by
    rw [count_emit hcontext, count_emit hshut, ht]
  induction n generalizing s with
  | ret answer => exact hs
  | js name next ih => exact ih (hkeep (.js name) nofun nofun hs)
  | closure next ih => exact ih (hkeep .closure nofun nofun hs)
  | addExport entry next ih => exact ih (hkeep .addExport nofun nofun hs)
  | performThreadSafe body next ihbody ihnext =>
      rw [exec]
      by_cases hflag : s.shuttingDown = true
      · rw [if_pos hflag]
        exact ihnext none hs
      · rw [if_neg hflag]
        exact ihnext _ (ihbody hs)
  | operation code next ihcode ihnext =>
      rw [exec]
      exact ihnext _ (hkeep (.answered _ _) nofun nofun (ihcode (hkeep .called nofun nofun hs)))
  | shutdown next ih =>
      refine ih ?_
      rw [Session.shutdown_trace, List.count_append, List.count_append, hs]
      rfl

/-- `deinit` shuts the context down whether or not that has happened before: the
    context is released once more than the engine was shut down. -/
theorem count_freeContext_lifetime {setup program : Native Fn Get Set}
    (builtIns : List String) :
    (JSEngine.lifetime setup builtIns program).count .freeContext =
      (program.exec (JSEngine.init setup builtIns)).1.trace.count .shutDown + 1 := by
  have hinit := count_freeContext setup (s := ((JSEngine.newSession : Session Fn Get Set).emit
    (.js .setMaxStackSize)).emit (.js .setMemoryLimit)) rfl
  have hprogram := count_freeContext program (s := JSEngine.init setup builtIns) hinit
  show ((program.exec (JSEngine.init setup builtIns)).1.shutdown.emit .freeRuntime).trace.count
    .freeContext = _
  have hruntime : Event.freeRuntime ≠ .freeContext := nofun
  rw [count_emit hruntime, Session.shutdown_trace, List.count_append, hprogram]
  rfl

/-- An engine that is made and let go. -/
theorem exists_not_releasesOnce :
    ∃ (setup : Native ℕ Unit Unit) (builtIns : List String) (program : Native ℕ Unit Unit),
      ¬ ReleasesOnce builtIns (JSEngine.lifetime setup builtIns program) := by
  refine ⟨.ret .void, ["_getInstanceMethodNames"], .ret .void, fun h => ?_⟩
  have htrace : (JSEngine.lifetime (.ret .void) ["_getInstanceMethodNames"]
      (.ret .void : Native ℕ Unit Unit)) =
        [.newRuntime, .newContext, .getGlobalObject, .setContextOpaque, .js .setMaxStackSize,
          .js .setMemoryLimit, .clearContextOpaque, .freeContext, .shutDown, .freeRuntime] := rfl
  have hone := h.freeGlobalRef
  rw [htrace] at hone
  exact absurd hone (by decide)

end Substrata
