import Substrata.Basis.Reduction
import Substrata.Theory.Locking

/-!
# Sections are not interrupted

Threads that use one engine through its public operations, and do not shut it down. While one of
them is in a closure of `performThreadSafe`, the others may still look at the flag, come to the
end of an operation or begin another. None of that touches the engine, and it could all have
been done before the closure began. So every run of the threads can be rearranged into one in
which no thread takes a step while another has the execution lock, with the same calls of the C
API, closures and registrations in the same order.

The only thing that is not kept is where the beginnings and ends of operations stand among the
calls. Those are notes in the trace; nothing reads them.

## Main definitions

* `Event.isNote`: The beginning and the end of an operation.
* `Native.Gated`: Code that uses the engine in sections only.
* `Native.Calls`: Code that calls public operations.
* `Machine.quiet`: A machine without notes.

## Theorems

* `PublicOperation.gated`: The public operations use the engine in sections only.
* `Machine.quiet_step`: A step does not depend on notes.
* `Machine.step_setThread`: A step does not depend on the other threads.
* `Machine.exists_aside`: What a thread can do while another has the lock.
* `Machine.reducible`: Sections can be kept together.
* `Machine.exists_serial_of_run`: Every run can be rearranged into one without interruptions.
-/

namespace Substrata

open Transition (Run Guarded Alone Reducible)
open Session (ShutdownStep)

variable {ι Fn Get Set : Type}

/-! ## Code that uses the engine in sections -/

/-- Calls, closures and registrations are in closures of `performThreadSafe` only, and nothing
    shuts the engine down. -/
def Native.Gated : Bool → Native Fn Get Set → Prop
  | _, .ret _ => True
  | inside, .js _ next => inside = true ∧ next.Gated inside
  | inside, .closure next => inside = true ∧ next.Gated inside
  | inside, .addExport _ next => inside = true ∧ next.Gated inside
  | inside, .performThreadSafe body next =>
    body.Gated true ∧ ∀ answer, (next answer).Gated inside
  | inside, .operation code next => code.Gated inside ∧ ∀ answer, (next answer).Gated inside
  | _, .shutdown _ => False

/-- Code that calls public operations one after another. What happens in them, in scripts and
    closures, does not shut the engine down. -/
def Native.Calls : Native Fn Get Set → Prop
  | .ret _ => True
  | .operation code next =>
    PublicOperation code ∧ code.Gated true ∧ ∀ answer, (next answer).Calls
  | _ => False

/-- In a section there is nothing to keep to. -/
theorem Native.Gated.inside {code : Native Fn Get Set} {inside : Bool} (h : code.Gated inside) :
    code.Gated true := by
  induction code generalizing inside with
  | ret answer => trivial
  | js name next ih => exact ⟨rfl, ih h.2⟩
  | closure next ih => exact ⟨rfl, ih h.2⟩
  | addExport entry next ih => exact ⟨rfl, ih h.2⟩
  | performThreadSafe body next ihbody ihnext => exact ⟨h.1, fun a => ihnext a (h.2 a)⟩
  | operation code next ihcode ihnext => exact ⟨ihcode h.1, fun a => ihnext a (h.2 a)⟩
  | shutdown next => exact h

theorem Native.Gated.bind {code : Native Fn Get Set} {k : Answer → Native Fn Get Set}
    {inside : Bool} (h : code.Gated inside) (hk : ∀ answer, (k answer).Gated inside) :
    (code.bind k).Gated inside := by
  induction code with
  | ret answer => exact hk answer
  | js name next ih => exact ⟨h.1, ih h.2⟩
  | closure next ih => exact ⟨h.1, ih h.2⟩
  | addExport entry next ih => exact ⟨h.1, ih h.2⟩
  | performThreadSafe body next _ ihnext => exact ⟨h.1, fun a => ihnext a (h.2 a)⟩
  | operation code next _ ihnext => exact ⟨h.1, fun a => ihnext a (h.2 a)⟩
  | shutdown next => exact h.elim

theorem Native.Gated.of_bind {code : Native Fn Get Set} {k : Answer → Native Fn Get Set}
    {inside : Bool} (h : (code.bind k).Gated inside) : code.Gated inside := by
  induction code with
  | ret answer => trivial
  | js name next ih => exact ⟨h.1, ih h.2⟩
  | closure next ih => exact ⟨h.1, ih h.2⟩
  | addExport entry next ih => exact ⟨h.1, ih h.2⟩
  | performThreadSafe body next _ ihnext => exact ⟨h.1, fun a => ihnext a (h.2 a)⟩
  | operation code next _ ihnext => exact ⟨h.1, fun a => ihnext a (h.2 a)⟩
  | shutdown next => exact h.elim

/-- Releasing values is gated. -/
theorem Native.gated_freeAll (n : ℕ) {next : Native Fn Get Set} {inside : Bool}
    (h : next.Gated inside) : (freeAll n next).Gated inside := by
  induction n with
  | zero => exact h
  | succ n ih => exact ⟨⟨rfl, trivial⟩, fun _ => ih⟩

/-- A closure, and what comes after it. -/
theorem gated_performThreadSafe {body : Native Fn Get Set}
    {next : Option Answer → Native Fn Get Set}
    (h : (Native.performThreadSafe body next).Gated true)
    (hnext : ∀ answer, (next answer).Gated true → (next answer).Gated false) :
    (Native.performThreadSafe body next).Gated false :=
  ⟨h.1, fun answer => hnext answer (h.2 answer)⟩

theorem gated_guardAlive {alive : Bool} {otherwise : Answer} {code : Native Fn Get Set}
    (h : (guardAlive alive otherwise code).Gated true)
    (hcode : code.Gated true → code.Gated false) :
    (guardAlive alive otherwise code).Gated false := by
  unfold guardAlive at h ⊢
  split_ifs at h ⊢
  · exact hcode h
  · trivial

theorem gated_value {keyPathEmpty : Bool} {script decode : Native Fn Get Set}
    (h : (JSEngine.value keyPathEmpty script decode).Gated true) :
    (JSEngine.value keyPathEmpty script decode).Gated false := by
  unfold JSEngine.value at h ⊢
  split_ifs at h ⊢
  · trivial
  · exact gated_performThreadSafe h fun _ _ => trivial

theorem gated_setValue {keyPathEmpty : Bool} {encode : Native Fn Get Set}
    {path : Option (Native Fn Get Set × Native Fn Get Set)} {result : Bool}
    (h : (JSEngine.setValue keyPathEmpty encode path result).Gated true) :
    (JSEngine.setValue keyPathEmpty encode path result).Gated false := by
  unfold JSEngine.setValue at h ⊢
  split_ifs at h ⊢
  · trivial
  · exact gated_performThreadSafe h fun _ _ => trivial

theorem gated_functionCall {context : Bool} {args : Option (Option (ℕ × Native Fn Get Set))}
    {script decode : Native Fn Get Set}
    (h : (JSFunction.call context args script decode).Gated true) :
    (JSFunction.call context args script decode).Gated false :=
  gated_guardAlive h fun h => gated_performThreadSafe h fun _ _ => trivial

/-- The public operations use the engine in sections only. -/
theorem PublicOperation.gated {code : Native Fn Get Set} (hop : PublicOperation code)
    (h : code.Gated true) : code.Gated false := by
  cases hop with
  | setLimits => exact gated_performThreadSafe h fun _ _ => trivial
  | evaluate script decode => exact gated_performThreadSafe h fun _ _ => trivial
  | value keyPathEmpty script decode => exact gated_value h
  | setValue keyPathEmpty encode path result => exact gated_setValue h
  | setSubscript keyPathEmpty encode path result =>
      exact (gated_setValue h.of_bind).bind fun _ => trivial
  | exportFunction found functionID function getFunctionName =>
      refine gated_performThreadSafe h fun answer h => ?_
      dsimp only at h ⊢
      split_ifs at h ⊢
      · trivial
      · exact gated_performThreadSafe h fun _ _ => trivial
  | exportType found classID info initDummy staticInit methods staticMethods staticProperties =>
      refine gated_performThreadSafe h fun answer h => ?_
      dsimp only at h ⊢
      split_ifs at h ⊢
      · trivial
      · exact gated_performThreadSafe h fun _ _ => trivial
  | exportInstance found typeFound classID info initDummy staticInit methods staticMethods
      staticProperties script handler getClassName result =>
      refine gated_performThreadSafe h fun answer h => ?_
      dsimp only at h ⊢
      split_ifs at h ⊢
      · exact gated_performThreadSafe h fun _ _ => trivial
      · -- The type is exported before.
        refine gated_performThreadSafe h fun answer h => ?_
        dsimp only at h ⊢
        split_ifs at h ⊢
        · exact gated_performThreadSafe h fun _ _ => trivial
        · refine gated_performThreadSafe h fun _ h => ?_
          exact gated_performThreadSafe h fun _ _ => trivial
  | perform body => exact gated_performThreadSafe h fun _ _ => trivial
  | bridgeValue engine script decode => exact gated_guardAlive h gated_value
  | bridgeSetValue engine encode script handler result => exact gated_guardAlive h gated_setValue
  | bridgeSetSubscript engine encode script handler result =>
      exact (gated_guardAlive h.of_bind gated_setValue).bind fun _ => trivial
  | classValue context decode =>
      exact gated_guardAlive h fun h => gated_performThreadSafe h fun _ _ => trivial
  | classSetValue context encode =>
      exact gated_guardAlive h fun h => gated_performThreadSafe h fun _ _ => trivial
  | classCall context methods populate functionContext args script decode =>
      unfold JSClass.call at h ⊢
      cases methods with
      | some found =>
          cases found with
          | true => exact gated_functionCall h
          | false => trivial
      | none =>
          refine gated_guardAlive h fun h => gated_performThreadSafe h fun answer h => ?_
          split_ifs at h ⊢
          · exact gated_functionCall h
          · trivial
  | classDeinit context methods =>
      exact gated_guardAlive h fun _ => Native.gated_freeAll (methods + 1) trivial
  | functionCall context args script decode => exact gated_functionCall h
  | functionDeinit context =>
      exact gated_guardAlive h fun _ => ⟨⟨rfl, trivial⟩, fun _ => trivial⟩

/-- Code that calls public operations uses the engine in sections only. -/
theorem Native.Calls.gated {code : Native Fn Get Set} (h : code.Calls) : code.Gated false := by
  induction code with
  | ret answer => trivial
  | operation code next _ ihnext => exact ⟨h.1.gated h.2.1, fun a => ihnext a (h.2.2 a)⟩
  | _ => exact h.elim

/-! ## Notes -/

/-- The beginning and the end of an operation. -/
def Event.isNote : Event → Bool
  | .called => true
  | .answered _ _ => true
  | _ => false

namespace Session

/-- A session without notes. -/
def quiet (s : Session Fn Get Set) : Session Fn Get Set :=
  { s with trace := s.trace.filter fun e => !e.isNote }

theorem quiet_emit (e : Event) (s : Session Fn Get Set) :
    (s.emit e).quiet = if e.isNote then s.quiet else s.quiet.emit e := by
  unfold quiet emit
  cases hnote : e.isNote with
  | true => simp [hnote]
  | false => simp [hnote]

theorem quiet_quiet (s : Session Fn Get Set) : s.quiet.quiet = s.quiet := by
  unfold quiet
  simp [List.filter_filter]

theorem quiet_emit_quiet (e : Event) (s : Session Fn Get Set) :
    (s.quiet.emit e).quiet = (s.emit e).quiet := by
  rw [quiet_emit, quiet_emit, quiet_quiet]

theorem quiet_addExport (entry : Entry Fn Get Set) (s : Session Fn Get Set) :
    (s.quiet.addExport entry).quiet = (s.addExport entry).quiet := by
  unfold quiet addExport
  simp [List.filter_filter]

theorem quiet_free (e : Event) (s : Session Fn Get Set) :
    (s.quiet.free e).quiet = (s.free e).quiet := by
  have hflag : s.quiet.shuttingDown = s.shuttingDown := rfl
  unfold free
  rw [hflag]
  split_ifs
  · exact quiet_quiet s
  · exact quiet_emit_quiet e s

theorem quiet_beginShutdown (s : Session Fn Get Set) :
    s.quiet.beginShutdown.quiet = s.beginShutdown.quiet := by
  have hset (s : Session Fn Get Set) :
      s.beginShutdown.quiet = { s.quiet with shuttingDown := true } := rfl
  rw [hset, hset, quiet_quiet]

theorem quiet_freeBuiltIns (names : List String) (s : Session Fn Get Set) :
    (names.foldl (fun s name => s.free (.freeBuiltIn name)) s.quiet).quiet =
      (names.foldl (fun s name => s.free (.freeBuiltIn name)) s).quiet := by
  induction names generalizing s with
  | nil => exact quiet_quiet s
  | cons name names ih =>
      rw [List.foldl_cons, List.foldl_cons, ← ih, quiet_free, ih]

theorem quiet_apply (step : ShutdownStep) (s : Session Fn Get Set) :
    (step.apply s.quiet).quiet = (step.apply s).quiet := by
  cases step with
  | freeBuiltIns =>
      have hnames := quiet_freeBuiltIns s.builtIns s
      have hset (s : Session Fn Get Set) :
          ({ s with builtIns := [] } : Session Fn Get Set).quiet = { s.quiet with builtIns := [] } :=
        rfl
      unfold ShutdownStep.apply
      rw [hset, hset]
      exact congrArg (fun s : Session Fn Get Set => { s with builtIns := [] }) hnames
  | clearOpaqueContext => exact quiet_emit_quiet _ s
  | freeGlobalRef => exact quiet_free _ s
  | freeContext => exact quiet_emit_quiet _ s
  | removeAll =>
      have hset (s : Session Fn Get Set) :
          ({ s with context := s.context.removeAll } : Session Fn Get Set).quiet =
            { s.quiet with context := s.quiet.context.removeAll } :=
        rfl
      unfold ShutdownStep.apply
      rw [hset, hset, quiet_quiet]

end Session

namespace Machine

variable [DecidableEq ι] {m m' : Machine ι Fn Get Set} {i j : ι}

omit [DecidableEq ι] in
/-- A machine without notes. -/
def quiet (m : Machine ι Fn Get Set) : Machine ι Fn Get Set :=
  { m with session := m.session.quiet }

omit [DecidableEq ι] in
theorem freed_quiet (m : Machine ι Fn Get Set) : m.quiet.freed = m.freed := by
  unfold freed quiet Session.quiet
  simp [Event.isNote]

theorem quiet_act {f : Session Fn Get Set → Session Fn Get Set}
    (hf : (f m.session.quiet).quiet = (f m.session).quiet) (next : Native Fn Get Set) :
    (m.quiet.act i f next).quiet = (m.act i f next).quiet := by
  have hfreed := freed_quiet m
  have hthreads : m.quiet.threads = m.threads := rfl
  have hsession : m.quiet.session = m.session.quiet := rfl
  unfold act
  rw [hfreed, hthreads, hsession]
  unfold quiet setThread
  dsimp only
  rw [hf]

omit [DecidableEq ι] in
theorem quiet_update {f : Session Fn Get Set → Session Fn Get Set}
    (hf : (f m.session.quiet).quiet = (f m.session).quiet) (lock : RecursiveLock ι)
    (threads : ι → Thread Fn Get Set) :
    ({ m with session := f m.session.quiet, executionLock := lock, threads := threads } :
        Machine ι Fn Get Set).quiet =
      ({ m with session := f m.session, executionLock := lock, threads := threads } :
        Machine ι Fn Get Set).quiet := by
  unfold quiet
  dsimp only
  rw [hf]

/-- A step does not depend on notes. -/
theorem quiet_step (m : Machine ι Fn Get Set) (i : ι) :
    (m.quiet.step i).map quiet = (m.step i).map quiet := by
  have hflag : m.quiet.session.shuttingDown = m.session.shuttingDown := rfl
  have hcontext : m.quiet.session.context = m.session.context := rfl
  have hthreads : m.quiet.threads = m.threads := rfl
  have hlock : m.quiet.executionLock = m.executionLock := rfl
  have hsession : m.quiet.session = m.session.quiet := rfl
  unfold step
  rw [hthreads, hflag, hlock]
  cases (m.threads i).control with
  | run code =>
      cases code with
      | ret answer =>
          cases (m.threads i).frames with
          | nil => rfl
          | cons frame frames =>
              cases frame with
              | closure next =>
                  exact congrArg some (quiet_update (f := id) (Session.quiet_quiet _) _ _)
              | operation next =>
                  exact congrArg some (quiet_update (Session.quiet_emit_quiet _ _) _ _)
      | js name next => exact congrArg some (quiet_act (Session.quiet_emit_quiet _ _) next)
      | closure next => exact congrArg some (quiet_act (Session.quiet_emit_quiet _ _) next)
      | addExport entry next => exact congrArg some (quiet_act (Session.quiet_addExport _ _) next)
      | performThreadSafe body next =>
          dsimp only
          split_ifs
          · exact congrArg some (quiet_update (f := id) (Session.quiet_quiet _) _ _)
          · exact congrArg some (quiet_update (f := id) (Session.quiet_quiet _) _ _)
      | operation code next =>
          exact congrArg some (quiet_update (Session.quiet_emit_quiet _ _) _ _)
      | shutdown next =>
          exact congrArg some
            (quiet_update (f := Session.beginShutdown) (Session.quiet_beginShutdown _) _ _)
  | acquire body next =>
      cases m.executionLock.acquire i with
      | none => rfl
      | some lock => exact congrArg some (quiet_update (f := id) (Session.quiet_quiet _) _ _)
  | acquireShutdown next =>
      cases m.executionLock.acquire i with
      | none => rfl
      | some lock => exact congrArg some (quiet_update (f := id) (Session.quiet_quiet _) _ _)
  | shutdown steps next =>
      cases steps with
      | nil => exact congrArg some (quiet_update (Session.quiet_emit_quiet _ _) _ _)
      | cons step steps => exact congrArg some (quiet_update (Session.quiet_apply step _) _ _)

/-! ## Other threads -/

theorem setThread_comm (hij : i ≠ j) (t t' : Thread Fn Get Set) (m : Machine ι Fn Get Set) :
    (m.setThread i t).setThread j t' = (m.setThread j t').setThread i t := by
  unfold setThread
  rw [Function.update_comm hij]

theorem act_setThread (hij : i ≠ j) (t : Thread Fn Get Set) (m : Machine ι Fn Get Set)
    (f : Session Fn Get Set → Session Fn Get Set) (next : Native Fn Get Set) :
    (m.setThread i t).act j f next = (m.act j f next).setThread i t := by
  have hthread : (m.setThread i t).threads j = m.threads j := Function.update_of_ne hij.symm ..
  have hfreed : (m.setThread i t).freed = m.freed := rfl
  unfold act
  rw [hthread, hfreed, setThread_comm hij]
  rfl

/-- A step does not depend on the other threads. -/
theorem step_setThread (hij : i ≠ j) (t : Thread Fn Get Set) (m : Machine ι Fn Get Set) :
    (m.setThread i t).step j = (m.step j).map (setThread i t) := by
  have hthread : (m.setThread i t).threads j = m.threads j := Function.update_of_ne hij.symm ..
  have hupdate (t' : Thread Fn Get Set) :
      Function.update (Function.update m.threads i t) j t' =
        Function.update (Function.update m.threads j t') i t := Function.update_comm hij ..
  unfold step
  rw [hthread]
  cases (m.threads j).control with
  | run code =>
      cases code with
      | ret answer =>
          cases (m.threads j).frames with
          | nil => rfl
          | cons frame frames =>
              cases frame with
              | closure next => simp [setThread, hupdate]
              | operation next => simp [setThread, hupdate]
      | performThreadSafe body next =>
          dsimp only
          by_cases hflag : m.session.shuttingDown = true
          · simp [setThread, hupdate, hflag]
          · simp [setThread, hupdate, hflag]
      | js name next => exact congrArg some (act_setThread hij t m _ _)
      | closure next => exact congrArg some (act_setThread hij t m _ _)
      | addExport entry next => exact congrArg some (act_setThread hij t m _ _)
      | operation code next => simp [setThread, hupdate]
      | shutdown next => simp [setThread, hupdate]
  | acquire body next =>
      cases hacquire : m.executionLock.acquire j with
      | none => simp [setThread, hacquire]
      | some lock => simp [setThread, hacquire, hupdate]
  | acquireShutdown next =>
      cases hacquire : m.executionLock.acquire j with
      | none => simp [setThread, hacquire]
      | some lock => simp [setThread, hacquire, hupdate]
  | shutdown steps next =>
      cases steps with
      | nil => simp [setThread, hupdate]
      | cons step steps => simp [setThread, hupdate]

/-! ## Gated threads -/

end Machine

/-- What comes after the frames of a thread is gated. -/
def GatedFrames : List (Frame Fn Get Set) → Prop
  | [] => True
  | frame :: frames =>
    (∀ answer, (frame.resume answer).Gated (frames.any Frame.isClosure)) ∧ GatedFrames frames

/-- What a thread has before it is gated. -/
def Thread.Gated (thread : Thread Fn Get Set) : Prop :=
  GatedFrames thread.frames ∧
    match thread.control with
    | .run code => code.Gated (thread.frames.any Frame.isClosure)
    | .acquire body next =>
      body.Gated true ∧ ∀ answer, (next answer).Gated (thread.frames.any Frame.isClosure)
    | .acquireShutdown _ => False
    | .shutdown _ _ => False

namespace Machine

variable [DecidableEq ι] {m m' : Machine ι Fn Get Set} {i j : ι}

/-- A step of a gated thread leaves it gated, and leaves the flag. -/
theorem gated_step (hgated : (m.threads i).Gated) (h : m.Step i m') :
    (m'.threads i).Gated ∧ m'.session.shuttingDown = m.session.shuttingDown := by
  rcases hgated with ⟨hframes, hcontrol⟩
  have hself (f : Session Fn Get Set → Session Fn Get Set) (lock : RecursiveLock ι) (late : Bool)
      (control : Control Fn Get Set) (frames : List (Frame Fn Get Set))
      (hm' : m' = { m.setThread i ⟨control, frames⟩ with
        session := f m.session, executionLock := lock, late := late })
      (hthread : Thread.Gated ⟨control, frames⟩)
      (hf : (f m.session).shuttingDown = m.session.shuttingDown) :
      (m'.threads i).Gated ∧ m'.session.shuttingDown = m.session.shuttingDown := by
    rw [hm']
    refine ⟨?_, hf⟩
    dsimp only [setThread]
    rw [Function.update_self]
    exact hthread
  unfold Step step at h
  cases hc : (m.threads i).control with
  | run code =>
      simp only [hc] at h hcontrol
      cases code with
      | ret answer =>
          cases hfs : (m.threads i).frames with
          | nil =>
              rw [hfs] at h
              cases h
          | cons frame frames =>
              rw [hfs] at h hframes
              cases frame with
              | closure next =>
                  exact hself id _ _ _ _ (Option.some.inj h).symm ⟨hframes.2, hframes.1 answer⟩ rfl
              | operation next =>
                  exact hself (Session.emit _) _ _ _ _ (Option.some.inj h).symm
                    ⟨hframes.2, hframes.1 answer⟩ rfl
      | js name next =>
          exact hself (Session.emit _) _ _ _ _ (Option.some.inj h).symm ⟨hframes, hcontrol.2⟩ rfl
      | closure next =>
          exact hself (Session.emit _) _ _ _ _ (Option.some.inj h).symm ⟨hframes, hcontrol.2⟩ rfl
      | addExport entry next =>
          exact hself (Session.addExport _) _ _ _ _ (Option.some.inj h).symm
            ⟨hframes, hcontrol.2⟩ rfl
      | performThreadSafe body next =>
          dsimp only at h
          by_cases hflag : m.session.shuttingDown = true
          · rw [if_pos hflag] at h
            exact hself id _ _ _ _ (Option.some.inj h).symm ⟨hframes, hcontrol.2 none⟩ rfl
          · rw [if_neg hflag] at h
            exact hself id _ _ _ _ (Option.some.inj h).symm ⟨hframes, hcontrol⟩ rfl
      | operation code next =>
          exact hself (Session.emit _) _ _ _ _ (Option.some.inj h).symm
            ⟨⟨hcontrol.2, hframes⟩, hcontrol.1⟩ rfl
      | shutdown next => exact hcontrol.elim
  | acquire body next =>
      simp only [hc] at h hcontrol
      rcases Option.bind_eq_some_iff.mp h with ⟨lock, -, heq⟩
      exact hself id _ _ _ _ (Option.some.inj heq).symm
        ⟨⟨fun answer => hcontrol.2 (some answer), hframes⟩, hcontrol.1⟩ rfl
  | acquireShutdown next =>
      rw [hc] at hcontrol
      exact hcontrol.elim
  | shutdown steps next =>
      rw [hc] at hcontrol
      exact hcontrol.elim

omit [DecidableEq ι] in
theorem quiet_note {e : Event} (he : e.isNote = true) (n : Machine ι Fn Get Set) :
    ({ n with session := n.session.emit e } : Machine ι Fn Get Set).quiet = n.quiet := by
  unfold quiet
  dsimp only
  rw [Session.quiet_emit, if_pos he]

/-- What a gated thread does while it is in no section and cannot get the lock does not touch the
    engine: it could do the same in every state with the same flag. -/
theorem exists_aside (hgated : (m.threads i).Gated)
    (houtside : (m.threads i).frames.any Frame.isClosure = false)
    (hwaits : m.executionLock.acquire i = none) (h : m.Step i m') :
    ∃ thread, ∀ n : Machine ι Fn Get Set, n.threads i = m.threads i →
      n.session.shuttingDown = m.session.shuttingDown →
      ∃ n', n.Step i n' ∧ n'.quiet = (n.setThread i thread).quiet := by
  rcases hgated with ⟨-, hcontrol⟩
  rw [houtside] at hcontrol
  unfold Step step at h ⊢
  cases hc : (m.threads i).control with
  | run code =>
      simp only [hc] at h hcontrol
      cases code with
      | ret answer =>
          cases hfs : (m.threads i).frames with
          | nil =>
              rw [hfs] at h
              cases h
          | cons frame frames =>
              cases frame with
              | closure next =>
                  rw [hfs, List.any_cons] at houtside
                  cases houtside
              | operation next =>
                  refine ⟨⟨.run (next answer), frames⟩, fun n hthread _ => ?_⟩
                  rw [hthread, hc, hfs]
                  exact ⟨_, rfl, quiet_note rfl (n.setThread i ⟨.run (next answer), frames⟩)⟩
      | js name next => exact absurd hcontrol.1 nofun
      | closure next => exact absurd hcontrol.1 nofun
      | addExport entry next => exact absurd hcontrol.1 nofun
      | performThreadSafe body next =>
          by_cases hflag : m.session.shuttingDown = true
          · refine ⟨⟨.run (next none), (m.threads i).frames⟩, fun n hthread hsame => ?_⟩
            rw [hthread, hc]
            exact ⟨_, if_pos (hsame.trans hflag), rfl⟩
          · refine ⟨⟨.acquire body next, (m.threads i).frames⟩, fun n hthread hsame => ?_⟩
            rw [hthread, hc]
            exact ⟨_, if_neg (hsame ▸ hflag), rfl⟩
      | operation code next =>
          refine ⟨⟨.run code, .operation next :: (m.threads i).frames⟩, fun n hthread _ => ?_⟩
          rw [hthread, hc]
          exact ⟨_, rfl, quiet_note rfl (n.setThread i ⟨.run code, _⟩)⟩
      | shutdown next => exact hcontrol.elim
  | acquire body next =>
      simp only [hc, hwaits] at h
      cases h
  | acquireShutdown next =>
      rw [hc] at hcontrol
      exact hcontrol.elim
  | shutdown steps next =>
      rw [hc] at hcontrol
      exact hcontrol.elim

/-! ## Runs without interruptions -/

/-- The thread has the execution lock. -/
def Holds (m : Machine ι Fn Get Set) (i : ι) : Prop := 0 < m.executionLock.depth i

/-- The lock is taken for sections, and all threads are gated. -/
def Disciplined (m : Machine ι Fn Get Set) : Prop := m.Accounted ∧ ∀ i, (m.threads i).Gated

theorem Disciplined.step (hm : m.Disciplined) (h : m.Step i m') : m'.Disciplined := by
  refine ⟨hm.1.step h, fun j => ?_⟩
  by_cases hj : j = i
  · exact hj ▸ (gated_step (hm.2 i) h).1
  · rw [(turn_of_step h).others j hj]
    exact hm.2 j

/-- Only its own steps take a thread into a section or out of it. -/
theorem holds_own (hm : m.Disciplined) (h : m.Step i m') (hj : j ≠ i) :
    m.Holds j ↔ m'.Holds j := by
  have hsame := (turn_of_step h).others j hj
  unfold Holds
  rw [← hm.1 j, ← (hm.step h).1 j, hsame]

/-- What another thread does while a thread is in a section, it could have done before the last
    step into or in the section. -/
theorem exists_swapped (hm : m.Disciplined) (hij : i ≠ j) (hfirst : m.Step j m')
    (hholds : m'.Holds j) {m'' : Machine ι Fn Get Set} (hnext : m'.Step i m'') :
    ∃ n n', m.Step i n ∧ n.Step j n' ∧ m''.quiet = n'.quiet := by
  have hm' := hm.step hfirst
  have hthread := (turn_of_step hfirst).others i hij
  have hflag := (gated_step (hm.2 j) hfirst).2
  have hlock : m'.executionLock.depth i = 0 := by
    by_contra hne
    exact hij (RecursiveLock.eq_of_depth (Nat.pos_of_ne_zero hne) hholds)
  have hsections := (hm'.1 i).trans hlock
  have houtside : (m'.threads i).frames.any Frame.isClosure = false := by
    unfold Thread.sections at hsections
    rw [List.any_eq_false]
    exact List.countP_eq_zero.mp (Nat.eq_zero_of_add_eq_zero_right hsections)
  rcases exists_aside (hm'.2 i) houtside (RecursiveLock.acquire_eq_none hij hholds) hnext
    with ⟨thread, haside⟩
  -- The thread does the same before the other.
  rcases haside m hthread.symm hflag.symm with ⟨n, hstep, hn⟩
  rcases haside m' rfl rfl with ⟨n'', hstep'', hn''⟩
  have hunique := Option.some.inj (hnext.symm.trans hstep'')
  have hcommute : (n.step j).map quiet = some m''.quiet := by
    rw [← quiet_step, hn, quiet_step, step_setThread hij, hfirst, hunique, hn'']
    rfl
  rcases Option.map_eq_some_iff.mp hcommute with ⟨n', hstep', hn'⟩
  exact ⟨n, n', hstep, hstep', hn'.symm⟩

/-- Sections can be kept together. -/
theorem reducible : Reducible (fun m : Machine ι Fn Get Set => m.Step)
    (fun m m' => m.quiet = m'.quiet) Holds Disciplined where
  refl _ := rfl
  trans _ _ _ h h' := h.trans h'
  follow m n i m' hsame hstep := by
    have hfollow : (n.step i).map quiet = some m'.quiet := by
      rw [← quiet_step, ← hsame, quiet_step, hstep]
      rfl
    rcases Option.map_eq_some_iff.mp hfollow with ⟨n', hstep', hn'⟩
    exact ⟨n', hstep', hn'.symm⟩
  holds m n i hsame := by
    have hlock : m.quiet.executionLock = n.quiet.executionLock := by rw [hsame]
    change m.executionLock = n.executionLock at hlock
    unfold Holds
    rw [hlock]
  step _ _ _ hm hstep := hm.step hstep
  exclusive _ _ _ _ hi hj := RecursiveLock.eq_of_depth hi hj
  own _ _ _ _ hm hstep hj := holds_own hm hstep hj
  mover _ _ _ _ _ hm hij hfirst hholds hnext := exists_swapped hm hij hfirst hholds hnext

/-- Threads that only call public operations, none of which shuts the engine down: every run can
    be rearranged into one in which no thread takes a step while another has the execution lock.
    It ends in the same state, up to where the operations begin and end in the trace. -/
theorem exists_serial_of_run {s : Session Fn Get Set} {code : ι → Native Fn Get Set}
    (hcalls : ∀ i, (code i).Calls) {schedule : List ι}
    (hrun : Run Step (start s code) schedule m) :
    ∃ schedule' m', Run (Guarded (Alone Holds) Step) (start s code) schedule' m' ∧
      m.quiet = m'.quiet ∧ schedule'.Perm schedule := by
  have hstart : (start s code).Disciplined :=
    ⟨accounted_start s code, fun i => ⟨trivial, (hcalls i).gated⟩⟩
  exact reducible.exists_serial hstart (fun i hi => absurd hi (Nat.lt_irrefl 0)) hrun

/-- Two threads that evaluate a script each. -/
def evaluates : Bool → Native ℕ Unit Unit :=
  fun _ => .operation (JSEngine.evaluate (.ret .nil) (.ret .value)) .ret

/-- The second begins while the first evaluates, and has to wait. -/
theorem exists_serial_of_run_evaluates : ∃ m : Machine Bool ℕ Unit Unit,
    Run Step (start {} evaluates) [true, true, true, true, false, false, true] m ∧
      ∃ schedule' m', Run (Guarded (Alone Holds) Step) (start {} evaluates) schedule' m' ∧
        m.quiet = m'.quiet ∧
        schedule'.Perm [true, true, true, true, false, false, true] := by
  have hfold : ∃ m, [true, true, true, true, false, false, true].foldlM step (start {} evaluates)
      = some m := ⟨_, rfl⟩
  rcases hfold with ⟨m, hfold⟩
  have hrun := run_of_foldlM hfold
  have hcalls (i : Bool) : (evaluates i).Calls :=
    ⟨.evaluate (.ret .nil) (.ret .value), ⟨⟨rfl, ⟨rfl, trivial⟩, fun _ => trivial⟩,
      fun _ => trivial⟩, fun _ => trivial⟩
  exact ⟨m, hrun, exists_serial_of_run hcalls hrun⟩

end Machine

end Substrata
