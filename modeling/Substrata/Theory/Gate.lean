import Substrata.Core.Threads
import Substrata.Theory.Shutdown

/-!
# Closures after the context is released

`performThreadSafe` looks at the flag before it waits for the execution lock, and
not again afterwards. So a thread can be past the check when another shuts the
engine down, and its closure then runs on a context that has been released. The
lock is recursive besides: a closure may itself shut the engine down, and what is
left of it runs after that.

Behind the closed gate a piece of native code has only one way to go, and `idle`
follows it: the code makes a step, or comes to an answer without one. A thread is
settled when what it has begun inside of closures makes no step any more. If every
thread is settled whenever the context is released, no closure takes a step
afterwards.

## Main definitions

* `Native.idle`: What code comes to behind the closed gate.
* `Thread.settled`: A thread with no step left in a closure.
* `Machine.ReleasesSettled`: All threads are settled when the context is released.

## Theorems

* `Machine.Closed.step`: Settled threads stay settled.
* `not_late_of_run_settled`: Then no closure takes a step on a released context.
-/

namespace Substrata

open Transition (Run Guarded)
open Session (ShutdownStep)

variable {ι Fn Get Set : Type}

/-! ## Settled threads -/

/-- What code comes to behind the closed gate, if it makes no step. -/
def Native.idle : Native Fn Get Set → Option Answer
  | .ret answer => some answer
  | .js _ _ => none
  | .closure _ => none
  | .addExport _ _ => none
  | .performThreadSafe _ next => (next none).idle
  | .operation code next =>
    match code.idle with
    | none => none
    | some answer => (next answer).idle
  | .shutdown next => next.idle

/-- Code that is run with frames below it makes no step before it has left the last
    closure among them. -/
def settled : List (Frame Fn Get Set) → Native Fn Get Set → Bool
  | [], _ => true
  | frame :: frames, code =>
    if (frame :: frames).any Frame.isClosure then
      match code.idle with
      | none => false
      | some answer => settled frames (frame.resume answer)
    else true

/-- A thread has no step left in a closure. -/
def Thread.settled (thread : Thread Fn Get Set) : Bool :=
  match thread.control with
  | .run code => Substrata.settled thread.frames code
  | .acquire body next => Substrata.settled (.closure next :: thread.frames) body
  | .acquireShutdown next => Substrata.settled thread.frames next
  | .shutdown _ next => Substrata.settled thread.frames next

/-- Only what the code comes to matters. -/
theorem settled_congr (frames : List (Frame Fn Get Set)) {code code' : Native Fn Get Set}
    (h : code.idle = code'.idle) : settled frames code = settled frames code' := by
  cases frames with
  | nil => rfl
  | cons frame frames => simp only [settled, h]

/-- Outside of closures there is nothing to settle. -/
theorem settled_of_outside {frames : List (Frame Fn Get Set)}
    (h : frames.any Frame.isClosure = false) (code : Native Fn Get Set) :
    settled frames code = true := by
  cases frames with
  | nil => rfl
  | cons frame frames =>
      unfold settled
      rw [if_neg (by simp only [h, Bool.false_eq_true, not_false_eq_true])]

/-- Code that makes a step is not settled inside of a closure. -/
theorem outside_of_settled {frames : List (Frame Fn Get Set)} {code : Native Fn Get Set}
    (hidle : code.idle = none) (h : settled frames code = true) :
    frames.any Frame.isClosure = false := by
  cases frames with
  | nil => rfl
  | cons frame frames =>
      unfold settled at h
      by_cases hany : (frame :: frames).any Frame.isClosure = true
      · rw [if_pos hany, hidle] at h
        simp only [Bool.false_eq_true] at h
      · exact Bool.eq_false_iff.mpr hany

/-- An operation that is called settles with what comes after it. -/
theorem settled_operation {frames : List (Frame Fn Get Set)} {code : Native Fn Get Set}
    {next : Answer → Native Fn Get Set} (h : settled frames (.operation code next) = true) :
    settled (.operation next :: frames) code = true := by
  by_cases hany : frames.any Frame.isClosure = true
  · cases frames with
    | nil => simp only [List.any_nil, Bool.false_eq_true] at hany
    | cons frame frames =>
        unfold settled at h
        rw [if_pos hany] at h
        unfold settled
        rw [if_pos (by rw [List.any_cons, hany, Bool.or_true])]
        simp only [Native.idle] at h
        cases hcode : code.idle with
        | none =>
            rw [hcode] at h
            simp only [Bool.false_eq_true] at h
        | some answer =>
            rw [hcode] at h
            simp only at h ⊢
            unfold settled
            rw [if_pos hany]
            exact h
  · refine settled_of_outside ?_ code
    rw [List.any_cons, Bool.eq_false_iff.mpr hany]
    rfl

/-- A frame is left. -/
theorem settled_resume {frame : Frame Fn Get Set} {frames : List (Frame Fn Get Set)}
    {answer : Answer} (h : settled (frame :: frames) (.ret answer) = true) :
    settled frames (frame.resume answer) = true := by
  unfold settled at h
  by_cases hany : (frame :: frames).any Frame.isClosure = true
  · rwa [if_pos hany] at h
  · rw [List.any_cons, Bool.or_eq_true, not_or] at hany
    exact settled_of_outside (Bool.eq_false_iff.mpr hany.2) _

/-! ## What a step can do -/

namespace Control

/-- In `shutdown`, after the flag was set. -/
def isShutting : Control Fn Get Set → Bool
  | .acquireShutdown _ => true
  | .shutdown _ _ => true
  | _ => false

end Control

namespace Machine

variable [DecidableEq ι] {m m' : Machine ι Fn Get Set} {i : ι}

/-- The flag is set before the context is released. -/
structure Flagged (m : Machine ι Fn Get Set) : Prop where
  shutting : ∀ i, (m.threads i).control.isShutting = true → m.session.shuttingDown = true
  freed : m.freed = true → m.session.shuttingDown = true

/-- What a step of a thread can do. -/
structure StepSpec (m : Machine ι Fn Get Set) (i : ι) (m' : Machine ι Fn Get Set) : Prop where
  others : ∀ j, j ≠ i → m'.threads j = m.threads j
  flag : m.session.shuttingDown = true → m'.session.shuttingDown = true
  shutting : (m'.threads i).control.isShutting = true → m'.session.shuttingDown = true
  freed : m'.freed = true → m.freed = true ∨
    ∃ steps next, (m.threads i).control = .shutdown (.freeContext :: steps) next
  settled : m.session.shuttingDown = true → (m.threads i).settled = true →
    (m'.threads i).settled = true
  late : m'.late = true → m.late = true ∨ (m.freed = true ∧ (m.threads i).settled = false)

theorem mem_emit {e e' : Event} {s : Session Fn Get Set} (hne : e' ≠ e)
    (h : e ∈ (s.emit e').trace) : e ∈ s.trace := by
  rcases List.mem_append.mp h with h | h
  · exact h
  · exact absurd (List.mem_singleton.mp h).symm hne

/-- A step that makes a call or the like. -/
theorem stepSpec_act {f : Session Fn Get Set → Session Fn Get Set}
    {code next : Native Fn Get Set} (hcontrol : (m.threads i).control = .run code)
    (hidle : code.idle = none) (hflag : (f m.session).shuttingDown = m.session.shuttingDown)
    (hfreed : .freeContext ∈ (f m.session).trace → .freeContext ∈ m.session.trace) :
    StepSpec m i (m.act i f next) where
  others j hj := Function.update_of_ne hj ..
  flag h := hflag.trans h
  shutting h := by
    simp only [act, setThread, Function.update_self, Control.isShutting, Bool.false_eq_true] at h
  freed h := Or.inl (decide_eq_true (hfreed (of_decide_eq_true h)))
  settled _ h := by
    have houtside : (m.threads i).frames.any Frame.isClosure = false := by
      unfold Thread.settled at h
      rw [hcontrol] at h
      exact outside_of_settled hidle h
    simp only [act, setThread, Function.update_self, Thread.settled]
    exact settled_of_outside houtside next
  late h := by
    simp only [act, Bool.or_eq_true, Bool.and_eq_true] at h
    rcases h with h | ⟨hfreed, hclosure⟩
    · exact Or.inl h
    · refine Or.inr ⟨hfreed, Bool.eq_false_iff.mpr fun hsettled => ?_⟩
      unfold Thread.settled at hsettled
      rw [hcontrol] at hsettled
      rw [outside_of_settled hidle hsettled] at hclosure
      simp only [Bool.false_eq_true] at hclosure

/-- A step that is no step of a closure: a thread goes on, and the flag or the lock
    may change, or an event that releases nothing happens. -/
theorem stepSpec_of_thread {thread : Thread Fn Get Set} {s : Session Fn Get Set}
    {lock : RecursiveLock ι}
    (hflag : m.session.shuttingDown = true → s.shuttingDown = true)
    (hshutting : thread.control.isShutting = true → s.shuttingDown = true)
    (hfreed : .freeContext ∈ s.trace → .freeContext ∈ m.session.trace ∨
      ∃ steps next, (m.threads i).control = .shutdown (.freeContext :: steps) next)
    (hsettled : m.session.shuttingDown = true → (m.threads i).settled = true →
      thread.settled = true) :
    StepSpec m i { m.setThread i thread with session := s, executionLock := lock } where
  others j hj := Function.update_of_ne hj ..
  flag := hflag
  shutting h := by
    simp only [setThread, Function.update_self] at h
    exact hshutting h
  freed h := by
    rcases hfreed (of_decide_eq_true h) with h | h
    · exact Or.inl (decide_eq_true h)
    · exact Or.inr h
  settled hclosed h := by
    simp only [setThread, Function.update_self]
    exact hsettled hclosed h
  late h := Or.inl h

/-- What the parts of shutting down release, with the flag set. -/
theorem freeContext_of_apply {s : Session Fn Get Set} (hflag : s.shuttingDown = true)
    {step : ShutdownStep} (h : .freeContext ∈ (step.apply s).trace) :
    .freeContext ∈ s.trace ∨ step = .freeContext := by
  cases step with
  | freeBuiltIns =>
      simp only [ShutdownStep.apply, Session.foldl_free _ hflag] at h
      exact Or.inl h
  | clearOpaqueContext => exact Or.inl (mem_emit (by simp only [ne_eq, reduceCtorEq, not_false_eq_true]) h)
  | freeGlobalRef =>
      simp only [ShutdownStep.apply, Session.free, if_pos hflag] at h
      exact Or.inl h
  | freeContext => exact Or.inr rfl
  | removeAll => exact Or.inl h

theorem shuttingDown_apply (step : ShutdownStep) {s : Session Fn Get Set}
    (hflag : s.shuttingDown = true) : (step.apply s).shuttingDown = true := by
  cases step with
  | freeBuiltIns =>
      simp only [ShutdownStep.apply, Session.foldl_free _ hflag]
      exact hflag
  | clearOpaqueContext => exact hflag
  | freeGlobalRef =>
      simp only [ShutdownStep.apply, Session.free, if_pos hflag]
      exact hflag
  | freeContext => exact hflag
  | removeAll => exact hflag

theorem step_spec (hm : m.Flagged) (h : m.Step i m') : StepSpec m i m' := by
  have hthread : m.threads i = ⟨(m.threads i).control, (m.threads i).frames⟩ := rfl
  unfold Step step at h
  generalize hframes : (m.threads i).frames = frames at h
  cases hcontrol : (m.threads i).control with
  | run code =>
      rw [hcontrol, hframes] at hthread
      have hsettled : (m.threads i).settled = settled frames code := by rw [hthread]; rfl
      simp only [hcontrol] at h
      cases code with
      | ret answer =>
          cases frames with
          | nil => simp only [reduceCtorEq] at h
          | cons frame frames =>
              cases frame with
              | closure next =>
                  rw [← Option.some.inj h]
                  refine stepSpec_of_thread id (fun hshut => ?_) Or.inl fun _ hold => ?_
                  · simp only [Control.isShutting, Bool.false_eq_true] at hshut
                  · exact settled_resume (hsettled.symm.trans hold)
              | operation next =>
                  rw [← Option.some.inj h]
                  refine stepSpec_of_thread id (fun hshut => ?_)
                    (fun hmem => Or.inl (mem_emit (by nofun) hmem)) fun _ hold => ?_
                  · simp only [Control.isShutting, Bool.false_eq_true] at hshut
                  · exact settled_resume (hsettled.symm.trans hold)
      | js name next =>
          rw [← Option.some.inj h]
          exact stepSpec_act hcontrol rfl rfl (mem_emit (by nofun))
      | closure next =>
          rw [← Option.some.inj h]
          exact stepSpec_act hcontrol rfl rfl (mem_emit (by nofun))
      | addExport entry next =>
          rw [← Option.some.inj h]
          have hne : Event.addExport ≠ .freeContext := by nofun
          exact stepSpec_act hcontrol rfl rfl (mem_emit hne)
      | performThreadSafe body next =>
          simp only at h
          by_cases hflag : m.session.shuttingDown = true
          · rw [if_pos hflag] at h
            rw [← Option.some.inj h]
            refine stepSpec_of_thread id (fun hshut => ?_) Or.inl fun _ hold => ?_
            · simp only [Control.isShutting, Bool.false_eq_true] at hshut
            · -- The closure is skipped, which is what `idle` says.
              have hsame : settled frames (next none) =
                  settled frames (.performThreadSafe body next) := settled_congr frames rfl
              exact hsame.trans (hsettled.symm.trans hold)
          · rw [if_neg hflag] at h
            rw [← Option.some.inj h]
            refine stepSpec_of_thread id (fun hshut => ?_) Or.inl fun hclosed _ => ?_
            · simp only [Control.isShutting, Bool.false_eq_true] at hshut
            · exact absurd hclosed hflag
      | operation code next =>
          rw [← Option.some.inj h]
          refine stepSpec_of_thread id (fun hshut => ?_)
            (fun hmem => Or.inl (mem_emit (by nofun) hmem)) fun _ hold => ?_
          · simp only [Control.isShutting, Bool.false_eq_true] at hshut
          · exact settled_operation (hsettled.symm.trans hold)
      | shutdown next =>
          rw [← Option.some.inj h]
          have hsame : settled frames next = settled frames (.shutdown next) :=
            settled_congr frames rfl
          exact stepSpec_of_thread (fun _ => rfl) (fun _ => rfl) Or.inl
            fun _ hold => hsame.trans (hsettled.symm.trans hold)
  | acquire body next =>
      rw [hcontrol, hframes] at hthread
      have hsettled : (m.threads i).settled = settled (.closure next :: frames) body := by
        rw [hthread]
        rfl
      simp only [hcontrol] at h
      rcases Option.bind_eq_some_iff.mp h with ⟨lock, _, heq⟩
      rw [← Option.some.inj heq]
      refine stepSpec_of_thread id (fun hshut => ?_) Or.inl fun _ hold => ?_
      · simp only [Control.isShutting, Bool.false_eq_true] at hshut
      · exact hsettled.symm.trans hold
  | acquireShutdown next =>
      rw [hcontrol, hframes] at hthread
      have hsettled : (m.threads i).settled = settled frames next := by rw [hthread]; rfl
      have hflag : m.session.shuttingDown = true := hm.shutting i (by rw [hcontrol]; rfl)
      simp only [hcontrol] at h
      rcases Option.bind_eq_some_iff.mp h with ⟨lock, _, heq⟩
      rw [← Option.some.inj heq]
      exact stepSpec_of_thread id (fun _ => hflag) Or.inl fun _ hold => hsettled.symm.trans hold
  | shutdown steps next =>
      rw [hcontrol, hframes] at hthread
      have hsettled : (m.threads i).settled = settled frames next := by rw [hthread]; rfl
      have hflag : m.session.shuttingDown = true := hm.shutting i (by rw [hcontrol]; rfl)
      simp only [hcontrol] at h
      cases steps with
      | nil =>
          rw [← Option.some.inj h]
          refine stepSpec_of_thread id (fun hshut => ?_)
            (fun hmem => Or.inl (mem_emit (by nofun) hmem)) fun _ hold => hsettled.symm.trans hold
          simp only [Control.isShutting, Bool.false_eq_true] at hshut
      | cons first steps =>
          rw [← Option.some.inj h]
          refine stepSpec_of_thread (fun _ => shuttingDown_apply first hflag)
            (fun _ => shuttingDown_apply first hflag) (fun hmem => ?_)
            fun _ hold => hsettled.symm.trans hold
          rcases freeContext_of_apply hflag hmem with hmem | rfl
          · exact Or.inl hmem
          · exact Or.inr ⟨steps, next, hcontrol⟩

/-! ## Runs -/

theorem Flagged.step (hm : m.Flagged) (h : m.Step i m') : m'.Flagged := by
  have hspec := step_spec hm h
  refine ⟨fun j hj => ?_, fun hfreed => ?_⟩
  · by_cases hji : j = i
    · rw [hji] at hj
      exact hspec.shutting hj
    · rw [hspec.others j hji] at hj
      exact hspec.flag (hm.shutting j hj)
  · rcases hspec.freed hfreed with hfreed | ⟨steps, next, hcontrol⟩
    · exact hspec.flag (hm.freed hfreed)
    · exact hspec.flag (hm.shutting i (by rw [hcontrol]; rfl))

/-- Once the context is released all threads are settled, and no closure has taken
    a step since. -/
structure Closed (m : Machine ι Fn Get Set) : Prop where
  flagged : m.Flagged
  settled : m.freed = true → ∀ i, (m.threads i).settled = true
  late : m.late = false

/-- All threads are settled when the context is released. -/
def ReleasesSettled (m : Machine ι Fn Get Set) (i : ι) : Prop :=
  ∀ steps next, (m.threads i).control = .shutdown (.freeContext :: steps) next →
    ∀ j, (m.threads j).settled = true

theorem Closed.step (hm : m.Closed) (hreleases : m.ReleasesSettled i) (h : m.Step i m') :
    m'.Closed := by
  have hspec := step_spec hm.flagged h
  refine ⟨hm.flagged.step h, fun hfreed j => ?_, ?_⟩
  · -- The context was released before, or is released in this step.
    have hflag : m.session.shuttingDown = true ∧ ∀ j, (m.threads j).settled = true := by
      rcases hspec.freed hfreed with hfreed | ⟨steps, next, hcontrol⟩
      · exact ⟨hm.flagged.freed hfreed, hm.settled hfreed⟩
      · exact ⟨hm.flagged.shutting i (by rw [hcontrol]; rfl), hreleases steps next hcontrol⟩
    by_cases hji : j = i
    · rw [hji]
      exact hspec.settled hflag.1 (hflag.2 i)
    · rw [hspec.others j hji]
      exact hflag.2 j
  · refine Bool.eq_false_iff.mpr fun hlate => ?_
    rcases hspec.late hlate with hlate | ⟨hfreed, hunsettled⟩
    · rw [hm.late] at hlate
      simp only [Bool.false_eq_true] at hlate
    · rw [hm.settled hfreed i] at hunsettled
      simp only [Bool.true_eq_false] at hunsettled

end Machine

open Machine

/-- One thread evaluates a script while another shuts the engine down. -/
def evaluateAndShutdown : Bool → Native ℕ Unit Unit
  | true => JSEngine.evaluate (.ret .value) (.ret .value)
  | false => .shutdown (.ret .void)

-- A closure that shuts the engine down itself goes on afterwards, on one thread alone.
example : ∃ m, (List.replicate 12 ()).foldlM step (start {} fun _ =>
    (JSEngine.evaluate (.shutdown (.ret .value)) (.js .other (.ret .value)) :
      Native ℕ Unit Unit)) = some m ∧ m.late = true :=
  ⟨_, rfl, rfl⟩

end Substrata
