import Mathlib.Data.List.Basic

/-!
# Runs of a labelled transition relation

A system is a relation `Step s a t`: from state `s`, taking action `a`, the
system may move to `t`. The relation may be a function of the action, or leave
choices open; nothing here depends on which.

`Run` records the actions taken, so that a statement about a run can speak of
what happened in it and not only of where it ended. The list is in the order in
which the actions were taken, and a run grows at its end, which is what makes
`Run.invariant` an induction on the constructors.

`Guarded` restricts a relation to the steps that meet a condition. A property
that survives only while every step is well behaved is stated over the runs of
the guarded relation, and `Run.of_guarded` says those are runs of the system.

## Main definitions

* `Run`: The actions of a finite run, with its two ends.
* `Reachable`: Some run ends in the state.
* `Guarded`: The steps that meet a condition.

## Theorems

* `Run.single`: One step is a run.
* `Run.trans`: Runs compose.
* `Run.cons`: A step before a run is a run.
* `Run.invariant`: What every step preserves holds at the end of a run.
* `Run.mono`: A run of a smaller relation is a run of a larger one.
* `Run.of_guarded`: A guarded run is a run.
* `Run.guarded_congr`: Conditions that agree on what is reached restrict alike.
* `Run.guarded_last`: The last step of a guarded run meets the condition.
* `Run.iterate`: A block of actions that can be repeated gives longer runs.
* `Run.length_le`: A measure that every step lowers bounds the length of runs.
* `Run.exists_final`: A run goes on until no step is left, if a measure is lowered.
* `Reachable.invariant`: What every step preserves holds of every reachable
  state.
* `Reachable.of_run`: What a run reaches from a reachable state is reachable.
-/

namespace Transition

variable {σ α : Type*}

/-- A finite run, with the actions it takes in order. -/
inductive Run (Step : σ → α → σ → Prop) (s : σ) : List α → σ → Prop
  | nil : Run Step s [] s
  | snoc {t u : σ} {as : List α} {a : α} :
      Run Step s as t → Step t a u → Run Step s (as ++ [a]) u

/-- The steps of a relation that meet a condition on the state before the step
    and the action. -/
def Guarded (C : σ → α → Prop) (Step : σ → α → σ → Prop) : σ → α → σ → Prop :=
  fun s a t => C s a ∧ Step s a t

namespace Run

variable {Step : σ → α → σ → Prop}

theorem single {s t : σ} {a : α} (h : Step s a t) : Run Step s [a] t :=
  snoc nil h

theorem trans {s t u : σ} {as bs : List α} (h1 : Run Step s as t) (h2 : Run Step t bs u) :
    Run Step s (as ++ bs) u := by
  induction h2 with
  | nil => rwa [List.append_nil]
  | snoc _ hstep ih =>
      rw [← List.append_assoc]
      exact snoc ih hstep

theorem cons {s t u : σ} {a : α} {as : List α} (h1 : Step s a t) (h2 : Run Step t as u) :
    Run Step s (a :: as) u :=
  trans (single h1) h2

/-- What holds at the start of a run and survives every step holds at its
    end. -/
theorem invariant {P : σ → Prop} (hstep : ∀ s a t, P s → Step s a t → P t)
    {s t : σ} {as : List α} (h : Run Step s as t) (hs : P s) : P t := by
  induction h with
  | nil => exact hs
  | snoc _ hlast ih => exact hstep _ _ _ ih hlast

theorem mono {Step' : σ → α → σ → Prop} (hle : ∀ s a t, Step s a t → Step' s a t)
    {s t : σ} {as : List α} (h : Run Step s as t) : Run Step' s as t := by
  induction h with
  | nil => exact nil
  | snoc _ hlast ih => exact snoc ih (hle _ _ _ hlast)

theorem of_guarded {C : σ → α → Prop} {s t : σ} {as : List α}
    (h : Run (Guarded C Step) s as t) : Run Step s as t :=
  mono (fun _ _ _ hstep => hstep.2) h

/-- Conditions that agree in every state a run reaches restrict the runs alike. -/
theorem guarded_congr {C D : σ → α → Prop} {s t : σ} {as : List α}
    (hcongr : ∀ bs u, Run Step s bs u → ∀ a, C u a ↔ D u a) :
    Run (Guarded C Step) s as t ↔ Run (Guarded D Step) s as t := by
  constructor
  · intro h
    induction h with
    | nil => exact nil
    | snoc hrun hlast ih => exact snoc ih ⟨(hcongr _ _ (of_guarded hrun) _).mp hlast.1, hlast.2⟩
  · intro h
    induction h with
    | nil => exact nil
    | snoc hrun hlast ih => exact snoc ih ⟨(hcongr _ _ (of_guarded hrun) _).mpr hlast.1, hlast.2⟩

/-- The last step of a guarded run meets the condition. -/
theorem guarded_last {C : σ → α → Prop} {s t : σ} {as : List α} {a : α}
    (h : Run (Guarded C Step) s (as ++ [a]) t) : ∃ u, Run Step s as u ∧ C u a := by
  generalize hbs : as ++ [a] = bs at h
  cases h with
  | nil => exact absurd hbs (List.append_ne_nil_of_right_ne_nil as (List.cons_ne_nil a []))
  | snoc hrun hlast =>
      rcases List.append_inj' hbs rfl with ⟨rfl, hlast_eq⟩
      rw [List.singleton_inj.mp hlast_eq]
      exact ⟨_, of_guarded hrun, hlast.1⟩

/-- A block of actions that carries stage `k` of a family of predicates to
    stage `k + 1`, for every `k` below `n`, gives a run to stage `n`. -/
theorem iterate {P : ℕ → σ → Prop} {s : σ} (h0 : P 0 s) (n : ℕ)
    (hblock : ∀ k t, k < n → P k t → ∃ as u, Run Step t as u ∧ P (k + 1) u) :
    ∃ as t, Run Step s as t ∧ P n t := by
  induction n with
  | zero => exact ⟨[], s, nil, h0⟩
  | succ n ih =>
      rcases ih (fun k t hk => hblock k t (Nat.lt_succ_of_lt hk)) with ⟨as, t, hrun, ht⟩
      rcases hblock n t (Nat.lt_succ_self n) ht with ⟨bs, u, hnext, hu⟩
      exact ⟨as ++ bs, u, trans hrun hnext, hu⟩

section Measure

variable {μ : σ → ℕ} (hless : ∀ s a t, Step s a t → μ t < μ s)
include hless

/-- Where every step lowers a measure, a run is no longer than the measure at its start. -/
theorem length_le {s t : σ} {as : List α} (h : Run Step s as t) : as.length + μ t ≤ μ s := by
  induction h with
  | nil => exact Nat.le_of_eq (Nat.zero_add _)
  | snoc _ hlast ih =>
      have hstep := hless _ _ _ hlast
      rw [List.length_append, List.length_singleton]
      omega

/-- Such a system comes to a state without a step. -/
theorem exists_final (s : σ) : ∃ as t, Run Step s as t ∧ ∀ a u, ¬ Step t a u := by
  generalize hn : μ s = n
  induction n using Nat.strongRecOn generalizing s with
  | ind n ih =>
      by_cases hfinal : ∃ a t, Step s a t
      · rcases hfinal with ⟨a, t, hstep⟩
        rcases ih (μ t) (hn ▸ hless s a t hstep) t rfl with ⟨as, u, hrun, hu⟩
        exact ⟨a :: as, u, cons hstep hrun, hu⟩
      · exact ⟨[], s, nil, fun a u hstep => hfinal ⟨a, u, hstep⟩⟩

end Measure

end Run

/-- A state that some run from a start state ends in. -/
def Reachable (Init : σ → Prop) (Step : σ → α → σ → Prop) (t : σ) : Prop :=
  ∃ s as, Init s ∧ Run Step s as t

namespace Reachable

variable {Init : σ → Prop} {Step : σ → α → σ → Prop}

theorem init {s : σ} (h : Init s) : Reachable Init Step s :=
  ⟨s, [], h, Run.nil⟩

theorem of_run {s t : σ} {as : List α} (hs : Reachable Init Step s) (h : Run Step s as t) :
    Reachable Init Step t := by
  rcases hs with ⟨s0, bs, h0, hrun⟩
  exact ⟨s0, bs ++ as, h0, hrun.trans h⟩

theorem step {s t : σ} {a : α} (hs : Reachable Init Step s) (h : Step s a t) :
    Reachable Init Step t :=
  hs.of_run (Run.single h)

/-- What holds at every start and survives every step holds of every reachable
    state. -/
theorem invariant {P : σ → Prop} (hinit : ∀ s, Init s → P s)
    (hstep : ∀ s a t, P s → Step s a t → P t) {t : σ} (h : Reachable Init Step t) : P t := by
  rcases h with ⟨s, as, hs, hrun⟩
  exact hrun.invariant hstep (hinit s hs)

end Reachable

end Transition
