import Mathlib.Data.List.Forall2

/-!
# Loops that may fail

Rules for the loops of a computation in `Except`: what is known when one of them
succeeds.

A loop over a list either collects a result for each element, `mapM`, or carries
an accumulator along, `foldlM`. The first succeeds when every element does, with
the results in order. For the second there is an invariant rule.

Where the computation also has a state, each element finds the state that the
ones before it left. `Threaded` says that a list was gone through like that.

## Main definitions

* `Threaded`: The elements of a list, each in the state after the last.

## Theorems

* `bind_eq_ok_iff`: A sequence succeeds when both parts do.
* `mapM_eq_ok_iff`: Collecting succeeds when every element does.
* `mapM_range_eq_ok_iff`: The same, by index.
* `foldlM_invariant`: What every successful step keeps holds in the end.
* `mapM_mono`, `foldlM_mono`: A loop succeeds as well when its steps succeed more often.
* `mapM_run_eq_ok_iff`: Collecting with a state succeeds along a thread.
* `Threaded.getElem?`: What came of one of the elements, and in which state.
-/

namespace Fallible

variable {ε α β : Type}

/-- A sequence succeeds when both parts do. -/
theorem bind_eq_ok_iff {x : Except ε α} {f : α → Except ε β} {b : β} :
    x >>= f = .ok b ↔ ∃ a, x = .ok a ∧ f a = .ok b := by
  cases x with
  | error e =>
      simp only [bind, Except.bind, reduceCtorEq, false_and, exists_false]
  | ok a =>
      simp only [bind, Except.bind, Except.ok.injEq, exists_eq_left']

/-- Collecting succeeds when every element does. -/
theorem mapM_eq_ok_iff (f : α → Except ε β) (xs : List α) (ys : List β) :
    xs.mapM f = .ok ys ↔ List.Forall₂ (fun x y => f x = .ok y) xs ys := by
  induction xs generalizing ys with
  | nil =>
      rw [List.mapM_nil, List.forall₂_nil_left_iff]
      exact ⟨fun h => (Except.ok.inj h).symm, fun h => congrArg Except.ok h.symm⟩
  | cons x xs ih =>
      rw [List.mapM_cons, List.forall₂_cons_left_iff]
      cases hx : f x with
      | error e =>
          refine ⟨fun h => absurd h (by simp only [bind, Except.bind, reduceCtorEq, not_false_eq_true]), ?_⟩
          rintro ⟨y, _, hy, _⟩
          exact absurd hy (by simp only [reduceCtorEq, not_false_eq_true])
      | ok y =>
          cases hxs : xs.mapM f with
          | error e =>
              refine ⟨fun h => absurd h (by simp only [bind, Except.bind, reduceCtorEq, not_false_eq_true]), ?_⟩
              rintro ⟨_, ys', _, hall, _⟩
              rw [← ih, hxs] at hall
              exact absurd hall (by simp only [reduceCtorEq, not_false_eq_true])
          | ok zs =>
              constructor
              · intro h
                exact ⟨y, zs, rfl, (ih zs).mp hxs, (Except.ok.inj h).symm⟩
              · rintro ⟨y', ys', hy, hall, rfl⟩
                rw [← ih, hxs, Except.ok.injEq] at hall
                rw [Except.ok.injEq] at hy
                rw [hy, hall]
                rfl

/-- Collecting over the first indices. -/
theorem mapM_range_eq_ok_iff (f : ℕ → Except ε β) (n : ℕ) (ys : List β) :
    (List.range n).mapM f = .ok ys ↔
      ys.length = n ∧ ∀ (i : ℕ) y, ys[i]? = some y → f i = .ok y := by
  rw [mapM_eq_ok_iff, List.forall₂_iff_get]
  constructor
  · rintro ⟨hlength, hall⟩
    rw [List.length_range] at hlength
    refine ⟨hlength.symm, fun i y hy => ?_⟩
    rcases List.getElem?_eq_some_iff.mp hy with ⟨hi, hget⟩
    have hf := hall i (by rw [List.length_range]; omega) hi
    rw [List.get_eq_getElem, List.get_eq_getElem, List.getElem_range] at hf
    rw [hf, hget]
  · rintro ⟨hlength, hall⟩
    refine ⟨List.length_range.trans hlength.symm, fun i _ hi => ?_⟩
    rw [List.get_eq_getElem, List.get_eq_getElem, List.getElem_range]
    exact hall i _ (List.getElem?_eq_getElem hi)

/-- What every successful step keeps holds in the end. -/
theorem foldlM_invariant {P : β → Prop} {f : β → α → Except ε β} {xs : List α}
    (hstep : ∀ b x b', x ∈ xs → P b → f b x = .ok b' → P b') {b b' : β} (hb : P b)
    (hfold : xs.foldlM f b = .ok b') : P b' := by
  induction xs generalizing b with
  | nil =>
      rw [List.foldlM_nil] at hfold
      rw [← Except.ok.inj hfold]
      exact hb
  | cons x xs ih =>
      rw [List.foldlM_cons] at hfold
      cases hx : f b x with
      | error e =>
          rw [hx] at hfold
          exact absurd hfold (by simp only [bind, Except.bind, reduceCtorEq, not_false_eq_true])
      | ok c =>
          rw [hx] at hfold
          exact ih (fun b x b' hmem => hstep b x b' (List.mem_cons_of_mem _ hmem))
            (hstep b x c (List.mem_cons_self ..) hb hx) hfold

/-- Where the steps succeed with the same results, so does collecting. -/
theorem mapM_mono {f g : α → Except ε β} (hstep : ∀ x y, f x = .ok y → g x = .ok y) {xs : List α}
    {ys : List β} (hall : xs.mapM f = .ok ys) : xs.mapM g = .ok ys := by
  rw [mapM_eq_ok_iff] at hall ⊢
  exact hall.imp hstep

/-- Where the steps succeed with the same results, so does the whole loop. -/
theorem foldlM_mono {f g : β → α → Except ε β} (hstep : ∀ b x b', f b x = .ok b' → g b x = .ok b')
    {xs : List α} {b b' : β} (hfold : xs.foldlM f b = .ok b') : xs.foldlM g b = .ok b' := by
  induction xs generalizing b with
  | nil => exact hfold
  | cons x xs ih =>
      rw [List.foldlM_cons] at hfold ⊢
      rcases bind_eq_ok_iff.mp hfold with ⟨c, hx, hrest⟩
      exact bind_eq_ok_iff.mpr ⟨c, hstep b x c hx, ih hrest⟩

/-- A fold around one of its steps. -/
theorem foldlM_append_cons {f : β → α → Except ε β} {xs : List α} {x : α} {ys : List α}
    {b b' : β} (hfold : (xs ++ x :: ys).foldlM f b = .ok b') :
    ∃ c c', xs.foldlM f b = .ok c ∧ f c x = .ok c' ∧ ys.foldlM f c' = .ok b' := by
  rw [List.foldlM_append] at hfold
  rcases bind_eq_ok_iff.mp hfold with ⟨c, hxs, hrest⟩
  rw [List.foldlM_cons] at hrest
  rcases bind_eq_ok_iff.mp hrest with ⟨c', hx, hys⟩
  exact ⟨c, c', hxs, hx, hys⟩

/-! ## With a state -/

variable {σ : Type}

/-- The elements of a list, each in the state after the last. -/
inductive Threaded (f : α → StateT σ (Except ε) β) : List α → σ → List β → σ → Prop
  | nil (s : σ) : Threaded f [] s [] s
  | cons {x : α} {xs : List α} {y : β} {ys : List β} {s t u : σ} (head : f x s = .ok (y, t))
      (tail : Threaded f xs t ys u) : Threaded f (x :: xs) s (y :: ys) u

/-- A sequence succeeds when its parts do, one after the other. -/
theorem bind_run_eq_ok_iff {x : StateT σ (Except ε) α} {f : α → StateT σ (Except ε) β} {s u : σ}
    {b : β} : (x >>= f) s = .ok (b, u) ↔ ∃ a t, x s = .ok (a, t) ∧ f a t = .ok (b, u) := by
  show (x s >>= fun r => f r.1 r.2) = .ok (b, u) ↔ _
  rw [bind_eq_ok_iff]
  exact Prod.exists

/-- Collecting with a state succeeds along a thread. -/
theorem mapM_run_eq_ok_iff (f : α → StateT σ (Except ε) β) (xs : List α) (s : σ) (ys : List β)
    (u : σ) : xs.mapM f s = .ok (ys, u) ↔ Threaded f xs s ys u := by
  induction xs generalizing s ys with
  | nil =>
      rw [List.mapM_nil]
      constructor
      · intro h
        rcases Prod.mk.inj (Except.ok.inj h) with ⟨rfl, rfl⟩
        exact .nil s
      · rintro ⟨⟩
        rfl
  | cons x xs ih =>
      rw [List.mapM_cons, bind_run_eq_ok_iff]
      constructor
      · rintro ⟨y, t, hx, h⟩
        rcases bind_run_eq_ok_iff.mp h with ⟨zs, v, hxs, hend⟩
        rcases Prod.mk.inj (Except.ok.inj hend) with ⟨rfl, rfl⟩
        exact .cons hx ((ih t zs).mp hxs)
      · intro h
        cases h with
        | cons head tail =>
            exact ⟨_, _, head, bind_run_eq_ok_iff.mpr ⟨_, _, (ih _ _).mpr tail, rfl⟩⟩

namespace Threaded

variable {f : α → StateT σ (Except ε) β} {xs : List α} {s u : σ} {ys : List β}

theorem length_eq (h : Threaded f xs s ys u) : ys.length = xs.length := by
  induction h with
  | nil s => rfl
  | cons head tail ih => rw [List.length_cons, List.length_cons, ih]

/-- What came of one of the elements, and in which state. -/
theorem getElem? (h : Threaded f xs s ys u) {i : ℕ} {y : β} (hy : ys[i]? = some y) :
    ∃ x t v, xs[i]? = some x ∧ Threaded f (xs.take i) s (ys.take i) t ∧ f x t = .ok (y, v) := by
  induction h generalizing i with
  | nil s => exact absurd hy (by simp)
  | @cons x xs z zs s t u head tail ih =>
      cases i with
      | zero =>
          rw [List.getElem?_cons_zero, Option.some.injEq] at hy
          exact ⟨x, s, t, rfl, .nil s, hy ▸ head⟩
      | succ i =>
          rw [List.getElem?_cons_succ] at hy
          rcases ih hy with ⟨x', t', v, hx', hbefore, hf⟩
          exact ⟨x', t', v, hx', .cons head hbefore, hf⟩

/-- A function that succeeds where another does, and leaves the same state, goes through the
    same lists. -/
theorem exists_of_forall {γ : Type} {g : α → StateT σ (Except ε) γ} (h : Threaded f xs s ys u)
    (hg : ∀ x ∈ xs, ∀ s y t, f x s = .ok (y, t) → ∃ z, g x s = .ok (z, t)) :
    ∃ zs, Threaded g xs s zs u := by
  induction h with
  | nil s => exact ⟨[], .nil s⟩
  | @cons x xs y ys s t u head tail ih =>
      rcases hg x (List.mem_cons_self ..) _ _ _ head with ⟨z, hz⟩
      rcases ih fun x hx => hg x (List.mem_cons_of_mem _ hx) with ⟨zs, hzs⟩
      exact ⟨z :: zs, .cons hz hzs⟩

/-- Every element was gone through. -/
theorem of_mem (h : Threaded f xs s ys u) {x : α} (hx : x ∈ xs) : ∃ s y t, f x s = .ok (y, t) := by
  induction h with
  | nil s => exact absurd hx (List.not_mem_nil)
  | @cons x' xs y ys s t u head tail ih =>
      rcases List.mem_cons.mp hx with rfl | hx
      · exact ⟨s, y, t, head⟩
      · exact ih hx

end Threaded

end Fallible
