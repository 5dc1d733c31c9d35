import Substrata.Basis.Run

/-!
# Rearranging the runs of a system with a lock

Several processes take steps on a shared state, and one of them at a time may hold something
that keeps the others from what it works on. If what the others can still do then could as well
have been done before, a run may be rearranged: the steps of the others move in front of the
section they fell into, until no step is left that falls into a section of another process.

Moving steps may leave traces that nobody looks at, so the rearranged run ends in a state that
is the same up to a relation.

## Main definitions

* `Reducible`: What a system needs for that.
* `Alone`: No other process holds anything.
* `Section`: Steps of one process into its section.
* `Rearranged`: A run up to the order of its steps.

## Theorems

* `Reducible.move`: A step moves in front of a section.
* `Reducible.rearrange`: Runs can be rearranged, with a section at the end that has not ended.
* `Reducible.exists_serial`: Runs can be rearranged to runs without interruptions.
-/

namespace Transition

variable {σ ι : Type*}

/-- Steps of other processes that fall into a section could have been taken before it. -/
structure Reducible (Step : σ → ι → σ → Prop) (Same : σ → σ → Prop) (Holds : σ → ι → Prop)
    (Inv : σ → Prop) : Prop where
  refl : ∀ s, Same s s
  trans : ∀ s t u, Same s t → Same t u → Same s u
  /-- Same states take the same steps. -/
  follow : ∀ s s' i t, Same s s' → Step s i t → ∃ t', Step s' i t' ∧ Same t t'
  holds : ∀ s s' i, Same s s' → (Holds s i ↔ Holds s' i)
  step : ∀ s i t, Inv s → Step s i t → Inv t
  exclusive : ∀ s i j, Inv s → Holds s i → Holds s j → i = j
  /-- Only its own steps make a process a holder, and make it one no longer. -/
  own : ∀ s i t j, Inv s → Step s i t → j ≠ i → (Holds s j ↔ Holds t j)
  mover : ∀ s j t i u, Inv s → i ≠ j → Step s j t → Holds t j → Step t i u →
    ∃ t' u', Step s i t' ∧ Step t' j u' ∧ Same u u'

/-- No other process holds anything. -/
def Alone (Holds : σ → ι → Prop) (s : σ) (i : ι) : Prop := ∀ j, Holds s j → j = i

/-- Steps of one process into its section. -/
def Section (Step : σ → ι → σ → Prop) (Holds : σ → ι → Prop) (j : ι) : σ → ι → σ → Prop :=
  fun s i t => i = j ∧ Step s i t ∧ Holds t j

/-- A run up to the order of its steps: one without interruptions, and perhaps a section that
    has not ended. -/
inductive Rearranged (Step : σ → ι → σ → Prop) (Same : σ → σ → Prop) (Holds : σ → ι → Prop)
    (s u : σ) (as : List ι) : Prop
  | free {cs : List ι} {u' : σ} (hserial : Run (Guarded (Alone Holds) Step) s cs u')
      (hfree : ∀ i, ¬ Holds u' i) (hsame : Same u u') (hperm : cs.Perm as)
  | holding {cs bs : List ι} {p u' : σ} {j : ι} (hserial : Run (Guarded (Alone Holds) Step) s cs p)
      (hfree : ∀ i, ¬ Holds p i) (hsection : Run (Section Step Holds j) p bs u')
      (hholds : Holds u' j) (hsame : Same u u') (hperm : (cs ++ bs).Perm as)

namespace Reducible

variable {Step : σ → ι → σ → Prop} {Same : σ → σ → Prop} {Holds : σ → ι → Prop} {Inv : σ → Prop}
  (hred : Reducible Step Same Holds Inv)
include hred

/-- A state where nothing is held stays one under steps that do not take anything. -/
theorem free_step {s t : σ} {i : ι} (hs : Inv s) (hfree : ∀ j, ¬ Holds s j) (hstep : Step s i t)
    (hi : ¬ Holds t i) : ∀ j, ¬ Holds t j := by
  intro j hj
  by_cases heq : j = i
  · exact hi (heq ▸ hj)
  · exact hfree j ((hred.own s i t j hs hstep heq).mpr hj)

theorem invariant {s t : σ} {as : List ι} (hs : Inv s) (hrun : Run Step s as t) : Inv t :=
  hrun.invariant (fun s a t hs hstep => hred.step s a t hs hstep) hs

theorem invariant_section {s t : σ} {as : List ι} {j : ι} (hs : Inv s)
    (hrun : Run (Section Step Holds j) s as t) : Inv t :=
  hred.invariant hs (hrun.mono fun _ _ _ h => h.2.1)

/-- A step of another process moves in front of a section. -/
theorem move {i j : ι} (hij : i ≠ j) {p t u : σ} {bs : List ι} (hp : Inv p)
    (hrun : Run (Section Step Holds j) p bs t) (hstep : Step t i u) :
    ∃ p' u', Step p i p' ∧ Run (Section Step Holds j) p' bs u' ∧ Same u u' := by
  induction hrun generalizing u with
  | nil => exact ⟨u, u, hstep, Run.nil, hred.refl u⟩
  | @snoc t₁ t₂ as a hrun hlast ih =>
      rcases hlast with ⟨rfl, hlast, hholds⟩
      have ht₁ : Inv t₁ := hred.invariant_section hp hrun
      rcases hred.mover t₁ a t₂ i u ht₁ hij hlast hholds hstep with ⟨t', u₁, hfirst, hnext, hsame₁⟩
      rcases ih hfirst with ⟨p', u', hmoved, hrun', hsame'⟩
      rcases hred.follow t' u' a u₁ hsame' hnext with ⟨u'', hnext', hsame''⟩
      have hsame := hred.trans u u₁ u'' hsame₁ hsame''
      have ht₂ := hred.step _ _ _ ht₁ hlast
      have hholds' := (hred.own t₂ i u a ht₂ hstep hij.symm).mp hholds
      exact ⟨p', u'', hmoved, Run.snoc hrun' ⟨rfl, hnext', (hred.holds _ _ _ hsame).mp hholds'⟩,
        hsame⟩

/-- While one process does all the steps, no other holds anything. -/
theorem alone_section {j : ι} {p t : σ} {bs : List ι} (hp : Inv p) (hfree : ∀ i, ¬ Holds p i)
    (hrun : Run (Section Step Holds j) p bs t) :
    Run (Guarded (Alone Holds) Step) p bs t ∧ ∀ i, Holds t i → i = j := by
  induction hrun with
  | nil => exact ⟨Run.nil, fun i hi => absurd hi (hfree i)⟩
  | snoc hrun hlast ih =>
      rcases hlast with ⟨rfl, hstep, -⟩
      refine ⟨Run.snoc ih.1 ⟨ih.2, hstep⟩, fun i hi => ?_⟩
      by_contra hne
      exact hne (ih.2 i ((hred.own _ _ _ i (hred.invariant_section hp hrun) hstep hne).mpr hi))

/-- What one process holds it holds while another takes the steps. -/
theorem holds_section {i j : ι} (hij : i ≠ j) {p t : σ} {bs : List ι} (hp : Inv p)
    (hrun : Run (Section Step Holds j) p bs t) (hi : Holds p i) : Holds t i := by
  induction hrun with
  | nil => exact hi
  | snoc hrun hlast ih =>
      rcases hlast with ⟨rfl, hstep, -⟩
      exact (hred.own _ _ _ i (hred.invariant_section hp hrun) hstep hij).mp ih

/-- A step where nothing is held. -/
theorem step_free {s t t' u : σ} {i : ι} {as cs : List ι} (hs : Inv s)
    (hserial : Run (Guarded (Alone Holds) Step) s cs t') (hfree : ∀ j, ¬ Holds t' j)
    (hsame : Same t t') (hperm : cs.Perm as) (hstep : Step t i u) :
    Rearranged Step Same Holds s u (as ++ [i]) := by
  rcases hred.follow _ _ _ _ hsame hstep with ⟨u', hstep', hsame'⟩
  by_cases hi : Holds u' i
  · exact .holding hserial hfree (Run.single ⟨rfl, hstep', hi⟩) hi hsame'
      (hperm.append_right [i])
  · exact .free (Run.snoc hserial ⟨fun j hj => absurd hj (hfree j), hstep'⟩)
      (hred.free_step (hred.invariant hs hserial.of_guarded) hfree hstep' hi) hsame'
      (hperm.append_right [i])

/-- A step while one process is in its section. -/
theorem step_holding {s t t' u p : σ} {i j : ι} {as cs bs : List ι} (hs : Inv s)
    (hserial : Run (Guarded (Alone Holds) Step) s cs p) (hfree : ∀ i, ¬ Holds p i)
    (hsection : Run (Section Step Holds j) p bs t') (hholds : Holds t' j) (hsame : Same t t')
    (hperm : (cs ++ bs).Perm as) (hstep : Step t i u) :
    Rearranged Step Same Holds s u (as ++ [i]) := by
  rcases hred.follow _ _ _ _ hsame hstep with ⟨u', hstep', hsame'⟩
  have hp : Inv p := hred.invariant hs hserial.of_guarded
  have ht' : Inv t' := hred.invariant_section hp hsection
  rcases hred.alone_section hp hfree hsection with ⟨hguarded, halone⟩
  by_cases hij : i = j
  · subst hij
    by_cases hi : Holds u' i
    · refine .holding hserial hfree (Run.snoc hsection ⟨rfl, hstep', hi⟩) hi hsame' ?_
      rw [← List.append_assoc]
      exact hperm.append_right [i]
    · -- The section ends.
      refine .free (Run.snoc (hserial.trans hguarded) ⟨halone, hstep'⟩) (fun k hk => ?_) hsame'
        (hperm.append_right [i])
      by_cases hki : k = i
      · exact hi (hki ▸ hk)
      · exact hki (halone k ((hred.own _ _ _ k ht' hstep' hki).mpr hk))
  · -- The step moves in front of the section.
    rcases hred.move hij hp hsection hstep' with ⟨p', u'', hmoved, hsection', hsame''⟩
    have hholds' : Holds u'' j :=
      (hred.holds _ _ j hsame'').mp ((hred.own _ _ _ j ht' hstep' (Ne.symm hij)).mp hholds)
    have hp' := hred.step _ _ _ hp hmoved
    have hi : ¬ Holds p' i := fun hi =>
      hij (hred.exclusive u'' i j (hred.invariant_section hp' hsection')
        (hred.holds_section hij hp' hsection' hi) hholds')
    refine .holding (Run.snoc hserial ⟨fun k hk => absurd hk (hfree k), hmoved⟩)
      (hred.free_step hp hfree hmoved hi) hsection' hholds' (hred.trans _ _ _ hsame' hsame'') ?_
    have hswap : (cs ++ [i] ++ bs).Perm (cs ++ bs ++ [i]) := by
      rw [List.append_assoc, List.append_assoc]
      exact List.Perm.append_left cs List.perm_append_comm
    exact hswap.trans (hperm.append_right [i])

theorem rearrange {s u : σ} {as : List ι} (hs : Inv s) (hfree : ∀ i, ¬ Holds s i)
    (hrun : Run Step s as u) : Rearranged Step Same Holds s u as := by
  induction hrun with
  | nil => exact .free Run.nil hfree (hred.refl s) (List.Perm.refl [])
  | snoc _ hlast ih =>
      cases ih with
      | free hserial hfree hsame hperm =>
          exact hred.step_free hs hserial hfree hsame hperm hlast
      | holding hserial hfree hsection hholds hsame hperm =>
          exact hred.step_holding hs hserial hfree hsection hholds hsame hperm hlast

/-- A run can be rearranged so that no process is interrupted while it holds something. -/
theorem exists_serial {s u : σ} {as : List ι} (hs : Inv s) (hfree : ∀ i, ¬ Holds s i)
    (hrun : Run Step s as u) :
    ∃ cs u', Run (Guarded (Alone Holds) Step) s cs u' ∧ Same u u' ∧ cs.Perm as := by
  cases hred.rearrange hs hfree hrun with
  | free hserial _ hsame hperm => exact ⟨_, _, hserial, hsame, hperm⟩
  | holding hserial hfree' hsection _ hsame hperm =>
      have hp := hred.invariant hs hserial.of_guarded
      exact ⟨_, _, hserial.trans (hred.alone_section hp hfree' hsection).1, hsame, hperm⟩

end Reducible

end Transition
