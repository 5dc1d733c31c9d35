import Mathlib.Data.Fintype.Pigeonhole
import Mathlib.Data.Set.Finite.Basic
import Mathlib.Logic.Relation
import Mathlib.Order.WellFounded

/-!
# Depth-first walks

When a depth-first walk without a visited set comes to an end.

A walk visits the children of a node one after another, in order, and each of
them with all of its own children before the next. Some nodes stop the whole
walk. The depth is bounded by a number here, and the question is whether any
bound is large enough.

On a finite graph a walk that nothing stops ends when it reaches no cycle,
`finishes_iff_clean`. With nodes that stop it the order matters: a cycle behind
such a node is never entered. `Enters` is the edge that a walk takes, to a child
that everything before it lets it reach, and a walk ends when it reaches no
cycle of these, `terminates_iff_no_cycle`.

## Main definitions

* `OrderedGraph`: Children in order, and the nodes that stop a walk.
* `OrderedGraph.visit`: The walk with bounded depth.
* `OrderedGraph.Clean`: No cycle and no stop is reached.
* `OrderedGraph.Enters`: The edges that a walk takes.

## Theorems

* `visit_mono`: A larger bound changes no result.
* `finishes_iff_clean`: When a walk gets through everything.
* `terminates_iff_acc`: When a walk ends.
* `acc_iff_no_cycle`: Well-foundedness in a finite graph.
* `terminates_iff_no_cycle`: When a walk ends, in a finite graph.
-/

/-- How a walk ends: it got through, it was stopped, or the depth was used up. -/
inductive WalkEnd
  | done
  | halted
  | exhausted
  deriving DecidableEq

/-- One walk, and another one unless the first did not get through. -/
def WalkEnd.andThen (first second : WalkEnd) : WalkEnd :=
  match first with
  | .done => second
  | e => e

@[simp] theorem WalkEnd.done_andThen (e : WalkEnd) : WalkEnd.done.andThen e = e := rfl

@[simp] theorem WalkEnd.halted_andThen (e : WalkEnd) : WalkEnd.halted.andThen e = .halted := rfl

@[simp] theorem WalkEnd.exhausted_andThen (e : WalkEnd) :
    WalkEnd.exhausted.andThen e = .exhausted := rfl

@[simp] theorem WalkEnd.andThen_done (e : WalkEnd) : e.andThen .done = e := by
  cases e with
  | done => rfl
  | halted => rfl
  | exhausted => rfl

/-- A graph with children in order, where some nodes stop a walk. -/
structure OrderedGraph (ν : Type) where
  children : ν → List ν
  Halts : ν → Prop

namespace OrderedGraph

variable {ν : Type} (G : OrderedGraph ν)

/-- One node after the other, as long as nothing stops. -/
def visitAll (visit : ν → WalkEnd) : List ν → WalkEnd
  | [] => .done
  | v :: vs => (visit v).andThen (visitAll visit vs)

open Classical in
/-- The walk from a node, with bounded depth. -/
noncomputable def visit : ℕ → ν → WalkEnd
  | 0, _ => .exhausted
  | n + 1, v => if G.Halts v then .halted else visitAll (visit n) (G.children v)

/-- The walk gets through. -/
def Finishes (v : ν) : Prop := ∃ n, G.visit n v = .done

/-- Some depth is enough. -/
def Terminates (v : ν) : Prop := ∃ n, G.visit n v ≠ .exhausted

/-- A step to a child. -/
def Child (w v : ν) : Prop := w ∈ G.children v

/-- No cycle and no node that stops a walk can be reached. -/
def Clean (v : ν) : Prop :=
  ∀ w, Relation.ReflTransGen (Function.swap G.Child) v w →
    ¬ G.Halts w ∧ ¬ Relation.TransGen G.Child w w

/-- The edges that a walk takes: to a child with nothing before it that stops or
    never ends. -/
def Enters (w v : ν) : Prop :=
  ¬ G.Halts v ∧ ∃ before after, G.children v = before ++ w :: after ∧ ∀ u ∈ before, G.Clean u

/-! ## Lists of nodes -/

theorem visitAll_eq_done_iff {visit : ν → WalkEnd} {vs : List ν} :
    visitAll visit vs = .done ↔ ∀ v ∈ vs, visit v = .done := by
  induction vs with
  | nil => simp only [visitAll, List.not_mem_nil, false_implies, implies_true]
  | cons v vs ih =>
      rw [List.forall_mem_cons, ← ih, visitAll]
      cases visit v with
      | done => simp only [WalkEnd.done_andThen, true_and]
      | halted => simp only [WalkEnd.halted_andThen, reduceCtorEq, false_and]
      | exhausted => simp only [WalkEnd.exhausted_andThen, reduceCtorEq, false_and]

/-- What a list comes to, it does not use up the depth on. -/
theorem visit_ne_exhausted_of_visitAll {visit : ν → WalkEnd} {before after : List ν} {w : ν}
    (hbefore : ∀ u ∈ before, visit u ≠ .halted)
    (hall : visitAll visit (before ++ w :: after) ≠ .exhausted) : visit w ≠ .exhausted := by
  induction before with
  | nil =>
      intro hw
      rw [List.nil_append, visitAll, hw] at hall
      exact hall rfl
  | cons u before ih =>
      rw [List.cons_append, visitAll] at hall
      cases hu : visit u with
      | done =>
          rw [hu] at hall
          exact ih (fun x hx => hbefore x (List.mem_cons_of_mem _ hx)) hall
      | halted => exact absurd hu (hbefore u (List.mem_cons_self ..))
      | exhausted =>
          rw [hu] at hall
          exact absurd rfl hall

theorem visitAll_congr {visit visit' : ν → WalkEnd} {vs : List ν}
    (h : ∀ v ∈ vs, visit v ≠ .exhausted → visit' v = visit v)
    (hall : visitAll visit vs ≠ .exhausted) : visitAll visit' vs = visitAll visit vs := by
  induction vs with
  | nil => rfl
  | cons v vs ih =>
      rw [visitAll] at hall
      rw [visitAll, visitAll]
      have hv : visit v ≠ .exhausted := by
        intro hc
        rw [hc] at hall
        exact hall rfl
      rw [h v (List.mem_cons_self ..) hv]
      cases hvisit : visit v with
      | done =>
          rw [hvisit] at hall
          exact ih (fun w hw => h w (List.mem_cons_of_mem _ hw)) hall
      | halted => rfl
      | exhausted => rfl

/-! ## The bound -/

theorem visit_of_halts {v : ν} (h : G.Halts v) (n : ℕ) : G.visit (n + 1) v = .halted := by
  unfold visit
  rw [if_pos h]

theorem visit_of_not_halts {v : ν} (h : ¬ G.Halts v) (n : ℕ) :
    G.visit (n + 1) v = visitAll (G.visit n) (G.children v) := by
  rw [visit, if_neg h]

/-- A larger bound changes no result. -/
theorem visit_succ {n : ℕ} {v : ν} (h : G.visit n v ≠ .exhausted) :
    G.visit (n + 1) v = G.visit n v := by
  induction n generalizing v with
  | zero => exact absurd rfl h
  | succ n ih =>
      by_cases hv : G.Halts v
      · rw [G.visit_of_halts hv, G.visit_of_halts hv]
      · rw [G.visit_of_not_halts hv] at h
        rw [G.visit_of_not_halts hv, G.visit_of_not_halts hv]
        exact visitAll_congr (fun w _ hw => ih hw) h

/-- A larger bound changes no result. -/
theorem visit_mono {n m : ℕ} (hle : n ≤ m) {v : ν} (h : G.visit n v ≠ .exhausted) :
    G.visit m v = G.visit n v := by
  induction hle with
  | refl => rfl
  | step hle ih => rw [G.visit_succ (ih ▸ h), ih]

/-- One bound serves a whole list. -/
theorem exists_bound {vs : List ν} (h : ∀ v ∈ vs, G.Finishes v) :
    ∃ n, ∀ v ∈ vs, G.visit n v = .done := by
  induction vs with
  | nil => exact ⟨0, fun v hv => absurd hv List.not_mem_nil⟩
  | cons v vs ih =>
      rcases h v (List.mem_cons_self ..) with ⟨n, hn⟩
      rcases ih fun w hw => h w (List.mem_cons_of_mem _ hw) with ⟨m, hm⟩
      have hgrow {k : ℕ} (hk : k ≤ max n m) {w : ν} (hw : G.visit k w = .done) :
          G.visit (max n m) w = .done := by
        rw [G.visit_mono hk (by rw [hw]; simp only [ne_eq, reduceCtorEq, not_false_eq_true]), hw]
      refine ⟨max n m, List.forall_mem_cons.mpr ⟨hgrow (le_max_left ..) hn, fun w hw => ?_⟩⟩
      exact hgrow (le_max_right ..) (hm w hw)

/-- A walk gets through a node when it gets through all of its children. -/
theorem finishes_iff {v : ν} :
    G.Finishes v ↔ ¬ G.Halts v ∧ ∀ w ∈ G.children v, G.Finishes w := by
  constructor
  · rintro ⟨n, hn⟩
    cases n with
    | zero => simp only [visit, reduceCtorEq] at hn
    | succ n =>
        by_cases hv : G.Halts v
        · rw [G.visit_of_halts hv] at hn
          simp only [reduceCtorEq] at hn
        · rw [G.visit_of_not_halts hv, visitAll_eq_done_iff] at hn
          exact ⟨hv, fun w hw => ⟨n, hn w hw⟩⟩
  · rintro ⟨hv, hall⟩
    rcases G.exists_bound hall with ⟨n, hn⟩
    refine ⟨n + 1, ?_⟩
    rw [G.visit_of_not_halts hv, visitAll_eq_done_iff]
    exact hn

/-- A walk that ends with some depth ends with one less on the children that it
    enters. -/
theorem visit_ne_exhausted_of_enters {n : ℕ} {v w : ν} {before after : List ν}
    (hv : ¬ G.Halts v) (hsplit : G.children v = before ++ w :: after)
    (hbefore : ∀ u ∈ before, G.Finishes u) (hn : G.visit (n + 1) v ≠ .exhausted) :
    G.visit n w ≠ .exhausted := by
  rw [G.visit_of_not_halts hv, hsplit] at hn
  refine visit_ne_exhausted_of_visitAll (fun u hu hhalted => ?_) hn
  rcases hbefore u hu with ⟨m, hm⟩
  have hu' : G.visit n u ≠ .exhausted := by
    rw [hhalted]
    simp only [ne_eq, reduceCtorEq, not_false_eq_true]
  have hm' : G.visit m u ≠ .exhausted := by
    rw [hm]
    simp only [ne_eq, reduceCtorEq, not_false_eq_true]
  have heq := (G.visit_mono (le_max_left n m) hu').symm.trans (G.visit_mono (le_max_right n m) hm')
  rw [hhalted, hm] at heq
  simp only [reduceCtorEq] at heq

/-- When every child that a walk enters ends, there is a depth for all of them. -/
theorem terminates_of_children {v : ν} (hv : ¬ G.Halts v)
    (hall : ∀ before w after, G.children v = before ++ w :: after →
      (∀ u ∈ before, G.Finishes u) → G.Terminates w) : G.Terminates v := by
  have hlist : ∀ (vs before : List ν), G.children v = before ++ vs →
      (∀ u ∈ before, G.Finishes u) →
        ∃ n, ∀ m, n ≤ m → visitAll (G.visit m) vs ≠ .exhausted := by
    intro vs
    induction vs with
    | nil =>
        intro before _ _
        exact ⟨0, fun m _ => by simp only [visitAll, ne_eq, reduceCtorEq, not_false_eq_true]⟩
    | cons w vs ih =>
        intro before hsplit hbefore
        rcases hall before w vs hsplit hbefore with ⟨n, hn⟩
        cases hw : G.visit n w with
        | exhausted => exact absurd hw hn
        | halted =>
            refine ⟨n, fun m hm => ?_⟩
            rw [visitAll, G.visit_mono hm hn, hw, WalkEnd.halted_andThen]
            simp only [ne_eq, reduceCtorEq, not_false_eq_true]
        | done =>
            have hbefore' : ∀ u ∈ before ++ [w], G.Finishes u := by
              intro u hu
              rcases List.mem_append.mp hu with hu | hu
              · exact hbefore u hu
              · rw [List.mem_singleton] at hu
                exact hu ▸ ⟨n, hw⟩
            rcases ih (before ++ [w]) (by rw [hsplit, List.append_assoc, List.singleton_append])
              hbefore' with ⟨k, hk⟩
            refine ⟨max n k, fun m hm => ?_⟩
            rw [visitAll, G.visit_mono (le_trans (le_max_left n k) hm) hn, hw]
            exact hk m (le_trans (le_max_right n k) hm)
  rcases hlist (G.children v) [] rfl (fun u hu => absurd hu List.not_mem_nil) with ⟨n, hn⟩
  refine ⟨n + 1, ?_⟩
  rw [G.visit_of_not_halts hv]
  exact hn n le_rfl

/-! ## Cycles -/

/-- In a finite part of a graph, no infinite descent starts where no cycle is
    reached. -/
theorem acc_iff_no_cycle {r : ν → ν → Prop} {s : Set ν} (hs : s.Finite)
    (hstep : ∀ w v, r w v → w ∈ s) {v : ν} :
    Acc r v ↔ ∀ w, Relation.ReflTransGen (Function.swap r) v w → ¬ Relation.TransGen r w w := by
  constructor
  · intro hacc w hreach hcycle
    have haccw : Acc r w := by
      clear hcycle
      induction hreach with
      | refl => exact hacc
      | tail _ hlast ih => exact ih.inv hlast
    exact not_acc_iff_exists_descending_chain.mpr ⟨fun _ => w, rfl, fun _ => hcycle⟩ haccw.transGen
  · intro hcycle
    by_contra hacc
    rcases not_acc_iff_exists_descending_chain.mp hacc with ⟨f, hzero, hdesc⟩
    have hreach (n : ℕ) : Relation.ReflTransGen (Function.swap r) v (f n) := by
      induction n with
      | zero => exact hzero ▸ Relation.ReflTransGen.refl
      | succ n ih => exact ih.tail (hdesc n)
    have hpath (n k : ℕ) : Relation.TransGen r (f (n + k + 1)) (f n) := by
      induction k with
      | zero => exact Relation.TransGen.single (hdesc n)
      | succ k ih => exact Relation.TransGen.head (hdesc (n + k + 1)) ih
    -- The chain stays in a finite set, so it comes back.
    have hmem (n : ℕ) : f (n + 1) ∈ s := hstep _ _ (hdesc n)
    have hfin : Finite s := hs
    rcases Finite.exists_ne_map_eq_of_infinite fun n : ℕ => (⟨f (n + 1), hmem n⟩ : s) with
      ⟨i, j, hne, heq⟩
    have hsame : f (i + 1) = f (j + 1) := congrArg Subtype.val heq
    rcases Nat.lt_or_gt_of_ne hne with hlt | hlt
    · have hcyc := hpath (i + 1) (j - i - 1)
      rw [show i + 1 + (j - i - 1) + 1 = j + 1 by omega, ← hsame] at hcyc
      exact hcycle _ (hreach _) hcyc
    · have hcyc := hpath (j + 1) (i - j - 1)
      rw [show j + 1 + (i - j - 1) + 1 = i + 1 by omega, hsame] at hcyc
      exact hcycle _ (hreach _) hcyc

/-- A walk gets through when it reaches neither a cycle nor a stop. -/
theorem finishes_iff_clean {s : Set ν} (hs : s.Finite) (hchild : ∀ v, ∀ w ∈ G.children v, w ∈ s)
    {v : ν} : G.Finishes v ↔ G.Clean v := by
  have hacc := acc_iff_no_cycle (r := G.Child) hs (fun w v hw => hchild v w hw) (v := v)
  constructor
  · rintro ⟨n, hn⟩ w hreach
    have hdescend : ∀ (n : ℕ) (v : ν), G.visit n v = .done → Acc G.Child v := by
      intro n
      induction n with
      | zero =>
          intro v hv
          simp only [visit, reduceCtorEq] at hv
      | succ n ih =>
          intro v hv
          have hnot : ¬ G.Halts v := (G.finishes_iff.mp ⟨_, hv⟩).1
          rw [G.visit_of_not_halts hnot, visitAll_eq_done_iff] at hv
          exact Acc.intro v fun w hw => ih w (hv w hw)
    have hfinish : G.Finishes w := by
      induction hreach with
      | refl => exact ⟨n, hn⟩
      | tail _ hlast ih => exact (G.finishes_iff.mp ih).2 _ hlast
    exact ⟨(G.finishes_iff.mp hfinish).1, hacc.mp (hdescend n v hn) w hreach⟩
  · intro hclean
    have haccv : Acc G.Child v := hacc.mpr fun w hreach => (hclean w hreach).2
    clear hacc
    induction haccv with
    | intro v _ ih =>
        rw [G.finishes_iff]
        refine ⟨(hclean v Relation.ReflTransGen.refl).1, fun w hw => ih w hw fun u hu => ?_⟩
        exact hclean u (Relation.ReflTransGen.head hw hu)

/-- A walk ends when the edges that it takes do. -/
theorem terminates_iff_acc {s : Set ν} (hs : s.Finite)
    (hchild : ∀ v, ∀ w ∈ G.children v, w ∈ s) {v : ν} : G.Terminates v ↔ Acc G.Enters v := by
  have hclean (u : ν) : G.Finishes u ↔ G.Clean u := G.finishes_iff_clean hs hchild
  constructor
  · rintro ⟨n, hn⟩
    induction n generalizing v with
    | zero => exact absurd rfl hn
    | succ n ih =>
        refine Acc.intro v ?_
        rintro w ⟨hv, before, after, hsplit, hbefore⟩
        exact ih (G.visit_ne_exhausted_of_enters hv hsplit
          (fun u hu => (hclean u).mpr (hbefore u hu)) hn)
  · intro hacc
    induction hacc with
    | intro v _ ih =>
        by_cases hv : G.Halts v
        · refine ⟨1, ?_⟩
          rw [G.visit_of_halts hv]
          simp only [ne_eq, reduceCtorEq, not_false_eq_true]
        · refine G.terminates_of_children hv fun before w after hsplit hbefore =>
            ih w ⟨hv, before, after, hsplit, ?_⟩
          exact fun u hu => (hclean u).mp (hbefore u hu)

/-- A walk ends when it comes to no cycle of edges that it takes. -/
theorem terminates_iff_no_cycle {s : Set ν} (hs : s.Finite)
    (hchild : ∀ v, ∀ w ∈ G.children v, w ∈ s) {v : ν} :
    G.Terminates v ↔ ∀ w, Relation.ReflTransGen (Function.swap G.Enters) v w →
      ¬ Relation.TransGen G.Enters w w := by
  rw [G.terminates_iff_acc hs hchild, acc_iff_no_cycle hs]
  rintro w v ⟨_, before, after, hsplit, _⟩
  refine hchild v w ?_
  rw [hsplit]
  exact List.mem_append_right _ (List.mem_cons_self ..)

end OrderedGraph
