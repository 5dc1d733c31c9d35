import Mathlib.Data.List.Nodup
import Mathlib.Data.List.Perm.Basic
import Mathlib.Data.List.Perm.Subperm

/-!
# Walking a list that changes

A walk over a linked list whose body may change the list. The walk holds on to an element and
asks the list for the one after it. `forEach` asks when the body is done, so that it also visits
what the body appends. `forEachSafe` asks before, so that the body may take the element out.

The walks are bounded, and a walk that reaches its bound fails, like one whose body fails. The
rules give a bound that is enough: the number of elements that there are, since none is visited
twice.

## Main definitions

* `after`: The element after an element.
* `forEach`, `forEachSafe`: The two walks.

## Theorems

* `exists_forEach`: A walk over a list that only grows at its end.
* `exists_forEachSafe`: A walk over a list that is only changed behind it.
-/

namespace Traversal

variable {α σ : Type*} [DecidableEq α]

/-- The element after an element. -/
def after (x : α) : List α → Option α
  | [] => none
  | y :: ys => if y = x then ys.head? else after x ys

theorem after_eq {x : α} {init : List α} (hinit : x ∉ init) (rest : List α) :
    after x (init ++ x :: rest) = rest.head? := by
  induction init with
  | nil =>
      rw [List.nil_append]
      unfold after
      exact if_pos rfl
  | cons y ys ih =>
      rw [List.mem_cons, not_or] at hinit
      rw [List.cons_append]
      unfold after
      rw [if_neg (Ne.symm hinit.1)]
      exact ih hinit.2

/-- The element after is looked up when the body is done. -/
def forEach (list : σ → List α) (body : α → σ → Option σ) : ℕ → Option α → σ → Option σ
  | _, none, s => some s
  | 0, some _, _ => none
  | bound + 1, some x, s => do
      let s ← body x s
      forEach list body bound (after x (list s)) s

/-- The element after is looked up before the body. -/
def forEachSafe (list : σ → List α) (body : α → σ → Option σ) : ℕ → Option α → σ → Option σ
  | _, none, s => some s
  | 0, some _, _ => none
  | bound + 1, some x, s => do
      let next := after x (list s)
      let s ← body x s
      forEachSafe list body bound next s

variable {list : σ → List α} {body : α → σ → Option σ}

/-- The rest of a walk whose body only appends to the list. -/
theorem exists_forEach_rest {Inv : List α → σ → Prop} {bound : ℕ}
    (hnodup : ∀ behind s, Inv behind s → (list s).Nodup ∧ (list s).length ≤ bound)
    (hbody : ∀ behind x rest s, Inv behind s → list s = behind ++ x :: rest →
      ∃ s' more, body x s = some s' ∧ Inv (behind ++ [x]) s' ∧
        list s' = behind ++ x :: rest ++ more)
    {behind rest : List α} {s : σ} (hs : Inv behind s) (hlist : list s = behind ++ rest)
    {fuel : ℕ} (hfuel : bound ≤ fuel + behind.length) :
    ∃ s', forEach list body fuel rest.head? s = some s' ∧ Inv (list s') s' := by
  induction fuel generalizing behind rest s with
  | zero =>
      cases rest with
      | nil =>
          refine ⟨s, rfl, ?_⟩
          rw [hlist, List.append_nil]
          exact hs
      | cons x rest =>
          -- There are no more elements than the bound.
          have hlength := (hnodup behind s hs).2
          rw [hlist, List.length_append, List.length_cons] at hlength
          omega
  | succ fuel ih =>
      cases rest with
      | nil =>
          refine ⟨s, rfl, ?_⟩
          rw [hlist, List.append_nil]
          exact hs
      | cons x rest =>
          rcases hbody behind x rest s hs hlist with ⟨s', more, hbody', hs', hlist'⟩
          have hx : x ∉ behind := by
            have hdistinct := (hnodup behind s hs).1
            rw [hlist] at hdistinct
            intro hmem
            exact (List.nodup_append.mp hdistinct).2.2 x hmem x List.mem_cons_self rfl
          have hnext : after x (list s') = (rest ++ more).head? := by
            rw [hlist', List.append_assoc, List.cons_append]
            exact after_eq hx _
          have hlength : bound ≤ fuel + (behind ++ [x]).length := by
            rw [List.length_append, List.length_singleton]
            omega
          have hsplit : list s' = behind ++ [x] ++ (rest ++ more) := by simp [hlist']
          rcases ih hs' hsplit hlength with ⟨s'', hwalk, hs''⟩
          refine ⟨s'', ?_, hs''⟩
          rw [List.head?_cons]
          unfold forEach
          rw [hbody', Option.bind_eq_bind, Option.bind_some, hnext]
          exact hwalk

/-- A walk whose body only appends to the list. `Inv` says what holds with a part of the list
    behind the walk. -/
theorem exists_forEach (Inv : List α → σ → Prop) (bound : ℕ)
    (hnodup : ∀ behind s, Inv behind s → (list s).Nodup ∧ (list s).length ≤ bound)
    (hbody : ∀ behind x rest s, Inv behind s → list s = behind ++ x :: rest →
      ∃ s' more, body x s = some s' ∧ Inv (behind ++ [x]) s' ∧
        list s' = behind ++ x :: rest ++ more)
    {s : σ} (hs : Inv [] s) {fuel : ℕ} (hfuel : bound ≤ fuel) :
    ∃ s', forEach list body fuel (list s).head? s = some s' ∧ Inv (list s') s' :=
  exists_forEach_rest hnodup hbody hs (List.nil_append _).symm hfuel

/-- The rest of a walk whose body leaves what is ahead of the walk as it is. -/
theorem exists_forEachSafe_rest {Inv : List α → σ → Prop} {ahead : List α}
    (hbody : ∀ behind x rest s, behind ++ x :: rest = ahead → Inv behind s →
      (∃ kept, list s = kept ++ x :: rest ∧ x ∉ kept) →
      ∃ s', body x s = some s' ∧ Inv (behind ++ [x]) s' ∧
        ∃ kept, list s' = kept ++ rest ∧ ∀ y ∈ rest, y ∉ kept)
    {behind rest : List α} {s : σ} (hsplit : behind ++ rest = ahead) (hs : Inv behind s)
    (hlist : ∃ kept, list s = kept ++ rest ∧ ∀ y ∈ rest, y ∉ kept)
    {fuel : ℕ} (hfuel : rest.length ≤ fuel) :
    ∃ s', forEachSafe list body fuel rest.head? s = some s' ∧ Inv ahead s' := by
  induction fuel generalizing behind rest s with
  | zero =>
      cases rest with
      | nil =>
          refine ⟨s, rfl, ?_⟩
          rwa [← hsplit, List.append_nil]
      | cons x rest =>
          rw [List.length_cons] at hfuel
          omega
  | succ fuel ih =>
      cases rest with
      | nil =>
          refine ⟨s, rfl, ?_⟩
          rwa [← hsplit, List.append_nil]
      | cons x rest =>
          rcases hlist with ⟨kept, hkept, hfresh⟩
          have hx : x ∉ kept := hfresh x List.mem_cons_self
          rcases hbody behind x rest s hsplit hs ⟨kept, hkept, hx⟩ with ⟨s', hbody', hs', hlist'⟩
          have hnext : after x (list s) = rest.head? := by
            rw [hkept]
            exact after_eq hx rest
          rcases ih (by simpa using hsplit) hs' hlist' (by simpa using hfuel)
            with ⟨s'', hwalk, hs''⟩
          refine ⟨s'', ?_, hs''⟩
          rw [List.head?_cons]
          unfold forEachSafe
          rw [hbody', Option.bind_eq_bind, Option.bind_some, hnext]
          exact hwalk

/-- A walk whose body leaves what is ahead of the walk as it is. -/
theorem exists_forEachSafe (Inv : List α → σ → Prop) {s : σ}
    (hbody : ∀ behind x rest s', behind ++ x :: rest = list s → Inv behind s' →
      (∃ kept, list s' = kept ++ x :: rest ∧ x ∉ kept) →
      ∃ s'', body x s' = some s'' ∧ Inv (behind ++ [x]) s'' ∧
        ∃ kept, list s'' = kept ++ rest ∧ ∀ y ∈ rest, y ∉ kept)
    (hs : Inv [] s) {fuel : ℕ} (hfuel : (list s).length ≤ fuel) :
    ∃ s', forEachSafe list body fuel (list s).head? s = some s' ∧ Inv (list s) s' :=
  exists_forEachSafe_rest hbody (List.nil_append _) hs
    ⟨[], rfl, fun _ _ => List.not_mem_nil⟩ hfuel

end Traversal
