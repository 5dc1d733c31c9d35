import Mathlib.Algebra.BigOperators.Group.List.Basic
import Mathlib.Algebra.Group.Pi.Basic
import Mathlib.Data.Int.Order.Basic
import Mathlib.Tactic.Abel

/-!
# Code that asks an environment

A piece of code asks its environment for answers, one after another, and goes on with
each. What the environment answers is up to it: a relation says which answers it may give
in a state of the world, what is seen to happen then, and how it leaves the world. The
code itself touches the world only by asking. A run of the code is a sequence of answers
that lets it come to its end, with all that was seen to happen.

Each event moves an amount on each of several accounts. Code accounts for what it returns
if, over each of its runs, the events add up to an amount that depends on the returned
value alone. What it takes from the environment and does not pass on must then be given
back, on every path. `Accounts` says so together with what it needs of the world and what
it leaves of it, and follows the structure of the code: an amount is handed from each step
to the next.

## Main definitions

* `Code`: Code, as a tree of questions.
* `Code.collect`, `Code.fold`, `Code.each`: Loops.
* `Run`: A run, with its events.
* `Accounts`: What the events of a run add up to.

## Theorems

* `Run.bind_iff`: A run of a sequence is two runs.
* `Accounts.bind`, `Accounts.ask`: A step and what follows.
* `Accounts.collect`, `Accounts.fold`, `Accounts.each`: Loops.
-/

namespace Interaction

/-- Code that returns a value, asks and goes on with the answer, or comes to no end. -/
inductive Code (ρ : Type) (Answer : ρ → Type) (β : Type) : Type
  | ret (b : β)
  | ask (r : ρ) (next : Answer r → Code ρ Answer β)
  | stop

namespace Code

variable {ρ : Type} {Answer : ρ → Type} {α β γ : Type}

/-- Code that goes on with what other code returned. -/
def bind : Code ρ Answer β → (β → Code ρ Answer γ) → Code ρ Answer γ
  | .ret b, k => k b
  | .ask r next, k => .ask r fun a => (next a).bind k
  | .stop, _ => .stop

instance : Monad (Code ρ Answer) where
  pure := .ret
  bind := bind

/-- A single question. -/
def request (r : ρ) : Code ρ Answer (Answer r) := .ask r .ret

/-- A loop that collects a result for each element. -/
def collect (f : α → Code ρ Answer β) : List α → Code ρ Answer (List β)
  | [] => pure []
  | x :: xs => do
    let y ← f x
    let ys ← collect f xs
    pure (y :: ys)

/-- A loop with an accumulator. -/
def fold (f : β → α → Code ρ Answer β) : β → List α → Code ρ Answer β
  | b, [] => pure b
  | b, x :: xs => do
    let b' ← f b x
    fold f b' xs

/-- A loop without results. -/
def each (f : α → Code ρ Answer Unit) : List α → Code ρ Answer Unit
  | [] => pure ()
  | x :: xs => do
    f x
    each f xs

end Code

open Code

variable {ρ : Type} {Answer : ρ → Type} {σ ε κ α β γ : Type}

/-- What an environment may do when it is asked: the events, its answer, and the world it
    leaves. -/
abbrev Environment (ρ : Type) (Answer : ρ → Type) (σ ε : Type) :=
  σ → (r : ρ) → List ε → Answer r → σ → Prop

/-- A run of code that comes to its end. -/
inductive Run (env : Environment ρ Answer σ ε) : Code ρ Answer β → σ → List ε → β → σ → Prop
  | ret (b : β) (s : σ) : Run env (.ret b) s [] b s
  | ask {r : ρ} {next : Answer r → Code ρ Answer β} {s t u : σ} {es fs : List ε} {a : Answer r}
      {b : β} : env s r es a t → Run env (next a) t fs b u → Run env (.ask r next) s (es ++ fs) b u

namespace Run

variable {env : Environment ρ Answer σ ε}

/-- A run of a sequence is two runs. -/
theorem bind_iff {x : Code ρ Answer β} {k : β → Code ρ Answer γ} {s u : σ} {es : List ε} {c : γ} :
    Run env (x.bind k) s es c u ↔
      ∃ fs b t gs, Run env x s fs b t ∧ Run env (k b) t gs c u ∧ es = fs ++ gs := by
  constructor
  · intro h
    induction x generalizing s es with
    | ret b => exact ⟨[], b, s, es, .ret b s, h, rfl⟩
    | ask r next ih =>
        cases h with
        | ask henv hrest =>
            rcases ih _ hrest with ⟨fs, b, t, gs, h1, h2, rfl⟩
            exact ⟨_, b, t, gs, .ask henv h1, h2, (List.append_assoc _ _ _).symm⟩
    | stop => cases h
  · rintro ⟨fs, b, t, gs, h1, h2, rfl⟩
    induction h1 with
    | ret b s => exact h2
    | ask henv _ ih =>
        rw [List.append_assoc]
        exact .ask henv (ih h2)

/-- What each answer of the environment keeps, a run keeps. -/
theorem keeps {P : List ε → σ → σ → Prop} (hnil : ∀ s, P [] s s)
    (happend : ∀ {es fs s t u}, P es s t → P fs t u → P (es ++ fs) s u)
    (henv : ∀ {s r es a t}, env s r es a t → P es s t)
    {x : Code ρ Answer β} {s t : σ} {es : List ε} {b : β} (h : Run env x s es b t) : P es s t := by
  induction h with
  | ret b s => exact hnil s
  | ask hask _ ih => exact happend (henv hask) ih

end Run

/-- Over each run of the code that begins in a world as required, the events add up to an
    amount that depends on what is returned, and the world is left as promised. -/
def Accounts (env : Environment ρ Answer σ ε) (net : ε → κ → ℤ) (pre : σ → Prop)
    (x : Code ρ Answer β) (amount : β → κ → ℤ) (post : β → σ → Prop) : Prop :=
  ∀ s es b t, pre s → Run env x s es b t → (es.map net).sum = amount b ∧ post b t

namespace Accounts

variable {env : Environment ρ Answer σ ε} {net : ε → κ → ℤ} {pre : σ → Prop}

theorem ret {b : β} {amount : β → κ → ℤ} {post : β → σ → Prop} (hamount : amount b = 0)
    (hpost : ∀ s, pre s → post b s) : Accounts env net pre (.ret b) amount post := by
  intro s es b' t hs hrun
  cases hrun with
  | ret => exact ⟨hamount.symm, hpost s hs⟩

theorem stop {amount : β → κ → ℤ} {post : β → σ → Prop} :
    Accounts env net pre (.stop : Code ρ Answer β) amount post := by
  intro s es b t _ hrun
  cases hrun

/-- A question for which all that the environment may do is known. -/
theorem request {r : ρ} {amount : Answer r → κ → ℤ} {post : Answer r → σ → Prop}
    (h : ∀ s es a t, pre s → env s r es a t → (es.map net).sum = amount a ∧ post a t) :
    Accounts env net pre (Code.request r) amount post := by
  intro s es b t hs hrun
  cases hrun with
  | ask henv hret =>
      cases hret with
      | ret =>
          rw [List.append_nil]
          exact h _ _ _ _ hs henv

/-- What a step leaves is handed on. -/
theorem bind {x : Code ρ Answer β} {k : β → Code ρ Answer γ} {amount : β → κ → ℤ}
    {total : γ → κ → ℤ} {mid : β → σ → Prop} {post : γ → σ → Prop}
    (hx : Accounts env net pre x amount mid)
    (hk : ∀ b, Accounts env net (mid b) (k b) (fun c => total c - amount b) post) :
    Accounts env net pre (x >>= k) total post := by
  intro s es c u hs hrun
  rcases Run.bind_iff.mp hrun with ⟨fs, b, t, gs, h1, h2, rfl⟩
  rcases hx s fs b t hs h1 with ⟨hsum1, hmid⟩
  rcases hk b t gs c u hmid h2 with ⟨hsum2, hpost⟩
  refine ⟨?_, hpost⟩
  rw [List.map_append, List.sum_append, hsum1, hsum2]
  exact add_sub_cancel _ _

theorem mono {x : Code ρ Answer β} {amount amount' : β → κ → ℤ} {pre' : σ → Prop}
    {post post' : β → σ → Prop} (h : Accounts env net pre x amount post)
    (hpre : ∀ s, pre' s → pre s) (hamount : ∀ b, amount b = amount' b)
    (hpost : ∀ b s, post b s → post' b s) : Accounts env net pre' x amount' post' := by
  intro s es b t hs hrun
  rcases h s es b t (hpre s hs) hrun with ⟨hsum, ht⟩
  exact ⟨hsum.trans (hamount b), hpost b t ht⟩

/-- The amount may be given another name. -/
theorem congr {x : Code ρ Answer β} {amount amount' : β → κ → ℤ} {post : β → σ → Prop}
    (h : Accounts env net pre x amount post) (hamount : ∀ b, amount b = amount' b) :
    Accounts env net pre x amount' post :=
  h.mono (fun _ hs => hs) hamount fun _ _ ht => ht

/-- What is promised may be used for the amount. -/
theorem congr_of_post {x : Code ρ Answer β} {amount amount' : β → κ → ℤ} {post : β → σ → Prop}
    (h : Accounts env net pre x amount post) (hamount : ∀ b t, post b t → amount b = amount' b) :
    Accounts env net pre x amount' post := by
  intro s es b t hs hrun
  rcases h s es b t hs hrun with ⟨hsum, ht⟩
  exact ⟨hsum.trans (hamount b t ht), ht⟩

/-- What is known of the world may be about something else. -/
theorem of_and {p : Prop} {x : Code ρ Answer β} {amount : β → κ → ℤ} {post : β → σ → Prop}
    (h : p → Accounts env net pre x amount post) :
    Accounts env net (fun s => p ∧ pre s) x amount post :=
  fun s es b t hs hrun => h hs.1 s es b t hs.2 hrun

section Loops

variable {idle : σ → Prop}

/-- A loop that collects accounts for what it collects. -/
theorem collect {f : α → Code ρ Answer β} {amount : β → κ → ℤ} (xs : List α)
    (h : ∀ x ∈ xs, Accounts env net idle (f x) amount fun _ => idle) :
    Accounts env net idle (Code.collect f xs) (fun ys => (ys.map amount).sum) fun _ => idle := by
  induction xs with
  | nil => exact ret rfl fun _ hs => hs
  | cons x xs ih =>
      refine bind (h x List.mem_cons_self) fun y => ?_
      refine bind (ih fun z hz => h z (List.mem_cons_of_mem _ hz)) fun ys => ?_
      refine ret ?_ fun _ hs => hs
      rw [List.map_cons, List.sum_cons]
      abel

/-- A loop with an accumulator that stays as it should, when each round accounts for how
    the accumulator grew. -/
theorem fold {f : β → α → Code ρ Answer β} {amount : β → κ → ℤ} {inv : β → Prop}
    (h : ∀ b x, inv b → Accounts env net idle (f b x) (fun b' => amount b' - amount b)
      fun b' s => inv b' ∧ idle s)
    {b : β} (hb : inv b) (xs : List α) :
    Accounts env net idle (Code.fold f b xs) (fun b' => amount b' - amount b)
      fun b' s => inv b' ∧ idle s := by
  induction xs generalizing b with
  | nil => exact ret (sub_self _) fun _ hs => ⟨hb, hs⟩
  | cons x xs ih =>
      refine bind (h b x hb) fun b' => of_and fun hb' => ?_
      refine (ih hb').congr fun c => ?_
      abel

/-- A loop without results. -/
theorem each {f : α → Code ρ Answer Unit} {amount : α → κ → ℤ} (xs : List α)
    (h : ∀ x ∈ xs, Accounts env net idle (f x) (fun _ => amount x) fun _ => idle) :
    Accounts env net idle (Code.each f xs) (fun _ => (xs.map amount).sum) fun _ => idle := by
  induction xs with
  | nil => exact ret rfl fun _ hs => hs
  | cons x xs ih =>
      refine bind (h x List.mem_cons_self) fun _ => ?_
      refine (ih fun y hy => h y (List.mem_cons_of_mem _ hy)).congr fun _ => ?_
      rw [List.map_cons, List.sum_cons]
      abel

end Loops

end Accounts

end Interaction
