import Mathlib.Algebra.BigOperators.Group.List.Basic
import Mathlib.Data.Int.Order.Basic
import Mathlib.Tactic.Ring

/-!
# Reference counts and the slots that refer

Objects carry a count, and slots refer to objects. Nothing ties one to the other: a
count goes up and down as it is told, and a slot may be written by code that has no
reference to give away. A ledger keeps both, and which objects had their last reference
given up. The surplus of an object is what its count has over the slots that hold it.

Each effect changes the surplus by an amount that depends on the effect alone. Storing an
object in a slot hands a reference over, so the surplus drops by one; the object that was
there before is released with its slot, and its surplus stays. So the surplus that a
plan leaves behind is a sum, however its effects are interleaved with those of others.

A plan gives up references that it took, and duplicates an object that it has a
reference to or knows a slot to hold. A careful plan is one whose text shows this.
Careful plans that leave no surplus may be run in any interleaving: what a slot holds
is never freed, and counts agree with the slots when no plan is under way.

## Main definitions

* `Ledger`: Counts, slots and the freed.
* `Ledger.surplus`: What the count has over the slots.
* `Ledger.Sound`: No deficit, and the freed have no count.
* `Effect`: What can be done to a ledger.
* `Plan`: Effects, with pauses in which others may run.
* `Careful`: Nothing is touched without a reference to it.
* `Office`: A ledger with the plans that are under way.

## Theorems

* `surplus_apply`: The change depends on the effect alone.
* `Sound.count_pos`, `Sound.not_freed`: What a slot holds has a count, and is not freed.
* `Careful.append`: Careful plans compose.
* `surplus_advance`: What was done and what is to do make up the total.
* `advance_sound`: A careful plan keeps a ledger sound up to its next pause.
* `Settled.begin`, `Settled.resume`: Interleavings of careful plans.
* `Settled.balanced`: When nothing is under way, counts are the slots.
-/

namespace Counting

/-- Counts, slots and the objects whose last reference was given up. -/
structure Ledger (ο σ : Type*) where
  count : ο → ℤ
  slots : List (σ × ο)
  freed : List ο

/-- What can be done: an object is made, with a reference; one more is taken, or one
    given up; a reference is handed over to a slot; a slot is emptied. -/
inductive Effect (ο σ : Type*)
  | create (o : ο)
  | dup (o : ο)
  | release (o : ο)
  | store (s : σ) (o : ο)
  | clear (s : σ)

/-- Effects, with pauses. -/
abbrev Plan (ο σ : Type*) := List (Option (Effect ο σ))

variable {ο σ : Type*} [DecidableEq ο]

namespace Ledger

/-- How many slots hold an object. -/
def holders (l : Ledger ο σ) (o : ο) : ℕ := l.slots.countP fun entry => entry.2 = o

/-- What the count of an object has over the slots that hold it. -/
def surplus (l : Ledger ο σ) (o : ο) : ℤ := l.count o - l.holders o

/-- No object has fewer references than slots that hold it, and none is left to those
    that were freed. -/
structure Sound (l : Ledger ο σ) : Prop where
  surplus_nonneg : ∀ o, 0 ≤ l.surplus o
  count_freed : ∀ o ∈ l.freed, l.count o = 0

theorem holders_pos {l : Ledger ο σ} {s : σ} {o : ο} (h : (s, o) ∈ l.slots) :
    0 < l.holders o :=
  List.countP_pos_iff.mpr ⟨(s, o), h, decide_eq_true rfl⟩

theorem Sound.holders_le {l : Ledger ο σ} (hl : l.Sound) (o : ο) :
    (l.holders o : ℤ) ≤ l.count o := sub_nonneg.mp (hl.surplus_nonneg o)

/-- What a slot holds has a count. -/
theorem Sound.count_pos {l : Ledger ο σ} (hl : l.Sound) {s : σ} {o : ο}
    (h : (s, o) ∈ l.slots) : 0 < l.count o := by
  have hpos := holders_pos h
  have hle := hl.holders_le o
  omega

/-- What a slot holds is not freed. -/
theorem Sound.not_freed {l : Ledger ο σ} (hl : l.Sound) {s : σ} {o : ο}
    (h : (s, o) ∈ l.slots) : o ∉ l.freed := by
  intro hfreed
  have hpos := hl.count_pos h
  rw [hl.count_freed o hfreed] at hpos
  exact absurd hpos (lt_irrefl 0)

/-- Those of some objects that have no count left are freed. -/
def settle (os : List ο) (l : Ledger ο σ) : Ledger ο σ :=
  { l with freed := os.filter (fun o => l.count o ≤ 0) ++ l.freed }

@[simp] theorem surplus_settle (os : List ο) (l : Ledger ο σ) (p : ο) :
    (l.settle os).surplus p = l.surplus p := rfl

theorem settle_sound {os : List ο} {l : Ledger ο σ} (hsurplus : ∀ o, 0 ≤ l.surplus o)
    (hfreed : ∀ o ∈ l.freed, l.count o = 0) : (l.settle os).Sound where
  surplus_nonneg := hsurplus
  count_freed o ho := by
    rcases List.mem_append.mp ho with hnew | hold
    · have hle : l.count o ≤ 0 := by simpa using (List.mem_filter.mp hnew).2
      have hge : (l.holders o : ℤ) ≤ l.count o := sub_nonneg.mp (hsurplus o)
      have hcount : (l.settle os).count o = l.count o := rfl
      omega
    · exact hfreed o hold

end Ledger

namespace Effect

variable [DecidableEq σ]

/-- A slot is emptied, and releases what it held. -/
def empty (s : σ) (l : Ledger ο σ) : Ledger ο σ :=
  Ledger.settle ((l.slots.filter fun entry => entry.1 = s).map Prod.snd)
    { count := fun o => l.count o - l.slots.countP fun entry => entry.1 = s ∧ entry.2 = o
      slots := l.slots.filter fun entry => entry.1 ≠ s
      freed := l.freed }

/-- What an effect comes to. Writing a slot empties it first; the number of a freed object
    may be given to a new one. -/
def apply : Effect ο σ → Ledger ο σ → Ledger ο σ
  | .create o, l =>
    { l with count := Function.update l.count o (l.count o + 1)
             freed := l.freed.filter fun p => p ≠ o }
  | .dup o, l => { l with count := Function.update l.count o (l.count o + 1) }
  | .release o, l =>
    Ledger.settle [o] { l with count := Function.update l.count o (l.count o - 1) }
  | .store s o, l => { empty s l with slots := (empty s l).slots ++ [(s, o)] }
  | .clear s, l => empty s l

/-- By how much an effect changes the surplus of an object. -/
def surplus : Effect ο σ → ο → ℤ
  | .create o, p => if p = o then 1 else 0
  | .dup o, p => if p = o then 1 else 0
  | .release o, p => if p = o then -1 else 0
  | .store _ o, p => if p = o then -1 else 0
  | .clear _, _ => 0

/-- Every entry that holds an object is in the slot or in another. -/
theorem countP_split (s : σ) (p : ο) (slots : List (σ × ο)) :
    (slots.countP fun entry => decide (entry.2 = p))
      = (slots.countP fun entry => decide (entry.1 = s ∧ entry.2 = p))
        + ((slots.filter fun entry => decide (entry.1 ≠ s)).countP
          fun entry => decide (entry.2 = p)) := by
  induction slots with
  | nil => rfl
  | cons entry rest ih =>
      rw [List.countP_cons, List.countP_cons, List.filter_cons, ih]
      by_cases hslot : entry.1 = s
      · by_cases hobject : entry.2 = p
        · simp [hslot, hobject]
          omega
        · simp [hslot, hobject]
      · by_cases hobject : entry.2 = p
        · simp [hslot, hobject]
          omega
        · simp [hslot, hobject]

/-- The object in a slot goes with its reference. -/
theorem surplus_empty (s : σ) (l : Ledger ο σ) (p : ο) : (empty s l).surplus p = l.surplus p := by
  unfold Ledger.surplus Ledger.holders empty Ledger.settle
  dsimp only
  rw [countP_split s p l.slots]
  push_cast
  ring

omit [DecidableEq σ] in
theorem surplus_update (l : Ledger ο σ) (freed : List ο) (o p : ο) (d : ℤ) :
    ({ l with count := Function.update l.count o (l.count o + d)
              freed := freed } : Ledger ο σ).surplus p
      = l.surplus p + if p = o then d else 0 := by
  unfold Ledger.surplus Ledger.holders
  dsimp only
  by_cases hp : p = o
  · subst hp
    rw [if_pos rfl, Function.update_self]
    ring
  · rw [if_neg hp, Function.update_of_ne hp]
    ring

/-- The change depends on the effect alone. -/
theorem surplus_apply (e : Effect ο σ) (l : Ledger ο σ) (p : ο) :
    (e.apply l).surplus p = l.surplus p + e.surplus p := by
  cases e with
  | create o => exact surplus_update l _ o p 1
  | dup o => exact surplus_update l _ o p 1
  | release o => exact surplus_update l _ o p (-1)
  | store s o =>
      have hempty := surplus_empty s l p
      unfold Ledger.surplus Ledger.holders at hempty ⊢
      unfold apply surplus
      dsimp only
      rw [List.countP_append, ← hempty]
      by_cases hp : p = o
      · subst hp
        simp only [List.countP_cons, List.countP_nil, decide_true, if_true]
        push_cast
        ring
      · have hne : ¬ o = p := fun heq => hp heq.symm
        simp only [List.countP_cons, List.countP_nil, hne, decide_false, Bool.false_eq_true,
          if_false, if_neg hp]
        push_cast
        ring
  | clear s => exact (surplus_empty s l p).trans (add_zero _).symm

theorem empty_sound (s : σ) {l : Ledger ο σ} (hl : l.Sound) : (empty s l).Sound := by
  refine Ledger.settle_sound (fun o => ?_) fun o ho => ?_
  · have hsurplus := hl.surplus_nonneg o
    rw [← surplus_empty s l o] at hsurplus
    exact hsurplus
  · -- nothing holds a freed object, so its count stays
    have hcount : l.count o = 0 := hl.count_freed o ho
    have hle := hl.holders_le o
    have hsplit := countP_split s o l.slots
    have hholders : l.holders o = l.slots.countP fun entry => decide (entry.2 = o) := rfl
    dsimp only
    omega

/-- An effect that the surplus can bear keeps a ledger sound; only what has a count may be
    duplicated. -/
theorem apply_sound (e : Effect ο σ) {l : Ledger ο σ} (hl : l.Sound)
    (hsurplus : ∀ o, 0 ≤ l.surplus o + e.surplus o) (hdup : ∀ o, e = .dup o → 0 < l.count o) :
    (e.apply l).Sound := by
  have hnonneg : ∀ o, 0 ≤ (e.apply l).surplus o := fun o => by
    rw [surplus_apply]
    exact hsurplus o
  cases e with
  | create o =>
      refine ⟨hnonneg, fun p hp => ?_⟩
      have hmem := List.mem_filter.mp hp
      have hne : p ≠ o := by simpa using hmem.2
      exact (Function.update_of_ne hne _ _).trans (hl.count_freed p hmem.1)
  | dup o =>
      refine ⟨hnonneg, fun p hp => ?_⟩
      have hcount := hl.count_freed p hp
      have hne : p ≠ o := fun heq => by
        have hpos := hdup o rfl
        rw [← heq, hcount] at hpos
        exact lt_irrefl 0 hpos
      exact (Function.update_of_ne hne _ _).trans hcount
  | release o =>
      refine Ledger.settle_sound hnonneg fun p hp => ?_
      have hcount := hl.count_freed p hp
      have hle := hl.holders_le p
      have hne : p ≠ o := fun heq => by
        -- a freed object has no surplus to give up
        have hbear := hsurplus p
        unfold surplus Ledger.surplus at hbear
        dsimp only at hbear
        rw [if_pos heq] at hbear
        omega
      exact (Function.update_of_ne hne _ _).trans hcount
  | store s o => exact ⟨hnonneg, fun p hp => (empty_sound s hl).count_freed p hp⟩
  | clear s => exact empty_sound s hl

end Effect

namespace Plan

/-- By how much a plan changes the surplus. -/
def total : Plan ο σ → ο → ℤ
  | [], _ => 0
  | none :: es, p => total es p
  | some e :: es, p => e.surplus p + total es p

@[simp] theorem total_nil (p : ο) : total ([] : Plan ο σ) p = 0 := rfl

@[simp] theorem total_none (es : Plan ο σ) (p : ο) : total (none :: es) p = total es p := rfl

@[simp] theorem total_some (e : Effect ο σ) (es : Plan ο σ) (p : ο) :
    total (some e :: es) p = e.surplus p + total es p := rfl

@[simp] theorem total_append (es fs : Plan ο σ) (p : ο) :
    total (es ++ fs) p = total es p + total fs p := by
  induction es with
  | nil => exact (zero_add _).symm
  | cons e es ih =>
      cases e with
      | none => exact ih
      | some e =>
          rw [List.cons_append, total_some, total_some, ih]
          ring

/-- A loop whose rounds leave no surplus leaves none. -/
theorem total_flatMap_eq_zero {α : Type*} (f : α → Plan ο σ) (l : List α) (p : ο)
    (h : ∀ x, total (f x) p = 0) : total (l.flatMap f) p = 0 := by
  induction l with
  | nil => rfl
  | cons x l ih => rw [List.flatMap_cons, total_append, h x, ih, add_zero]

variable [DecidableEq σ]

/-- The plan runs to its next pause. -/
def advance : Plan ο σ → Ledger ο σ → Ledger ο σ × Plan ο σ
  | [], l => (l, [])
  | none :: es, l => (l, es)
  | some e :: es, l => advance es (e.apply l)

/-- What a plan that is about to run has of each object is what the rest of it gives
    up. A careful one makes an object that it has nothing of; duplicates one that it has,
    or that a slot is known to hold; and gives up and hands over what it has. What is
    known about slots is forgotten at a pause. -/
def Careful (known : List (σ × ο)) : Plan ο σ → Prop
  | [] => True
  | none :: es => Careful [] es
  | some (.create o) :: es => total (some (.create o) :: es) o ≤ 0 ∧ Careful known es
  | some (.dup o) :: es =>
    (total (some (.dup o) :: es) o < 0 ∨
      total (some (.dup o) :: es) o ≤ 0 ∧ ∃ s, (s, o) ∈ known) ∧ Careful known es
  | some (.release o) :: es => total (some (.release o) :: es) o < 0 ∧ Careful known es
  | some (.store s o) :: es =>
    total (some (.store s o) :: es) o < 0 ∧
      Careful ((s, o) :: known.filter fun entry => entry.1 ≠ s) es
  | some (.clear s) :: es => Careful (known.filter fun entry => entry.1 ≠ s) es

namespace Careful

/-- A plan gives up all that it has. -/
theorem total_nonpos {known : List (σ × ο)} {es : Plan ο σ} (h : Careful known es) (p : ο) :
    total es p ≤ 0 := by
  induction es generalizing known with
  | nil => exact le_refl 0
  | cons e es ih =>
      cases e with
      | none => exact ih h
      | some e =>
          cases e with
          | create o =>
              have hrest := ih h.2
              have hfirst := h.1
              by_cases hp : p = o
              · subst hp
                exact hfirst
              · simp only [total_some, Effect.surplus, if_neg hp, zero_add]
                exact hrest
          | dup o =>
              have hrest := ih h.2
              have hfirst : total (some (Effect.dup o) :: es) o ≤ 0 :=
                h.1.elim le_of_lt fun hknown => hknown.1
              by_cases hp : p = o
              · subst hp
                exact hfirst
              · simp only [total_some, Effect.surplus, if_neg hp, zero_add]
                exact hrest
          | release o =>
              have hrest := ih h.2
              simp only [total_some, Effect.surplus]
              split
              · omega
              · omega
          | store s o =>
              have hrest := ih h.2
              simp only [total_some, Effect.surplus]
              split
              · omega
              · omega
          | clear s =>
              have hrest := ih h
              simp only [total_some, Effect.surplus]
              omega

omit [DecidableEq ο] in
theorem filter_subset {known known' : List (σ × ο)} (hsub : known ⊆ known') (s : σ) :
    (known.filter fun entry => decide (entry.1 ≠ s))
      ⊆ known'.filter fun entry => decide (entry.1 ≠ s) := fun _ hentry =>
  List.mem_filter.mpr ⟨hsub (List.mem_filter.mp hentry).1, (List.mem_filter.mp hentry).2⟩

/-- More may be known. -/
theorem mono {known known' : List (σ × ο)} {es : Plan ο σ} (h : Careful known es)
    (hsub : known ⊆ known') : Careful known' es := by
  induction es generalizing known known' with
  | nil => trivial
  | cons e es ih =>
      cases e with
      | none => exact h
      | some e =>
          cases e with
          | create o => exact ⟨h.1, ih h.2 hsub⟩
          | dup o =>
              refine ⟨h.1.imp_right fun hknown => ?_, ih h.2 hsub⟩
              exact ⟨hknown.1, hknown.2.imp fun s hs => hsub hs⟩
          | release o => exact ⟨h.1, ih h.2 hsub⟩
          | store s o =>
              exact ⟨h.1, ih h.2 (List.cons_subset_cons _ (filter_subset hsub s))⟩
          | clear s => exact ih h (filter_subset hsub s)

/-- Careful plans compose. -/
theorem append {known : List (σ × ο)} {es fs : Plan ο σ} (hes : Careful known es)
    (hfs : Careful [] fs) : Careful known (es ++ fs) := by
  induction es generalizing known with
  | nil => exact hfs.mono (List.nil_subset _)
  | cons e es ih =>
      -- what comes later only gives up
      have hlater : ∀ e' p, total (some e' :: (es ++ fs)) p ≤ total (some e' :: es) p := by
        intro e' p
        have hrest := hfs.total_nonpos p
        rw [total_some, total_some, total_append]
        omega
      cases e with
      | none => exact ih hes
      | some e =>
          cases e with
          | create o => exact ⟨(hlater _ o).trans hes.1, ih hes.2⟩
          | dup o =>
              refine ⟨?_, ih hes.2⟩
              rcases hes.1 with hheld | ⟨hheld, hknown⟩
              · exact Or.inl ((hlater _ o).trans_lt hheld)
              · exact Or.inr ⟨(hlater _ o).trans hheld, hknown⟩
          | release o => exact ⟨(hlater _ o).trans_lt hes.1, ih hes.2⟩
          | store s o => exact ⟨(hlater _ o).trans_lt hes.1, ih hes.2⟩
          | clear s => exact ih hes

theorem flatMap {α : Type*} {f : α → Plan ο σ} (h : ∀ x, Careful [] (f x)) (l : List α) :
    Careful [] (l.flatMap f) := by
  induction l with
  | nil => trivial
  | cons x l ih =>
      rw [List.flatMap_cons]
      exact (h x).append ih

end Careful

/-- What a plan has done and what it has yet to do make up its total. -/
theorem surplus_advance (es : Plan ο σ) (l : Ledger ο σ) (o : ο) :
    (advance es l).1.surplus o + total (advance es l).2 o = l.surplus o + total es o := by
  induction es generalizing l with
  | nil => rfl
  | cons e es ih =>
      cases e with
      | none => rfl
      | some e =>
          have hadvance : advance (some e :: es) l = advance es (e.apply l) := rfl
          rw [hadvance, ih, Effect.surplus_apply, total_some]
          ring

/-- A careful plan keeps a ledger sound up to its next pause, and is careful from
    there. -/
theorem advance_sound {known : List (σ × ο)} {es : Plan ο σ} {l : Ledger ο σ} (hl : l.Sound)
    (hes : Careful known es) (hknown : known ⊆ l.slots)
    (htotal : ∀ o, 0 ≤ l.surplus o + total es o) :
    (advance es l).1.Sound ∧ Careful [] (advance es l).2 := by
  induction es generalizing known l with
  | nil => exact ⟨hl, trivial⟩
  | cons e es ih =>
      cases e with
      | none => exact ⟨hl, hes⟩
      | some e =>
          have hsum : ∀ o, (e.apply l).surplus o + total es o
              = l.surplus o + total (some e :: es) o := fun o => by
            rw [Effect.surplus_apply, total_some]
            ring
          -- one effect leaves a sound ledger, and what is known stays true of it
          have hone : ∃ known', Careful known' es ∧ (e.apply l).Sound ∧
              known' ⊆ (e.apply l).slots := by
            have hbear : ∀ {known'}, Careful known' es → ∀ o, 0 ≤ l.surplus o + e.surplus o :=
              fun hrest o => by
                have hle := hrest.total_nonpos o
                have hge := htotal o
                rw [total_some] at hge
                omega
            cases e with
            | create o =>
                exact ⟨known, hes.2, Effect.apply_sound _ hl (hbear hes.2) (by simp), hknown⟩
            | dup o =>
                refine ⟨known, hes.2, Effect.apply_sound _ hl (hbear hes.2) ?_, hknown⟩
                intro p hp
                injection hp with hp
                subst hp
                rcases hes.1 with hheld | ⟨-, s, hs⟩
                · have hge := htotal o
                  have hle := hl.holders_le o
                  unfold Ledger.surplus at hge
                  omega
                · exact hl.count_pos (hknown hs)
            | release o =>
                exact ⟨known, hes.2, Effect.apply_sound _ hl (hbear hes.2) (by simp), hknown⟩
            | store s o =>
                refine ⟨_, hes.2, Effect.apply_sound _ hl (hbear hes.2) (by simp), ?_⟩
                refine List.cons_subset.mpr ⟨?_, fun entry hentry => ?_⟩
                · exact List.mem_append_right _ List.mem_cons_self
                · exact List.mem_append_left _ (Careful.filter_subset hknown s hentry)
            | clear s =>
                exact ⟨_, hes, Effect.apply_sound _ hl (hbear hes) (by simp),
                  Careful.filter_subset hknown s⟩
          rcases hone with ⟨known', hrest, hsound, hknown'⟩
          exact ih hsound hrest hknown' fun o => (hsum o).symm ▸ htotal o

end Plan

/-! ## Plans under way -/

/-- A ledger with the plans that are under way, the one that runs first. -/
structure Office (ο σ : Type*) where
  ledger : Ledger ο σ
  underway : List (Plan ο σ)

namespace Office

open Plan (advance total Careful)

variable [DecidableEq σ]

/-- A plan is left at a pause, or it is done. -/
def suspend (es : Plan ο σ) (rest : List (Plan ο σ)) : List (Plan ο σ) :=
  if es.isEmpty then rest else es :: rest

/-- A plan begins, and runs to its first pause. -/
def begin (es : Plan ο σ) (f : Office ο σ) : Office ο σ where
  ledger := (advance es f.ledger).1
  underway := suspend (advance es f.ledger).2 f.underway

/-- The plan that runs goes on to its next pause. -/
def resume (f : Office ο σ) : Office ο σ :=
  match f.underway with
  | [] => f
  | es :: rest =>
    { ledger := (advance es f.ledger).1, underway := suspend (advance es f.ledger).2 rest }

/-- How many references to an object the plans under way have yet to give up. -/
def held (f : Office ο σ) (o : ο) : ℤ := -(f.underway.map fun es => total es o).sum

/-- Careful plans are under way, and have what the counts have over the slots. -/
structure Settled (f : Office ο σ) : Prop where
  sound : f.ledger.Sound
  careful : ∀ es ∈ f.underway, Careful [] es
  surplus : ∀ o, f.ledger.surplus o = f.held o

omit [DecidableEq σ] in
theorem sum_suspend (es : Plan ο σ) (rest : List (Plan ο σ)) (o : ο) :
    ((suspend es rest).map fun fs => total fs o).sum
      = total es o + (rest.map fun fs => total fs o).sum := by
  unfold suspend
  cases es with
  | nil => exact (zero_add _).symm
  | cons e es => rfl

omit [DecidableEq ο] [DecidableEq σ] in
theorem mem_suspend {es fs : Plan ο σ} {rest : List (Plan ο σ)} (h : fs ∈ suspend es rest) :
    fs = es ∨ fs ∈ rest := by
  unfold suspend at h
  split at h
  · exact Or.inr h
  · exact List.mem_cons.mp h

theorem sum_total_nonpos {rest : List (Plan ο σ)} (h : ∀ es ∈ rest, Careful [] es) (o : ο) :
    (rest.map fun es => total es o).sum ≤ 0 := by
  induction rest with
  | nil => exact le_refl 0
  | cons es rest ih =>
      have hfirst := (h es List.mem_cons_self).total_nonpos o
      have hrest := ih fun fs hfs => h fs (List.mem_cons_of_mem _ hfs)
      rw [List.map_cons, List.sum_cons]
      omega

/-- A part of a plan runs while the others wait. -/
theorem advance_settled {known : List (σ × ο)} {es : Plan ο σ} {l : Ledger ο σ}
    {rest : List (Plan ο σ)} (hl : l.Sound) (hrest : ∀ fs ∈ rest, Careful [] fs)
    (hes : Careful known es) (hknown : known ⊆ l.slots)
    (hsurplus : ∀ o, l.surplus o = -(total es o + (rest.map fun fs => total fs o).sum)) :
    Settled ⟨(advance es l).1, suspend (advance es l).2 rest⟩ := by
  have hbear : ∀ o, 0 ≤ l.surplus o + total es o := fun o => by
    have hle := sum_total_nonpos hrest o
    have heq := hsurplus o
    omega
  rcases Plan.advance_sound hl hes hknown hbear with ⟨hsound, hcareful⟩
  refine ⟨hsound, fun fs hfs => ?_, fun o => ?_⟩
  · rcases mem_suspend hfs with heq | hmem
    · rw [heq]
      exact hcareful
    · exact hrest fs hmem
  · have heq := hsurplus o
    have hstep := Plan.surplus_advance es l o
    unfold held
    rw [sum_suspend]
    dsimp only
    omega

namespace Settled

/-- A careful plan that leaves no surplus begins. -/
theorem begin {known : List (σ × ο)} {es : Plan ο σ} {f : Office ο σ} (hf : f.Settled)
    (hes : Careful known es) (hknown : known ⊆ f.ledger.slots) (htotal : ∀ o, total es o = 0) :
    (f.begin es).Settled := by
  refine advance_settled hf.sound hf.careful hes hknown fun o => ?_
  rw [htotal o, zero_add]
  exact hf.surplus o

theorem resume {f : Office ο σ} (hf : f.Settled) : f.resume.Settled := by
  unfold Office.resume
  split
  · exact hf
  · next es rest hunderway =>
    have hcareful := hf.careful
    rw [hunderway] at hcareful
    refine advance_settled hf.sound (fun fs hfs => hcareful fs (List.mem_cons_of_mem _ hfs))
      (hcareful es List.mem_cons_self) (List.nil_subset _) fun o => ?_
    have hsurplus := hf.surplus o
    unfold held at hsurplus
    rwa [hunderway, List.map_cons, List.sum_cons] at hsurplus

/-- When nothing is under way, counts are the slots. -/
theorem balanced {f : Office ο σ} (hf : f.Settled) (hidle : f.underway = []) (o : ο) :
    f.ledger.count o = f.ledger.holders o := by
  have hsurplus := hf.surplus o
  unfold held at hsurplus
  rw [hidle, List.map_nil, List.sum_nil, neg_zero] at hsurplus
  exact sub_eq_zero.mp hsurplus

end Settled

end Office

end Counting
