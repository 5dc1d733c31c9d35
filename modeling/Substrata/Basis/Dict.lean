import Mathlib.Data.Finmap

/-!
# Dictionaries with unspecified iteration order

A finite map whose order of iteration means nothing: Mathlib's `Finmap`, at a
constant family. What is added here is what programs do with such a map beyond
looking a key up.

`insertNew` is insertion where the first entry for a key wins, and
`registerAll` is a sequence of such insertions. Registration tables are filled
this way, and the point of `lookup_registerAll` is that the earlier table
shadows every later registration: what a sequence of registrations leaves
behind depends on what the table held before. `registerAll_eq_iff` says exactly
when it does not.

`Enumerates` is one iteration over the map. Code that walks a map sees some
list of its entries and may not assume which, so a statement about such code
quantifies over the lists the map enumerates to. `enumerates_cons` puts any
entry first, which is all that is needed to show that code relying on the first
match is wrong.

## Main definitions

* `Dict`: A finite map with keys in `κ` and values in `ν`.
* `Dict.insertNew`: Insertion that keeps an existing entry.
* `Dict.registerAll`: A sequence of first-wins insertions.
* `Dict.Sub`: One map's entries all occur in another.
* `Dict.Enumerates`: A list is one iteration over the map.

## Theorems

* `lookup_insertNew`: The effect of a first-wins insertion on a lookup.
* `lookup_insertNew_of_none`: The effect of inserting a key that is not there.
* `lookup_insert`: The effect of an insertion on a lookup.
* `lookup_registerAll`: A table shadows the registrations made into it.
* `registerAll_eq_iff`: When a table's history cannot be seen in it.
* `enumerates_registerAll`: Distinct registrations are iterated over.
* `lookup_foldl_insert`: What a loop of insertions over a map leaves behind.
* `exists_enumerates`: Every map has an iteration.
* `enumerates_cons`: Any entry can come first in an iteration.
-/

/-- A finite map without an order on its entries. -/
abbrev Dict (κ ν : Type*) := Finmap fun _ : κ => ν

namespace Dict

variable {κ ν : Type*} [DecidableEq κ]

/-- Insertion that leaves an existing entry alone. -/
def insertNew (d : Dict κ ν) (k : κ) (v : ν) : Dict κ ν :=
  if (d.lookup k).isSome then d else d.insert k v

/-- First-wins insertion of a list of entries, in order. -/
def registerAll (d : Dict κ ν) (l : List (κ × ν)) : Dict κ ν :=
  l.foldl (fun d e => d.insertNew e.1 e.2) d

/-- Every entry of the first map is an entry of the second. -/
def Sub (d e : Dict κ ν) : Prop :=
  ∀ k v, d.lookup k = some v → e.lookup k = some v

/-- The list is one iteration over the map: each key once, with its value. -/
def Enumerates (d : Dict κ ν) (l : List (κ × ν)) : Prop :=
  (l.map Prod.fst).Nodup ∧ ∀ k v, (k, v) ∈ l ↔ d.lookup k = some v

theorem lookup_insertNew (d : Dict κ ν) (k k' : κ) (v : ν) :
    (d.insertNew k v).lookup k' = (d.lookup k').or (if k' = k then some v else none) := by
  unfold insertNew
  by_cases hk : (d.lookup k).isSome
  · rw [if_pos hk]
    by_cases he : k' = k
    · subst he
      rcases Option.isSome_iff_exists.mp hk with ⟨w, hw⟩
      rw [hw, Option.some_or]
    · rw [if_neg he, Option.or_none]
  · rw [if_neg hk]
    by_cases he : k' = k
    · subst he
      rw [Finmap.lookup_insert, if_pos rfl, Option.not_isSome_iff_eq_none.mp hk, Option.none_or]
    · rw [Finmap.lookup_insert_of_ne _ he, if_neg he, Option.or_none]

/-- Inserting a key that is not there, either way. -/
theorem lookup_insertNew_of_none {d : Dict κ ν} {k : κ} (h : d.lookup k = none) (k' : κ)
    (v : ν) : (d.insertNew k v).lookup k' = if k' = k then some v else d.lookup k' := by
  rw [lookup_insertNew]
  by_cases hk : k' = k
  · rw [if_pos hk, hk, h, Option.none_or, if_pos rfl]
  · rw [if_neg hk, if_neg hk, Option.or_none]

theorem lookup_insert (d : Dict κ ν) (k k' : κ) (v : ν) :
    Finmap.lookup k' (d.insert k v) = if k' = k then some v else d.lookup k' := by
  by_cases hk : k' = k
  · rw [if_pos hk, hk, Finmap.lookup_insert]
  · rw [if_neg hk, Finmap.lookup_insert_of_ne _ hk]

/-- A table shadows the registrations made into it: a lookup afterwards finds
    what was there, and only then what was registered. -/
theorem lookup_registerAll (d : Dict κ ν) (l : List (κ × ν)) (k : κ) :
    (d.registerAll l).lookup k = (d.lookup k).or ((registerAll ∅ l).lookup k) := by
  induction l generalizing d with
  | nil => simp only [registerAll, List.foldl_nil, Finmap.lookup_empty, Option.or_none]
  | cons e l ih =>
      have hfold : ∀ c : Dict κ ν, c.registerAll (e :: l)
          = (c.insertNew e.1 e.2).registerAll l := fun _ => rfl
      rw [hfold, hfold, ih, ih (insertNew ∅ e.1 e.2), lookup_insertNew, lookup_insertNew,
        Finmap.lookup_empty, Option.none_or, Option.or_assoc]

/-- Registering into a table that already held something leaves the same table
    as registering into an empty one exactly when everything it held is among
    what the registrations alone leave behind. -/
theorem registerAll_eq_iff (d : Dict κ ν) (l : List (κ × ν)) :
    d.registerAll l = registerAll ∅ l ↔ d.Sub (registerAll ∅ l) := by
  constructor
  · intro h k v hk
    rw [← h, lookup_registerAll, hk, Option.some_or]
  · intro h
    refine Finmap.ext_lookup (fun k => ?_)
    rw [lookup_registerAll]
    cases hk : d.lookup k with
    | none => rw [Option.none_or]
    | some v => rw [Option.some_or, h k v hk]

theorem Sub.trans {d e f : Dict κ ν} (h1 : d.Sub e) (h2 : e.Sub f) : d.Sub f :=
  fun k v hk => h2 k v (h1 k v hk)

theorem sub_registerAll (d : Dict κ ν) (l : List (κ × ν)) : d.Sub (d.registerAll l) := by
  intro k v hk
  rw [lookup_registerAll, hk, Option.some_or]

theorem lookup_registerAll_cons (l : List (κ × ν)) (e : κ × ν) (k : κ) :
    (registerAll ∅ (e :: l)).lookup k
      = if k = e.1 then some e.2 else (registerAll ∅ l).lookup k := by
  have hfold : registerAll ∅ (e :: l) = ((∅ : Dict κ ν).insertNew e.1 e.2).registerAll l := rfl
  rw [hfold, lookup_registerAll, lookup_insertNew, Finmap.lookup_empty, Option.none_or]
  by_cases hk : k = e.1
  · rw [if_pos hk, if_pos hk, Option.some_or]
  · rw [if_neg hk, if_neg hk, Option.none_or]

/-- Only keys that were registered are in a table. -/
theorem lookup_registerAll_eq_none {l : List (κ × ν)} {k : κ} (h : k ∉ l.map Prod.fst) :
    (registerAll ∅ l).lookup k = none := by
  induction l with
  | nil => rfl
  | cons e l ih =>
      rw [List.map_cons, List.mem_cons, not_or] at h
      rw [lookup_registerAll_cons, if_neg h.1]
      exact ih h.2

/-- What is in a table of registrations was registered. -/
theorem mem_of_lookup_registerAll {l : List (κ × ν)} {k : κ} {v : ν}
    (h : (registerAll ∅ l).lookup k = some v) : (k, v) ∈ l := by
  induction l with
  | nil => exact absurd h (by simp only [registerAll, List.foldl_nil, Finmap.lookup_empty,
      reduceCtorEq, not_false_eq_true])
  | cons e l ih =>
      rw [lookup_registerAll_cons] at h
      by_cases hk : k = e.1
      · rw [if_pos hk] at h
        rw [hk, ← Option.some.inj h]
        exact List.mem_cons_self
      · rw [if_neg hk] at h
        exact List.mem_cons_of_mem _ (ih h)

/-- Registering distinct keys into an empty table leaves a table that the list
    iterates over. -/
theorem enumerates_registerAll {l : List (κ × ν)} (h : (l.map Prod.fst).Nodup) :
    (registerAll ∅ l).Enumerates l := by
  refine ⟨h, ?_⟩
  induction l with
  | nil =>
      intro k v
      have hnone : (registerAll (∅ : Dict κ ν) []).lookup k = none := rfl
      rw [hnone]
      simp only [List.not_mem_nil, reduceCtorEq]
  | cons e l ih =>
      intro k v
      rw [List.map_cons, List.nodup_cons] at h
      rw [lookup_registerAll_cons, List.mem_cons, ih h.2]
      by_cases hk : k = e.1
      · subst hk
        rw [if_pos rfl, lookup_registerAll_eq_none h.1, Option.some.injEq]
        constructor
        · rintro (heq | hnone)
          · rw [← heq]
          · cases hnone
        · rintro rfl
          exact Or.inl rfl
      · rw [if_neg hk]
        constructor
        · rintro (rfl | hsome)
          · exact absurd rfl hk
          · exact hsome
        · exact Or.inr

/-- A loop of insertions does not touch the keys it skips or does not meet. -/
theorem lookup_foldl_insert_of_skip {μ : Type*} (skip : κ → Prop) [DecidablePred skip]
    (g : ν → μ) {l : List (κ × ν)} {k : κ} (h : skip k ∨ k ∉ l.map Prod.fst) (d : Dict κ μ) :
    (l.foldl (fun d e => if skip e.1 then d else d.insert e.1 (g e.2)) d).lookup k
      = d.lookup k := by
  induction l generalizing d with
  | nil => rfl
  | cons e l ih =>
      have htail : skip k ∨ k ∉ l.map Prod.fst :=
        h.imp_right fun hk hmem => hk (List.mem_cons_of_mem _ hmem)
      rw [List.foldl_cons, ih htail]
      by_cases he : skip e.1
      · rw [if_pos he]
      · have hne : k ≠ e.1 := by
          rintro rfl
          rcases h with hs | hk
          · exact he hs
          · exact hk List.mem_cons_self
        rw [if_neg he, lookup_insert, if_neg hne]

/-- A loop of insertions over an iteration of a map leaves the values of the map,
    except under the keys it skips. -/
theorem lookup_foldl_insert {μ : Type*} {d₀ : Dict κ ν} {l : List (κ × ν)}
    (hl : d₀.Enumerates l) (skip : κ → Prop) [DecidablePred skip] (g : ν → μ) (d : Dict κ μ)
    (k : κ) :
    (l.foldl (fun d e => if skip e.1 then d else d.insert e.1 (g e.2)) d).lookup k
      = if skip k then d.lookup k else ((d₀.lookup k).map g).or (d.lookup k) := by
  by_cases hs : skip k
  · rw [if_pos hs]
    exact lookup_foldl_insert_of_skip skip g (Or.inl hs) d
  · rw [if_neg hs]
    cases hk : d₀.lookup k with
    | none =>
        rw [Option.map_none, Option.none_or]
        refine lookup_foldl_insert_of_skip skip g (Or.inr fun hmem => ?_) d
        rcases List.mem_map.mp hmem with ⟨⟨k', v⟩, hv, rfl⟩
        rw [(hl.2 _ _).mp hv] at hk
        cases hk
    | some v =>
        rw [Option.map_some, Option.some_or]
        -- the key is met once, and the rest of the loop leaves it alone
        rcases List.append_of_mem ((hl.2 k v).mpr hk) with ⟨l1, l2, rfl⟩
        have hnd := hl.1
        rw [List.map_append, List.map_cons, List.nodup_append] at hnd
        have hnot : k ∉ l2.map Prod.fst := (List.nodup_cons.mp hnd.2.1).1
        rw [List.foldl_append, List.foldl_cons, lookup_foldl_insert_of_skip skip g (Or.inr hnot),
          if_neg hs, lookup_insert, if_pos rfl]

/-- An iteration is the underlying list of entries, in some order. -/
theorem exists_enumerates (d : Dict κ ν) : ∃ l, d.Enumerates l := by
  induction d using Finmap.induction_on with
  | H a =>
    refine ⟨a.entries.map (fun e => (e.1, e.2)), ?_, fun k v => ?_⟩
    · rw [List.map_map]
      exact a.nodupKeys
    · rw [Finmap.lookup_toFinmap, AList.lookup, ← Option.mem_def,
        List.mem_dlookup_iff a.nodupKeys, List.mem_map]
      constructor
      · rintro ⟨⟨k', v'⟩, hmem, heq⟩
        rcases Prod.mk.inj heq with ⟨rfl, rfl⟩
        exact hmem
      · exact fun hmem => ⟨⟨k, v⟩, hmem, rfl⟩

/-- Any entry of the map comes first in some iteration over it. -/
theorem enumerates_cons {d : Dict κ ν} {k : κ} {v : ν} (h : d.lookup k = some v) :
    ∃ l, d.Enumerates ((k, v) :: l) := by
  rcases exists_enumerates (d.erase k) with ⟨l, hnd, hmem⟩
  refine ⟨l, ?_, fun k' v' => ?_⟩
  · rw [List.map_cons, List.nodup_cons]
    refine ⟨fun hk => ?_, hnd⟩
    rcases List.mem_map.mp hk with ⟨⟨k', v'⟩, hin, heq⟩
    simp only at heq
    subst heq
    have hlook := (hmem k' v').mp hin
    rw [Finmap.lookup_erase] at hlook
    exact absurd hlook (by simp only [reduceCtorEq, not_false_eq_true])
  · rw [List.mem_cons, hmem, Prod.mk.injEq]
    by_cases hk : k' = k
    · subst hk
      rw [Finmap.lookup_erase, h]
      simp only [true_and, reduceCtorEq, or_false, Option.some.injEq, eq_comm]
    · rw [Finmap.lookup_erase_ne hk]
      simp only [hk, false_and, false_or]

end Dict
