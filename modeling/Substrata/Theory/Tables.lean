import Substrata.Core.Wrapper
import Substrata.Theory.Keys

/-!
# Tables of functions

What a dictionary has under a key when it was filled from an object, and what
becomes of it when it is taken for a table of functions.

Two keys may be equivalent. Then the later one writes over the earlier, and where
it has no value it removes the entry. So the entry under a key is the value of the
last key that is equivalent to it.

The cast to a table takes all entries or none. It is enough to look at the keys
that are the last of their kind.

## Main definitions

* `lookupKey`: The entry under a key.
* `lastKey`: The last key that is equivalent to a key.
* `fillEntries`: Entries written one after another.
* `asFunction`: The function that a value is.
* `keysOf`: The keys of some names.

## Theorems

* `lookupKey_fillEntries`: What is under a key in the end.
* `asMethods_isSome_iff`, `lookupMethod_of_asMethods`: When there is a table, and what it has.
* `eq_object_of_asFunction`: Only a function decodes to a function.
* `foldlM_entries_of_forall`, `forall_of_foldlM_entries`: The loop over the properties.
-/

namespace Substrata

/-! ## Dictionaries that are filled in an order -/

/-- The entry under a key, as Swift compares keys. -/
def lookupKey (canonical : String → String) (entries : List (String × JSConvertible))
    (key : String) : Option JSConvertible :=
  (entries.find? fun e => canonical e.1 = canonical key).map Prod.snd

/-- The last of some keys that is equivalent to a key. -/
def lastKey (canonical : String → String) (keys : List String) (key : String) : Option String :=
  keys.reverse.find? fun key' => canonical key' = canonical key

theorem lastKey_append (canonical : String → String) (keys : List String) (last key : String) :
    lastKey canonical (keys ++ [last]) key =
      if canonical last = canonical key then some last else lastKey canonical keys key := by
  unfold lastKey
  rw [List.reverse_append, List.reverse_singleton, List.singleton_append, List.find?_cons]
  by_cases hsame : canonical last = canonical key
  · rw [if_pos hsame, decide_eq_true hsame]
  · rw [if_neg hsame, decide_eq_false hsame]

theorem lastKey_mem {canonical : String → String} {keys : List String} {key key' : String}
    (hlast : lastKey canonical keys key = some key') :
    key' ∈ keys ∧ canonical key' = canonical key :=
  ⟨List.mem_reverse.mp (List.mem_of_find?_eq_some hlast), by simpa using List.find?_some hlast⟩

/-- Equivalent keys have the same last key. -/
theorem lastKey_congr {canonical : String → String} {key key' : String}
    (hsame : canonical key = canonical key') (keys : List String) :
    lastKey canonical keys key = lastKey canonical keys key' := by
  unfold lastKey
  rw [hsame]

/-- A write is found under its key, and under no other. -/
theorem lookupKey_setKey (canonical : String → String) (result : List (String × JSConvertible))
    (key key' : String) (value : Option JSConvertible) :
    lookupKey canonical (setKey canonical result key value) key' =
      if canonical key = canonical key' then value else lookupKey canonical result key' := by
  unfold lookupKey setKey
  cases value with
  | none =>
      dsimp only
      rw [List.find?_filter]
      by_cases hsame : canonical key = canonical key'
      · rw [if_pos hsame, Option.map_eq_none_iff, List.find?_eq_none]
        intro e _
        simp [hsame]
      · rw [if_neg hsame]
        congr 2
        funext e
        by_cases he : canonical e.1 = canonical key'
        · simp [he, Ne.symm hsame]
        · simp [he]
  | some x =>
      dsimp only
      by_cases hany : (result.any fun e => canonical e.1 = canonical key) = true
      · -- the entry that is there has the new value
        rw [if_pos hany, List.find?_map]
        have hkeys : ((fun e : String × JSConvertible => decide (canonical e.1 = canonical key')) ∘
            fun e => if canonical e.1 = canonical key then (e.1, x) else e) =
              fun e => decide (canonical e.1 = canonical key') := by
          funext e
          by_cases he : canonical e.1 = canonical key
          · simp [he]
          · simp [he]
        rw [hkeys, Option.map_map]
        by_cases hsame : canonical key = canonical key'
        · rw [if_pos hsame]
          cases hfind : result.find? fun e => canonical e.1 = canonical key' with
          | none =>
              rcases List.any_eq_true.mp hany with ⟨e, he, heq⟩
              exact absurd (hsame ▸ of_decide_eq_true heq)
                (by simpa using List.find?_eq_none.mp hfind e he)
          | some e =>
              have heq : canonical e.1 = canonical key' := by simpa using List.find?_some hfind
              simp [heq, hsame]
        · rw [if_neg hsame]
          cases hfind : result.find? fun e => canonical e.1 = canonical key' with
          | none => rfl
          | some e =>
              have heq : canonical e.1 = canonical key' := by simpa using List.find?_some hfind
              simp [heq, Ne.symm hsame]
      · rw [if_neg hany, List.find?_append]
        by_cases hsame : canonical key = canonical key'
        · have hnone : (result.find? fun e => canonical e.1 = canonical key') = none := by
            rw [List.find?_eq_none]
            intro e he heq
            exact hany (List.any_eq_true.mpr ⟨e, he, by simpa [hsame] using heq⟩)
          rw [if_pos hsame, hnone]
          simp [hsame]
        · rw [if_neg hsame]
          simp [hsame]

/-- Entries written one after another, with nothing for keys without a value. -/
def fillEntries (canonical : String → String) (value : String → Option JSConvertible)
    (keys : List String) : List (String × JSConvertible) :=
  keys.foldl (fun result key => setKey canonical result key (value key)) []

/-- The entry under a key is that of the last equivalent one. -/
theorem lookupKey_fillEntries (canonical : String → String) (value : String → Option JSConvertible)
    (keys : List String) (key : String) :
    lookupKey canonical (fillEntries canonical value keys) key =
      (lastKey canonical keys key).bind value := by
  induction keys using List.reverseRecOn with
  | nil => rfl
  | append_singleton keys last ih =>
      unfold fillEntries at ih ⊢
      rw [List.foldl_append, List.foldl_cons, List.foldl_nil, lookupKey_setKey, lastKey_append, ih]
      by_cases hsame : canonical last = canonical key
      · rw [if_pos hsame, if_pos hsame, Option.bind_some]
      · rw [if_neg hsame, if_neg hsame]

theorem fillEntries_nodup (canonical : String → String) (value : String → Option JSConvertible)
    (keys : List String) :
    ((fillEntries canonical value keys).map fun e => canonical e.1).Nodup := by
  induction keys using List.reverseRecOn with
  | nil => exact List.nodup_nil
  | append_singleton keys last ih =>
      unfold fillEntries at ih ⊢
      rw [List.foldl_append, List.foldl_cons, List.foldl_nil]
      exact setKey_nodup ih last (value last)

/-- Where keys differ, an entry is the one under its key. -/
theorem lookupKey_of_mem {canonical : String → String} {entries : List (String × JSConvertible)}
    (hnodup : (entries.map fun e => canonical e.1).Nodup) {e : String × JSConvertible}
    (he : e ∈ entries) : lookupKey canonical entries e.1 = some e.2 := by
  unfold lookupKey
  cases hfind : entries.find? fun e' => canonical e'.1 = canonical e.1 with
  | none => exact absurd (List.find?_eq_none.mp hfind e he) (by simp)
  | some e' =>
      have heq : canonical e'.1 = canonical e.1 := by simpa using List.find?_some hfind
      rw [Option.map_some,
        List.inj_on_of_nodup_map hnodup (List.mem_of_find?_eq_some hfind) he heq]

theorem exists_mem_of_lookupKey {canonical : String → String}
    {entries : List (String × JSConvertible)} {key : String} {x : JSConvertible}
    (hlookup : lookupKey canonical entries key = some x) : ∃ e ∈ entries, e.2 = x := by
  rcases Option.map_eq_some_iff.mp hlookup with ⟨e, hfind, hvalue⟩
  exact ⟨e, List.mem_of_find?_eq_some hfind, hvalue⟩

/-! ## Tables of functions -/

/-- The function that a value is. -/
def asFunction : JSConvertible → Option ℕ
  | .jsFunction value _ _ => some value
  | _ => none

theorem asMethods_eq (entries : List (String × JSConvertible)) :
    asMethods (some (.dictionary entries)) =
      entries.mapM fun e => (asFunction e.2).map (Prod.mk e.1) := by
  unfold asMethods
  dsimp only
  congr 1
  funext e
  rcases e with ⟨key, x⟩
  cases x with
  | jsFunction value context name => rfl
  | _ => rfl

/-- A dictionary becomes a table when all of its values are functions. -/
theorem asMethods_isSome_iff (entries : List (String × JSConvertible)) :
    (∃ table, asMethods (some (.dictionary entries)) = some table) ↔
      ∀ e ∈ entries, ∃ func, asFunction e.2 = some func := by
  rw [asMethods_eq]
  induction entries with
  | nil => simp
  | cons e entries ih =>
      rw [List.mapM_cons, List.forall_mem_cons, ← ih]
      cases hfunc : asFunction e.2 with
      | none => simp
      | some func =>
          cases hrest : entries.mapM fun e => (asFunction e.2).map (Prod.mk e.1) with
          | none => simp
          | some rest => simp

/-- Then it has the same function under each key. -/
theorem lookupMethod_of_asMethods {canonical : String → String}
    {entries : List (String × JSConvertible)} {table : List (String × ℕ)}
    (htable : asMethods (some (.dictionary entries)) = some table) (key : String) :
    lookupMethod canonical table key = (lookupKey canonical entries key).bind asFunction := by
  rw [asMethods_eq] at htable
  unfold lookupMethod lookupKey
  induction entries generalizing table with
  | nil =>
      rw [List.mapM_nil] at htable
      rw [← Option.some.inj htable]
      rfl
  | cons e entries ih =>
      rw [List.mapM_cons] at htable
      cases hfunc : asFunction e.2 with
      | none => simp [hfunc] at htable
      | some func =>
          cases hrest : entries.mapM fun e => (asFunction e.2).map (Prod.mk e.1) with
          | none => simp [hfunc, hrest] at htable
          | some rest =>
              simp only [hfunc, hrest, Option.map_some, Option.bind_eq_bind, Option.bind_some,
                Option.pure_def, Option.some.injEq] at htable
              rw [← htable, List.find?_cons, List.find?_cons]
              by_cases hsame : canonical e.1 = canonical key
              · simp [hsame, hfunc]
              · simp only [hsame, decide_false]
                exact ih hrest

/-! ## Values that are functions -/

section Functions

variable {ext : Externals} {h : Heap}

theorem asFunction_eq_some {x : JSConvertible} {func : ℕ} (hx : asFunction x = some func) :
    ∃ context name, x = .jsFunction func context name := by
  cases x with
  | jsFunction value context name =>
      rw [← Option.some.inj hx]
      exact ⟨context, name, rfl⟩
  | _ => exact absurd hx nofun

/-- What decodes to a function is one. -/
theorem eq_object_of_objectFromJSValue {decode : JSValue → Outcome (Option JSConvertible)}
    {v : JSValue} {func context : ℕ} {name : String}
    (hvalue : objectFromJSValue ext decode h v = .ok (some (.jsFunction func context name))) :
    v = .object func := by
  unfold objectFromJSValue at hvalue
  rcases orNext_eq_some hvalue with hdate | ⟨-, hvalue⟩
  · unfold dateFromJSValue at hdate
    repeat' split at hdate
    all_goals simp only [reduceCtorEq, Except.ok.injEq, Option.some.injEq] at hdate
  rcases orNext_eq_some hvalue with harray | ⟨-, hvalue⟩
  · unfold arrayFromJSValue at harray
    repeat' split at harray
    all_goals simp only [reduceCtorEq, Except.ok.injEq, Option.some.injEq] at harray
  rcases orNext_eq_some hvalue with hfunction | ⟨-, hvalue⟩
  · unfold functionFromJSValue at hfunction
    repeat' split at hfunction
    all_goals simp only [reduceCtorEq, Except.ok.injEq, Option.some.injEq] at hfunction
    rw [(JSConvertible.jsFunction.inj hfunction).1]
  rcases orNext_eq_some hvalue with herror | ⟨-, hvalue⟩
  · unfold errorFromJSValue at herror
    split at herror
    · split_ifs at herror
      · rcases Fallible.bind_eq_ok_iff.mp herror with ⟨_, _, herror⟩
        rcases Fallible.bind_eq_ok_iff.mp herror with ⟨_, _, herror⟩
        rcases Fallible.bind_eq_ok_iff.mp herror with ⟨_, _, herror⟩
        rcases Fallible.bind_eq_ok_iff.mp herror with ⟨_, _, herror⟩
        simp only [Except.ok.injEq, Option.some.injEq, reduceCtorEq] at herror
      · simp only [Except.ok.injEq, reduceCtorEq] at herror
    · simp only [Except.ok.injEq, reduceCtorEq] at herror
  rcases orNext_eq_some hvalue with hclass | ⟨-, hvalue⟩
  · unfold classFromJSValue at hclass
    repeat' split at hclass
    all_goals simp only [reduceCtorEq, Except.ok.injEq, Option.some.injEq] at hclass
  · unfold dictionaryFromJSValue at hvalue
    repeat' split at hvalue
    all_goals simp only [reduceCtorEq, Except.ok.injEq, Option.some.injEq] at hvalue

theorem primitiveFromJSValue_ne_function (c : Coercions) (v : JSValue) (func context : ℕ)
    (name : String) : primitiveFromJSValue c v ≠ .ok (some (.jsFunction func context name)) := by
  intro hvalue
  unfold primitiveFromJSValue at hvalue
  rcases orNext_eq_some hvalue with hnull | ⟨-, hvalue⟩
  · unfold nsNullFromJSValue at hnull
    split at hnull
    all_goals simp only [reduceCtorEq, Except.ok.injEq, Option.some.injEq] at hnull
  rcases orNext_eq_some hvalue with hstring | ⟨-, hvalue⟩
  · rw [Except.ok.injEq, Option.map_eq_some_iff] at hstring
    rcases hstring with ⟨s, -, hs⟩
    exact absurd hs nofun
  rcases orNext_eq_some hvalue with hbool | ⟨-, hvalue⟩
  · unfold boolFromJSValue at hbool
    split at hbool
    all_goals simp only [reduceCtorEq, Except.ok.injEq, Option.some.injEq] at hbool
  · unfold numberFromJSValue at hvalue
    repeat' split at hvalue
    all_goals simp only [reduceCtorEq, Except.ok.injEq, Option.some.injEq] at hvalue

/-- What decodes to a function is one. -/
theorem eq_object_of_asFunction {fuel : ℕ} {v : JSValue} {x : JSConvertible} {func : ℕ}
    (hvalue : toJSConvertible ext h fuel v = .ok (some x)) (hx : asFunction x = some func) :
    v = .object func := by
  rcases asFunction_eq_some hx with ⟨context, name, rfl⟩
  cases fuel with
  | zero => exact absurd hvalue nofun
  | succ fuel =>
      cases v with
      | undefinedTag word => exact absurd hvalue nofun
      | exception => exact absurd hvalue nofun
      | _ =>
          rcases orNext_eq_some hvalue with hprimitive | ⟨-, hobject⟩
          · exact absurd hprimitive (primitiveFromJSValue_ne_function _ _ _ _ _)
          · exact eq_object_of_objectFromJSValue hobject

/-- An object decodes to something. -/
theorem toJSConvertible_object_ne_none (fuel ref : ℕ) :
    toJSConvertible ext h fuel (.object ref) ≠ .ok none := by
  have hnext {x y : Outcome (Option JSConvertible)} (hy : y ≠ .ok none) : orNext x y ≠ .ok none := by
    rcases x with stop | _ | a
    · exact nofun
    · exact hy
    · exact nofun
  cases fuel with
  | zero => exact nofun
  | succ fuel =>
      rw [toJSConvertible_object]
      unfold objectFromJSValue
      refine hnext (hnext (hnext (hnext (hnext ?_))))
      unfold dictionaryFromJSValue
      dsimp only
      split
      · exact nofun
      · exact nofun

end Functions

/-- All entries are functions when the last keys of their kind have functions, or nothing. -/
theorem forall_fillEntries_iff (canonical : String → String) (value : String → Option JSConvertible)
    (keys : List String) :
    (∀ e ∈ fillEntries canonical value keys, ∃ func, asFunction e.2 = some func) ↔
      ∀ key ∈ keys, lastKey canonical keys key = some key → ∀ x, value key = some x →
        ∃ func, asFunction x = some func := by
  constructor
  · intro hall key _ hlast x hx
    have hlookup := lookupKey_fillEntries canonical value keys key
    rw [hlast, Option.bind_some, hx] at hlookup
    rcases exists_mem_of_lookupKey hlookup with ⟨e, he, rfl⟩
    exact hall e he
  · intro hall e he
    have hlookup := lookupKey_of_mem (fillEntries_nodup canonical value keys) he
    rw [lookupKey_fillEntries, Option.bind_eq_some_iff] at hlookup
    rcases hlookup with ⟨key, hlast, hvalue⟩
    rcases lastKey_mem hlast with ⟨hmem, hsame⟩
    exact hall key hmem (lastKey_congr hsame keys ▸ hlast) e.2 hvalue

/-! ## Filling a dictionary from an object -/

/-- The keys that Swift sees for some names. -/
def keysOf (atoms : List Atom) : List String := atoms.filterMap fun atom => atom.toJSString.toSwift

theorem keysOf_cons_none {atom : Atom} (hkey : atom.toJSString.toSwift = none) (atoms : List Atom) :
    keysOf (atom :: atoms) = keysOf atoms := by
  unfold keysOf
  rw [List.filterMap_cons, hkey]

theorem keysOf_cons_some {atom : Atom} {key : String} (hkey : atom.toJSString.toSwift = some key)
    (atoms : List Atom) : keysOf (atom :: atoms) = key :: keysOf atoms := by
  unfold keysOf
  rw [List.filterMap_cons, hkey]

section Fill

variable {ext : Externals} {h : Heap} {fuel ref : ℕ}

/-- One property, by its key. -/
theorem entryFromJSValue_eq (result : List (String × JSConvertible)) (atom : Atom) :
    entryFromJSValue ext (toJSConvertible ext h fuel) h ref result atom =
      match atom.toJSString.toSwift with
      | none => .ok result
      | some key => (h.classValue ext fuel ref key).map (setKey ext.canonical result key) := by
  unfold entryFromJSValue Heap.classValue
  cases atom.toJSString.toSwift with
  | none => rfl
  | some key =>
      dsimp only
      cases h.getProperty ref (jsNewAtom key) with
      | error stop => rfl
      | ok v =>
          dsimp only
          cases toJSConvertible ext h fuel v with
          | error stop => rfl
          | ok value => rfl

/-- Where every key can be read, the loop fills the dictionary with what is read. -/
theorem foldlM_entries_of_forall {value : String → Option JSConvertible} (atoms : List Atom)
    (hread : ∀ key ∈ keysOf atoms, h.classValue ext fuel ref key = .ok (value key))
    (result : List (String × JSConvertible)) :
    atoms.foldlM (entryFromJSValue ext (toJSConvertible ext h fuel) h ref) result =
      .ok ((keysOf atoms).foldl (fun result key => setKey ext.canonical result key (value key))
        result) := by
  induction atoms generalizing result with
  | nil => rfl
  | cons atom atoms ih =>
      rw [List.foldlM_cons, entryFromJSValue_eq]
      cases hkey : atom.toJSString.toSwift with
      | none =>
          rw [keysOf_cons_none hkey] at hread ⊢
          exact ih hread result
      | some key =>
          rw [keysOf_cons_some hkey] at hread ⊢
          rw [List.foldl_cons]
          dsimp only
          rw [hread key List.mem_cons_self]
          exact ih (fun key' hkey' => hread key' (List.mem_cons_of_mem _ hkey')) _

/-- And otherwise it does not come to an end. -/
theorem forall_of_foldlM_entries (atoms : List Atom) {result result' : List (String × JSConvertible)}
    (hfold : atoms.foldlM (entryFromJSValue ext (toJSConvertible ext h fuel) h ref) result =
      .ok result') : ∀ key ∈ keysOf atoms, ∃ value, h.classValue ext fuel ref key = .ok value := by
  induction atoms generalizing result with
  | nil => exact fun key hkey => absurd hkey List.not_mem_nil
  | cons atom atoms ih =>
      rw [List.foldlM_cons, entryFromJSValue_eq] at hfold
      rcases Fallible.bind_eq_ok_iff.mp hfold with ⟨acc, hstep, hrest⟩
      cases hkey : atom.toJSString.toSwift with
      | none =>
          rw [keysOf_cons_none hkey]
          exact ih hrest
      | some key =>
          rw [keysOf_cons_some hkey]
          refine List.forall_mem_cons.mpr ⟨?_, ih hrest⟩
          rw [hkey] at hstep
          dsimp only at hstep
          cases hvalue : h.classValue ext fuel ref key with
          | error stop =>
              rw [hvalue] at hstep
              exact absurd hstep nofun
          | ok value => exact ⟨value, rfl⟩

end Fill

end Substrata
