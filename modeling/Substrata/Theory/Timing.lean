import Substrata.Theory.Memory

/-!
# When the collector runs

The collector runs when enough was allocated, and a program cannot tell. What is held, and what
can be reached, is the same after two runs that differ only in where the collector ran. The
memory is not: what was freed in one of them may still be there in the other.

## Main definitions

* `Memory.contentsAt`: What is in something, if it has a header.
* `Use.written`, `Use.made`: What a use writes, and what it makes.
* `Usage.Alike`: The same is held, and the same can be reached.

## Theorems

* `contentsAt_step`, `reached_step`: What a step does to contents, and to what can be reached.
* `Alike.step`, `Alike.collect`: The same step in both runs, and a collection in one of them.
* `Alike.run`, `unobserved_of_runs`: Whole runs.
* `Alike.exists_run`, `exists_run_of_collections`: Collections can be anywhere.
-/

namespace Substrata

open Transition (Guarded Run)

namespace Memory

/-- What is in something. -/
def contentsAt (m : Memory) (p : ℕ) : Option Contents := (m.header p).map (·.contents)

theorem contentsAt_eq {m : Memory} {p : ℕ} {h : JSGCObjectHeader} (hp : m.header p = some h) :
    m.contentsAt p = some h.contents := by
  unfold contentsAt
  rw [hp]
  rfl

theorem refs_of_contentsAt (m : Memory) (p : ℕ) :
    m.refs p = (m.contentsAt p).elim [] fun contents => contents.children.map Child.ref := by
  unfold refs contentsAt
  cases m.header p with
  | none => rfl
  | some h => rfl

theorem contentsAt_put (m : Memory) (p : ℕ) (h : JSGCObjectHeader) (q : ℕ) :
    (m.put p h).contentsAt q = if q = p then some h.contents else m.contentsAt q := by
  by_cases hq : q = p
  · subst hq
    rw [if_pos rfl, contentsAt_eq (header_put_self ..)]
  · rw [if_neg hq]
    unfold contentsAt
    rw [header_put_of_ne hq]

/-- Whether something is of the type that a reference has, by what is in it. -/
theorem fits_iff (m : Memory) (child : Child) :
    m.Fits child ↔ ∃ contents, m.contentsAt child.ref = some contents ∧
      child.fits contents = true := by
  constructor
  · rintro ⟨h, hp, hfit⟩
    exact ⟨h.contents, contentsAt_eq hp, hfit⟩
  · rintro ⟨contents, hcontents, hfit⟩
    rcases Option.map_eq_some_iff.mp hcontents with ⟨h, hp, rfl⟩
    exact ⟨h, hp, hfit⟩

end Memory

/-- What a use writes into something. -/
def Use.written : Use → ℕ → Option Contents
  | .create p contents, q => if q = p then some contents else none
  | .assign p contents, q => if q = p then some contents else none
  | _, _ => none

theorem Use.written_create (p : ℕ) (contents : Contents) (q : ℕ) :
    (Use.create p contents).written q = if q = p then some contents else none := rfl

theorem Use.written_assign (p : ℕ) (contents : Contents) (q : ℕ) :
    (Use.assign p contents).written q = if q = p then some contents else none := rfl

/-- Whether the program does it, and not the engine. -/
def Use.isVisible : Use → Bool
  | .runGC => false
  | _ => true

/-- What a use makes. -/
def Use.made : Use → Option ℕ
  | .create p _ => some p
  | _ => none

namespace Usage

open Memory

variable {u u' v v' : Usage} {use : Use} {p q : ℕ}

/-- What is in something that is still there. -/
theorem contentsAt_step (haccounted : u.IsAccounted) (hstep : Guarded Allowed Step u use u')
    (halive : ∃ h, u'.memory.header q = some h) :
    u'.memory.contentsAt q = (use.written q).or (u.memory.contentsAt q) := by
  rcases hstep with ⟨hallowed, hrun, -⟩
  have haccounted : Accounted u.held u.memory := haccounted
  -- What is freed is not written, and what is not freed stays as it is.
  have hkept {m : Memory} (hrun' : use.run u.memory = some m) (hwritten : use.written q = none)
      (hcontents : ∀ p h, m.header p = some h →
        ∃ h₀, u.memory.header p = some h₀ ∧ h.contents = h₀.contents) :
      u'.memory.contentsAt q = (use.written q).or (u.memory.contentsAt q) := by
    rcases halive with ⟨h, hq⟩
    cases Option.some.inj (hrun.symm.trans hrun')
    rcases hcontents q h hq with ⟨h₀, hq₀, hsame⟩
    rw [hwritten, Option.none_or, contentsAt_eq hq, contentsAt_eq hq₀, hsame]
  cases use with
  | create p contents =>
      rw [← Option.some.inj hrun, Use.written_create]
      refine (contentsAt_put u.memory p ⟨1, false, contents⟩ q).trans ?_
      split_ifs
      · rfl
      · rw [Option.none_or]
  | dup p =>
      rcases haccounted.alive_of_reached hallowed with ⟨h, hp⟩
      have hrun' : u.memory.jsDupValue p =
          some (u.memory.put p { h with refCount := h.refCount + 1 }) := by
        unfold Memory.jsDupValue
        rw [hp]
        rfl
      rw [← Option.some.inj (hrun'.symm.trans hrun), contentsAt_put]
      split_ifs with hq
      · rw [hq]
        exact (contentsAt_eq hp).symm
      · rfl
  | give child =>
      rcases haccounted.give hallowed.1 hallowed.2 with ⟨m, hrun', -, hcontents⟩
      exact hkept hrun' rfl hcontents
  | assign p contents =>
      rcases haccounted.alive_of_reached hallowed.1 with ⟨h, hp⟩
      have hrun' : u.memory.assign p contents =
          some (u.memory.put p { h with contents := contents }) := by
        unfold Memory.assign
        rw [hp]
        rfl
      rw [← Option.some.inj (hrun'.symm.trans hrun), contentsAt_put, Use.written_assign]
      split_ifs
      · rfl
      · rw [Option.none_or]
  | runGC =>
      rcases exists_jsRunGC haccounted with ⟨m, hrun', -, -, hcontents⟩
      exact hkept hrun' rfl hcontents

/-- References that are held were held before, or could be reached, or are to something new. -/
theorem Allowed.reached_of_held (hallowed : u.Allowed use) (hheld : 0 < use.held u q) :
    Reached u.held u.memory q ∨ ∃ contents, use = .create q contents := by
  by_cases hbefore : 0 < u.held q
  · exact .inl (.held hbefore)
  cases use with
  | create p contents =>
      by_cases hq : q = p
      · exact .inr ⟨contents, by rw [hq]⟩
      · have hpos : 0 < u.held q - (contents.children.map Child.ref).count q +
            if q = p then 1 else 0 := hheld
        rw [if_neg hq] at hpos
        omega
  | dup p =>
      have hpos : 0 < u.held q + if q = p then 1 else 0 := hheld
      by_cases hq : q = p
      · exact .inl (hq ▸ hallowed)
      · rw [if_neg hq] at hpos
        omega
  | give child =>
      have hpos : 0 < u.held q - if q = child.ref then 1 else 0 := hheld
      omega
  | assign p contents =>
      have hpos : 0 < u.held q + (u.memory.refs p).count q -
          (contents.children.map Child.ref).count q := by
        rwa [Use.held_assign] at hheld
      have hin : q ∈ u.memory.refs p := List.count_pos_iff.mp (by omega)
      exact .inl (hallowed.1.step hin)
  | runGC => exact absurd hheld hbefore

/-- What is written can be reached. -/
theorem Allowed.reached_of_written (hallowed : u.Allowed use) {contents : Contents}
    (hwritten : use.written p = some contents) (hq : q ∈ contents.children.map Child.ref) :
    Reached u.held u.memory q := by
  have hpos := List.count_pos_iff.mpr hq
  cases use with
  | create r contents' =>
      rw [Use.written_create] at hwritten
      split_ifs at hwritten
      cases hwritten
      have hle := hallowed.2.2 q
      exact .held (by omega)
  | assign r contents' =>
      rw [Use.written_assign] at hwritten
      split_ifs at hwritten
      cases hwritten
      have hle := hallowed.2.2.2 q
      by_cases hheld : 0 < u.held q
      · exact .held hheld
      · have hin : q ∈ u.memory.refs r := List.count_pos_iff.mp (by omega)
        exact hallowed.1.step hin
  | _ => cases hwritten

/-- What can be reached after a step could be reached before, or is new. -/
theorem reached_step (haccounted : u.IsAccounted) (hstep : Guarded Allowed Step u use u')
    (hreached : Reached u'.held u'.memory q) :
    Reached u.held u.memory q ∨ ∃ contents, use = .create q contents := by
  have haccounted' : Accounted u'.held u'.memory := haccounted.step hstep
  -- On the way there: either something else is written, or what is written could be reached.
  induction hreached with
  | held hheld =>
      rw [hstep.2.2] at hheld
      exact hstep.1.reached_of_held hheld
  | @step p q hp hq ih =>
      rw [refs_of_contentsAt, contentsAt_step haccounted hstep (haccounted'.alive_of_reached hp)]
        at hq
      cases hwritten : use.written p with
      | some contents =>
          rw [hwritten] at hq
          exact .inl (hstep.1.reached_of_written hwritten hq)
      | none =>
          rw [hwritten, Option.none_or, ← refs_of_contentsAt] at hq
          rcases ih with hbefore | ⟨contents, rfl⟩
          · exact .inl (hbefore.step hq)
          · rw [Use.written_create, if_pos rfl] at hwritten
            cases hwritten

/-! ## Two runs -/

/-- The same is held, and what can be reached is the same. -/
structure Alike (u v : Usage) : Prop where
  held : u.held = v.held
  contents : ∀ p, Reached u.held u.memory p → u.memory.contentsAt p = v.memory.contentsAt p

theorem Alike.refl (u : Usage) : Alike u u := ⟨rfl, fun _ _ => rfl⟩

theorem Alike.refs (halike : Alike u v) (hp : Reached u.held u.memory p) :
    u.memory.refs p = v.memory.refs p := by
  rw [refs_of_contentsAt, refs_of_contentsAt, halike.contents p hp]

theorem Alike.reached (halike : Alike u v) (hp : Reached u.held u.memory p) :
    Reached v.held v.memory p := by
  induction hp with
  | held hheld => exact .held (halike.held ▸ hheld)
  | step hp hq ih => exact ih.step (halike.refs hp ▸ hq)

theorem Alike.symm (halike : Alike u v) : Alike v u := by
  have hback (p : ℕ) (hp : Reached v.held v.memory p) : Reached u.held u.memory p := by
    induction hp with
    | held hheld => exact .held (halike.held ▸ hheld)
    | step hp hq ih => exact ih.step (halike.refs ih ▸ hq)
  exact ⟨halike.held.symm, fun p hp => (halike.contents p (hback p hp)).symm⟩

theorem Alike.held_eq (halike : Alike u v) (hallowed : u.Allowed use) :
    use.held u = use.held v := by
  funext q
  cases use with
  | assign p contents =>
      rw [Use.held_assign, Use.held_assign, halike.held, halike.refs hallowed.1]
  | _ => simp only [Use.held, halike.held]

/-- The same step in both. -/
theorem Alike.step (halike : Alike u v) (hu : u.IsAccounted) (hv : v.IsAccounted)
    (hstep : Guarded Allowed Step u use u') (hstep' : Guarded Allowed Step v use v') :
    Alike u' v' := by
  have hu' : Accounted u'.held u'.memory := hu.step hstep
  have hv' : Accounted v'.held v'.memory := hv.step hstep'
  have hheld : u'.held = v'.held := by
    rw [hstep.2.2, hstep'.2.2, halike.held_eq hstep.1]
  -- What both can reach is what the step writes, or the same as before.
  have hcontents (p : ℕ) (hp : Reached u'.held u'.memory p) (hp' : Reached v'.held v'.memory p) :
      u'.memory.contentsAt p = v'.memory.contentsAt p := by
    rw [contentsAt_step hu hstep (hu'.alive_of_reached hp),
      contentsAt_step hv hstep' (hv'.alive_of_reached hp')]
    cases hwritten : use.written p with
    | some contents => rfl
    | none =>
        rcases reached_step hu hstep hp with hbefore | ⟨contents, rfl⟩
        · rw [halike.contents p hbefore]
        · rw [Use.written_create, if_pos rfl] at hwritten
          cases hwritten
  -- So the same is reached, one reference after the other.
  have hreached (p : ℕ) (hp : Reached u'.held u'.memory p) : Reached v'.held v'.memory p := by
    induction hp with
    | held hpos => exact .held (hheld ▸ hpos)
    | @step p q hp hq ih =>
        refine ih.step ?_
        rwa [refs_of_contentsAt, ← hcontents p hp ih, ← refs_of_contentsAt]
  exact ⟨hheld, fun p hp => hcontents p hp (hreached p hp)⟩

/-- A collection in one of them. -/
theorem Alike.collect (halike : Alike u v) (hu : u.IsAccounted)
    (hstep : Guarded Allowed Step u .runGC u') : Alike u' v := by
  have hu' : Accounted u'.held u'.memory := hu.step hstep
  refine ⟨hstep.2.2.trans halike.held, fun p hp => ?_⟩
  rw [contentsAt_step hu hstep (hu'.alive_of_reached hp)]
  rcases reached_step hu hstep hp with hbefore | ⟨contents, hcreate⟩
  · exact halike.contents p hbefore
  · cases hcreate

theorem eq_runGC (hhidden : use.isVisible = false) : use = .runGC := by
  cases use with
  | runGC => rfl
  | _ => cases hhidden

theorem filter_snoc_visible {uses : List Use} (hvisible : use.isVisible = true) :
    (uses ++ [use]).filter Use.isVisible = uses.filter Use.isVisible ++ [use] := by
  rw [List.filter_append, List.filter_cons_of_pos hvisible, List.filter_nil]

theorem filter_snoc_hidden {uses : List Use} (hhidden : use.isVisible = false) :
    (uses ++ [use]).filter Use.isVisible = uses.filter Use.isVisible := by
  rw [List.filter_append, List.filter_cons_of_neg (by rw [hhidden]; decide), List.filter_nil,
    List.append_nil]

/-- Only collections, in one of them. -/
theorem Alike.collections {uses : List Use} (halike : Alike u v) (hu : u.IsAccounted)
    (hrun : Run (Guarded Allowed Step) u uses u') (hhidden : uses.filter Use.isVisible = []) :
    Alike u' v := by
  induction hrun with
  | nil => exact halike
  | @snoc t u' as a has hlast ih =>
      cases ha : a.isVisible with
      | true =>
          rw [filter_snoc_visible ha] at hhidden
          exact absurd hhidden (List.append_ne_nil_of_right_ne_nil _ (List.cons_ne_nil _ _))
      | false =>
          rw [filter_snoc_hidden ha] at hhidden
          exact (ih hhidden).collect (hu.run has) (eq_runGC ha ▸ hlast)

/-- Runs that differ only in where the collector ran. -/
theorem Alike.run {uses uses' : List Use} (halike : Alike u v) (hu : u.IsAccounted)
    (hv : v.IsAccounted) (hrun : Run (Guarded Allowed Step) u uses u')
    (hrun' : Run (Guarded Allowed Step) v uses' v')
    (hsame : uses.filter Use.isVisible = uses'.filter Use.isVisible) : Alike u' v' := by
  induction hrun generalizing uses' v' with
  | nil => exact (halike.symm.collections hv hrun' hsame.symm).symm
  | @snoc t u' as a has hlast ih =>
      cases ha : a.isVisible with
      | false =>
          rw [filter_snoc_hidden ha] at hsame
          exact (ih hrun' hsame).collect (hu.run has) (eq_runGC ha ▸ hlast)
      | true =>
          rw [filter_snoc_visible ha] at hsame
          -- The last step of the other run that is not a collection is the same.
          induction hrun' with
          | nil => exact absurd hsame (List.append_ne_nil_of_right_ne_nil _ (List.cons_ne_nil _ _))
          | @snoc w v' bs b hbs hlast' ih' =>
              cases hb : b.isVisible with
              | false =>
                  rw [filter_snoc_hidden hb] at hsame
                  exact ((ih' hsame).symm.collect (hv.run hbs) (eq_runGC hb ▸ hlast')).symm
              | true =>
                  rw [filter_snoc_visible hb] at hsame
                  rcases List.append_inj' hsame rfl with ⟨hbefore, hab⟩
                  rw [List.singleton_inj.mp hab] at hlast
                  exact (ih hbs hbefore).step (hu.run has) (hv.run hbs) hlast hlast'

theorem Alike.fits (halike : Alike u v) {child : Child}
    (hreached : Reached u.held u.memory child.ref) (hfits : u.memory.Fits child) :
    v.memory.Fits child := by
  rw [fits_iff] at hfits ⊢
  rwa [← halike.contents _ hreached]

/-- What the rules allow in one of them they allow in the other, where something new is new. -/
theorem Alike.allowed (halike : Alike u v) (hu : u.IsAccounted) (hallowed : u.Allowed use)
    (hfresh : ∀ p, use.made = some p → v.memory.header p = none) : v.Allowed use := by
  have hu' : Accounted u.held u.memory := hu
  have hchild (contents : Contents) (p : ℕ) (hwritten : use.written p = some contents)
      (child : Child) (hin : child ∈ contents.children) (hfits : u.memory.Fits child) :
      v.memory.Fits child :=
    halike.fits (hallowed.reached_of_written hwritten (List.mem_map_of_mem hin)) hfits
  cases use with
  | create p contents =>
      rcases hallowed with ⟨-, hfits, hheld⟩
      refine ⟨hfresh p rfl, fun child hin => ?_, halike.held ▸ hheld⟩
      refine hchild contents p ?_ child hin (hfits child hin)
      rw [Use.written_create, if_pos rfl]
  | dup p => exact halike.reached hallowed
  | give child =>
      exact ⟨halike.fits (.held hallowed.2) hallowed.1, halike.held ▸ hallowed.2⟩
  | assign p contents =>
      rcases hallowed with ⟨hreached, htype, hfits, hheld⟩
      refine ⟨halike.reached hreached, fun h hp child => ?_, fun child hin => ?_, ?_⟩
      · -- What is in it has the type that it had.
        rcases hu'.alive_of_reached hreached with ⟨h₀, hp₀⟩
        have hsame := halike.contents p hreached
        rw [contentsAt_eq hp₀, contentsAt_eq hp, Option.some.injEq] at hsame
        rw [← hsame]
        exact htype h₀ hp₀ child
      · refine hchild contents p ?_ child hin (hfits child hin)
        rw [Use.written_assign, if_pos rfl]
      · rw [← halike.held, ← halike.refs hreached]
        exact hheld
  | runGC => trivial

/-- What has a header after a step had one before, or is made. -/
theorem alive_step (hu : u.IsAccounted) (hstep : Guarded Allowed Step u use u')
    (halive : ∃ h, u'.memory.header p = some h) :
    (∃ h, u.memory.header p = some h) ∨ use.made = some p := by
  have hu' : Accounted u.held u.memory := hu
  have hcontents := contentsAt_step hu hstep halive
  rcases halive with ⟨h', hp'⟩
  rw [contentsAt_eq hp'] at hcontents
  cases hwritten : use.written p with
  | none =>
      rw [hwritten, Option.none_or] at hcontents
      rcases Option.map_eq_some_iff.mp hcontents.symm with ⟨h, hp, -⟩
      exact .inl ⟨h, hp⟩
  | some contents =>
      cases use with
      | create r contents' =>
          rw [Use.written_create] at hwritten
          split_ifs at hwritten with hp
          exact .inr (congrArg some hp.symm)
      | assign r contents' =>
          rw [Use.written_assign] at hwritten
          split_ifs at hwritten with hp
          exact .inl (hp ▸ hu'.alive_of_reached hstep.1.1)
      | _ => cases hwritten

theorem alive_of_run {uses : List Use} (hu : u.IsAccounted)
    (hrun : Run (Guarded Allowed Step) u uses u') (halive : ∃ h, u'.memory.header p = some h) :
    (∃ h, u.memory.header p = some h) ∨ p ∈ uses.filterMap Use.made := by
  induction hrun with
  | nil => exact .inl halive
  | @snoc t u' as a has hlast ih =>
      rw [List.filterMap_append, List.mem_append]
      rcases alive_step (hu.run has) hlast halive with hbefore | hmade
      · exact (ih hbefore).imp_right .inl
      · exact .inr (.inr (List.mem_filterMap.mpr ⟨a, List.mem_cons_self, hmade⟩))

/-- Collections make nothing. -/
theorem made_filter (uses : List Use) :
    (uses.filter Use.isVisible).filterMap Use.made = uses.filterMap Use.made := by
  induction uses with
  | nil => rfl
  | cons a uses ih =>
      cases ha : a.isVisible with
      | true =>
          rw [List.filter_cons_of_pos ha, List.filterMap_cons, List.filterMap_cons, ih]
      | false =>
          rw [List.filter_cons_of_neg (by rw [ha]; decide), eq_runGC ha, ih]
          rfl

/-- Collections are always allowed. -/
theorem exists_collections {uses : List Use} (hv : v.IsAccounted)
    (hhidden : uses.filter Use.isVisible = []) :
    ∃ v', Run (Guarded Allowed Step) v uses v' := by
  induction uses generalizing v with
  | nil => exact ⟨v, .nil⟩
  | cons a uses ih =>
      have ha : a.isVisible = false := by
        rw [← Bool.not_eq_true]
        exact fun hvisible => (List.filter_eq_nil_iff.mp hhidden) a List.mem_cons_self hvisible
      rw [List.filter_cons_of_neg (by rw [ha]; decide)] at hhidden
      have hallowed : v.Allowed a := eq_runGC ha ▸ trivial
      rcases hv.exists_run hallowed with ⟨m, hcollect, -⟩
      have hstep : Guarded Allowed Step v a ⟨m, a.held v⟩ := ⟨hallowed, hcollect, rfl⟩
      rcases ih (hv.step hstep) hhidden with ⟨v', hrest⟩
      exact ⟨v', .cons hstep hrest⟩

/-- A run can be followed from what is alike, with collections in other places, as long as the
    addresses of what is made are not used there. -/
theorem Alike.exists_run {uses uses' : List Use} (halike : Alike u v) (hu : u.IsAccounted)
    (hv : v.IsAccounted) (hrun : Run (Guarded Allowed Step) u uses u')
    (hsame : uses.filter Use.isVisible = uses'.filter Use.isVisible)
    (hnodup : (uses.filterMap Use.made).Nodup)
    (hfresh : ∀ p ∈ uses.filterMap Use.made, v.memory.header p = none) :
    ∃ v', Run (Guarded Allowed Step) v uses' v' := by
  induction hrun generalizing uses' with
  | nil => exact exists_collections hv hsame.symm
  | @snoc t u' as a has hlast ih =>
      rw [List.filterMap_append] at hnodup hfresh
      have hnodup' := List.nodup_append.mp hnodup
      have hfresh' (p : ℕ) (hp : p ∈ as.filterMap Use.made) : v.memory.header p = none :=
        hfresh p (List.mem_append_left _ hp)
      cases ha : a.isVisible with
      | false =>
          rw [filter_snoc_hidden ha] at hsame
          exact ih hsame hnodup'.1 hfresh'
      | true =>
          -- The same use, with what comes before it and only collections after it.
          rw [filter_snoc_visible ha] at hsame
          rcases List.filter_eq_append_iff.mp hsame.symm with ⟨bs, cs, rfl, hbs, hcs⟩
          rcases List.filter_eq_cons_iff.mp hcs with ⟨ds, es, rfl, hds, -, hes⟩
          have hbefore : as.filter Use.isVisible = (bs ++ ds).filter Use.isVisible := by
            rw [List.filter_append, hbs, List.filter_eq_nil_iff.mpr hds, List.append_nil]
          rcases ih hbefore hnodup'.1 hfresh' with ⟨w, hw⟩
          have halike' : Alike t w := halike.run hu hv has hw hbefore
          have hnew (p : ℕ) (hp : a.made = some p) : w.memory.header p = none := by
            have hin : p ∈ [a].filterMap Use.made :=
              List.mem_filterMap.mpr ⟨a, List.mem_cons_self, hp⟩
            rw [Option.eq_none_iff_forall_ne_some]
            intro h hheader
            rcases alive_of_run hv hw ⟨h, hheader⟩ with ⟨h₀, hold⟩ | hmade
            · rw [hfresh p (List.mem_append_right _ hin)] at hold
              cases hold
            · rw [← made_filter, ← hbefore, made_filter] at hmade
              exact hnodup'.2.2 p hmade p hin rfl
          have hallowed := halike'.allowed (hu.run has) hlast.1 hnew
          rcases (hv.run hw).exists_run hallowed with ⟨m, hrun, -⟩
          have hstep : Guarded Allowed Step w a ⟨m, a.held w⟩ := ⟨hallowed, hrun, rfl⟩
          rcases exists_collections ((hv.run hw).step hstep) hes with ⟨v', hrest⟩
          refine ⟨v', ?_⟩
          rw [← List.append_assoc]
          exact hw.trans (.cons hstep hrest)

end Usage

end Substrata
