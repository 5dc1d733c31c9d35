import Substrata.Basis.Run
import Substrata.Theory.Collection

/-!
# Memory safety

The engine and native code make things, duplicate and give up references, write fields, and let
the collector run. As long as nobody gives up a reference that they do not hold, and fields get
references of their types, no header is ever read after it was freed, no assertion fails, and
what can be reached has its memory.

## Main definitions

* `Usage.Allowed`: The rules for whoever uses the memory.

## Theorems

* `Memory.Accounted.create`, `dup`, `give`, `assign`: The counts stay right.
* `Usage.IsAccounted.exists_run`: Nothing that is allowed stops the program.
* `Usage.safe_of_run`: Whole runs.
-/

namespace Substrata

namespace Memory

variable {held : ℕ → ℕ} {m m' : Memory} {p : ℕ} {h : JSGCObjectHeader}

/-- Nothing holds or refers to what has no header. -/
theorem Accounted.indegree_eq_zero (haccounted : Accounted held m) (hp : m.header p = none) :
    held p = 0 ∧ m.indegree p = 0 := by
  refine ⟨Nat.eq_zero_of_not_pos fun hheld => ?_, List.count_eq_zero.mpr fun hin => ?_⟩
  · rcases haccounted.settled.balanced.heldAlive p hheld with ⟨h, hp'⟩
    rw [hp] at hp'
    cases hp'
  · rcases List.mem_flatMap.mp hin with ⟨q, -, hq⟩
    rcases haccounted.alive hq with ⟨h, hp'⟩
    rw [hp] at hp'
    cases hp'

theorem Accounted.pos (haccounted : Accounted held m) (hp : m.header p = some h) :
    0 < h.refCount := by
  cases hvalue : h.contents.isValue with
  | false => exact haccounted.settled.tidy.counted p h hp List.not_mem_nil hvalue
  | true =>
      have hphase : m.gcPhase ≠ .removeCycles := by
        rw [haccounted.settled.gcPhase]
        decide
      have hcount := haccounted.count hp
      by_contra hnot
      have hwaits := (haccounted.settled.tidy.waiting hphase p).mpr ⟨h, hp, hvalue, by omega⟩
      rw [haccounted.zero] at hwaits
      cases hwaits

/-- Something new, with references that were held. -/
theorem Accounted.create (haccounted : Accounted held m) {contents : Contents}
    (hp : m.header p = none) (hfits : ∀ child ∈ contents.children, m.Fits child)
    (hheld : ∀ q, (contents.children.map Child.ref).count q ≤ held q) :
    Accounted (fun q => held q - (contents.children.map Child.ref).count q +
      if q = p then 1 else 0) (m.addGcObject p contents) := by
  have hfresh : p ∉ m.gcObjList := fun hin => by
    rcases (haccounted.mem p).mp hin with ⟨h, hp'⟩
    rw [hp] at hp'
    cases hp'
  have hself : (m.addGcObject p contents).header p = some ⟨1, false, contents⟩ :=
    Function.update_self ..
  have hothers {q : ℕ} (hne : q ≠ p) : (m.addGcObject p contents).header q = m.header q :=
    Function.update_of_ne hne _ _
  have hne (child : Child) (hchild : m.Fits child) : child.ref ≠ p := by
    rintro rfl
    rcases hchild with ⟨h, hp', -⟩
    rw [hp] at hp'
    cases hp'
  have hcarried (child : Child) (hchild : m.Fits child) :
      (m.addGcObject p contents).Fits child := by
    rcases hchild with ⟨h, hp', hfit⟩
    exact ⟨h, (hothers (hne child ⟨h, hp', hfit⟩)).trans hp', hfit⟩
  have hindegree (q : ℕ) : (m.addGcObject p contents).indegree q
      = m.indegree q + (contents.children.map Child.ref).count q := by
    have hold : m.gcObjList.flatMap (m.addGcObject p contents).refs =
        m.gcObjList.flatMap m.refs := by
      refine List.flatMap_congr fun r hr => ?_
      unfold refs
      rw [hothers fun heq => hfresh (heq ▸ hr)]
    show ((m.gcObjList ++ [p]).flatMap (m.addGcObject p contents).refs).count q = _
    rw [List.flatMap_append, hold, List.flatMap_cons, List.flatMap_nil, List.append_nil,
      List.count_append, refs_eq hself]
    rfl
  -- Something new has no references to itself yet.
  have hnone : (contents.children.map Child.ref).count p = 0 := by
    refine List.count_eq_zero.mpr fun hin => ?_
    rcases List.mem_map.mp hin with ⟨child, hchild, href⟩
    exact hne child (hfits child hchild) href
  rcases haccounted.indegree_eq_zero hp with ⟨hheldp, hindegreep⟩
  refine accounted_of_counts haccounted.settled.gcPhase haccounted.zero haccounted.tmpObjList
    (nodup_snoc haccounted.toListed.nodup hfresh) (fun q => ?_) (fun q h' hq => ?_) fun q hq => ?_
  · show q ∈ m.gcObjList ++ [p] ↔ _
    rw [List.mem_append, List.mem_singleton]
    by_cases hqp : q = p
    · subst hqp
      exact iff_of_true (.inr rfl) ⟨_, hself⟩
    · rw [or_iff_left hqp, hothers hqp]
      exact haccounted.mem q
  · by_cases hqp : q = p
    · subst hqp
      rw [hself] at hq
      cases hq
      refine ⟨rfl, Int.one_pos, ?_, fun child hchild => hcarried child (hfits child hchild)⟩
      rw [hindegree, hnone, hheldp, hindegreep, if_pos rfl]
      rfl
    · rw [hothers hqp] at hq
      refine ⟨haccounted.unmarked q h' hq, haccounted.pos hq, ?_, fun child hchild =>
        hcarried child (haccounted.fits hq hchild)⟩
      have hle := hheld q
      rw [haccounted.count hq, hindegree, if_neg hqp]
      omega
  · by_cases hqp : q = p
    · subst hqp
      exact ⟨_, hself⟩
    · rw [if_neg hqp] at hq
      rw [hothers hqp]
      exact haccounted.settled.balanced.heldAlive q (by omega)

/-- One more reference is held. -/
theorem Accounted.dup (haccounted : Accounted held m) (hreached : Reached held m p) :
    ∃ m', m.jsDupValue p = some m' ∧
      Accounted (fun q => held q + if q = p then 1 else 0) m' := by
  rcases haccounted.alive_of_reached hreached with ⟨h, hp⟩
  refine ⟨m.put p { h with refCount := h.refCount + 1 }, ?_, ?_⟩
  · unfold jsDupValue
    rw [hp]
    rfl
  have hindegree (q : ℕ) :
      (m.put p { h with refCount := h.refCount + 1 }).indegree q = m.indegree q := by
    have hrefs : (m.put p { h with refCount := h.refCount + 1 }).refs = m.refs := refs_put hp rfl
    unfold indegree
    rw [hrefs]
    rfl
  have hback (q : ℕ) (h' : JSGCObjectHeader)
      (hq : (m.put p { h with refCount := h.refCount + 1 }).header q = some h') :
      ∃ h₀, m.header q = some h₀ ∧ h'.contents = h₀.contents ∧ h'.mark = h₀.mark ∧
        h'.refCount = h₀.refCount + if q = p then 1 else 0 := by
    by_cases hne : q = p
    · subst hne
      rw [header_put_self] at hq
      cases hq
      exact ⟨h, hp, rfl, rfl, by rw [if_pos rfl]⟩
    · refine ⟨h', (header_put_of_ne hne _).symm.trans hq, rfl, rfl, ?_⟩
      rw [if_neg hne, Int.add_zero]
  have halive (q : ℕ) (hq : ∃ h, m.header q = some h) :
      ∃ h', (m.put p { h with refCount := h.refCount + 1 }).header q = some h' := by
    rcases hq with ⟨h₀, hq⟩
    by_cases hne : q = p
    · subst hne
      exact ⟨_, header_put_self ..⟩
    · exact ⟨h₀, (header_put_of_ne hne _).trans hq⟩
  refine accounted_of_counts haccounted.settled.gcPhase haccounted.zero haccounted.tmpObjList
    haccounted.toListed.nodup (fun q => ?_) (fun q h' hq => ?_) fun q hq => ?_
  · refine (haccounted.mem q).trans ⟨halive q, ?_⟩
    rintro ⟨h', hq⟩
    rcases hback q h' hq with ⟨h₀, hq₀, -⟩
    exact ⟨h₀, hq₀⟩
  · rcases hback q h' hq with ⟨h₀, hq₀, hcontents, hmark, hcount⟩
    have hpos := haccounted.pos hq₀
    refine ⟨hmark.trans (haccounted.unmarked q h₀ hq₀), ?_, ?_, fun child hchild => ?_⟩
    · rw [hcount]
      split_ifs
      · omega
      · omega
    · rw [hcount, haccounted.count hq₀, hindegree]
      split_ifs
      · push_cast
        omega
      · push_cast
        omega
    · rw [hcontents] at hchild
      exact (haccounted.fits hq₀ hchild).put hp rfl
  · by_cases hne : q = p
    · subst hne
      exact ⟨_, header_put_self ..⟩
    · rw [if_neg hne] at hq
      exact halive q (haccounted.settled.balanced.heldAlive q hq)

/-- A reference that is held is given up. -/
theorem Accounted.give (haccounted : Accounted held m) {child : Child} (hfits : m.Fits child)
    (hheld : 0 < held child.ref) :
    ∃ m', m.jsFreeChild child = some m' ∧
      Accounted (fun q => held q - if q = child.ref then 1 else 0) m' ∧
      ∀ q h', m'.header q = some h' → ∃ h₀, m.header q = some h₀ ∧ h'.contents = h₀.contents := by
  have hsettled := haccounted.settled
  -- The reference is not held any more, and still to be given up.
  have hpending : Settled .none (fun q => held q - if q = child.ref then 1 else 0) [] [child] m :=
    { hsettled with
      balanced :=
        { hsettled.balanced with
          count := fun q h hq => by
            rw [hsettled.balanced.count q h hq, owed_cons]
            by_cases hne : q = child.ref
            · subst hne
              rw [if_pos rfl]
              omega
            · rw [if_neg hne, if_neg (Ne.symm hne)]
              rfl
          pendingFits := fun child' hchild => by
            rw [List.mem_singleton.mp hchild]
            exact hfits
          heldAlive := fun q hq => hsettled.balanced.heldAlive q (by omega) } }
  -- Freeing may go on to other things, but what is left has the contents that it had.
  rcases gives_jsFreeChild child hpending with ⟨m', hrun, hsettled', hframe⟩
  refine ⟨m', hrun, ⟨hsettled', ?_, fun q h' hq => ?_⟩, fun q h' hq => ?_⟩
  · have hsub := hframe.tmpObjList
    rw [haccounted.tmpObjList] at hsub
    exact List.sublist_nil.mp hsub
  · rcases hframe.header q h' hq with ⟨h₀, hq₀, -, hmark, -⟩
    exact hmark.trans (haccounted.unmarked q h₀ hq₀)
  · rcases hframe.header q h' hq with ⟨h₀, hq₀, hcontents, -⟩
    exact ⟨h₀, hq₀, hcontents⟩

/-- Fields are written, with references that were held, and what was in them is held. -/
theorem Accounted.assign (haccounted : Accounted held m) (hp : m.header p = some h)
    {contents : Contents} (htype : ∀ child : Child, child.fits contents = child.fits h.contents)
    (hfits : ∀ child ∈ contents.children, m.Fits child)
    (hheld : ∀ q, (contents.children.map Child.ref).count q ≤ held q + (m.refs p).count q) :
    ∃ m', m.assign p contents = some m' ∧
      Accounted (fun q => held q + (m.refs p).count q
        - (contents.children.map Child.ref).count q) m' := by
  refine ⟨m.put p { h with contents := contents }, ?_, ?_⟩
  · unfold Memory.assign
    rw [hp]
    rfl
  have hself := header_put_self m p { h with contents := contents }
  have hcarried (child : Child) (hchild : m.Fits child) :
      (m.put p { h with contents := contents }).Fits child := by
    rcases hchild with ⟨h', hchild, hfit⟩
    by_cases hne : child.ref = p
    · subst hne
      rw [hp] at hchild
      cases hchild
      exact ⟨_, hself, (htype child).trans hfit⟩
    · exact ⟨h', (header_put_of_ne hne _).trans hchild, hfit⟩
  have hindegree (q : ℕ) : (m.put p { h with contents := contents }).indegree q
      + (m.refs p).count q = m.indegree q + (contents.children.map Child.ref).count q := by
    have hin : p ∈ m.gcObjList := (haccounted.mem p).mpr ⟨h, hp⟩
    have hrest : (m.gcObjList.erase p).flatMap (m.put p { h with contents := contents }).refs
        = (m.gcObjList.erase p).flatMap m.refs := by
      refine List.flatMap_congr fun r hr => ?_
      have hne : r ≠ p := (haccounted.toListed.nodup.mem_erase_iff.mp hr).1
      unfold refs
      rw [header_put_of_ne hne]
    -- Both memories by what is in `p` and what is in the rest, which is the same.
    have hnew := ((List.perm_cons_erase hin).flatMap_right
      (m.put p { h with contents := contents }).refs).count_eq q
    have hold := ((List.perm_cons_erase hin).flatMap_right m.refs).count_eq q
    rw [List.flatMap_cons, List.count_append] at hnew hold
    rw [hrest, refs_eq hself] at hnew
    dsimp only at hnew
    show (m.gcObjList.flatMap (m.put p { h with contents := contents }).refs).count q + _ =
      (m.gcObjList.flatMap m.refs).count q + _
    rw [hnew, hold]
    omega
  have hback (q : ℕ) (h' : JSGCObjectHeader)
      (hq : (m.put p { h with contents := contents }).header q = some h') :
      ∃ h₀, m.header q = some h₀ ∧ h'.mark = h₀.mark ∧ h'.refCount = h₀.refCount ∧
        ∀ child ∈ h'.contents.children, m.Fits child := by
    by_cases hne : q = p
    · subst hne
      rw [hself] at hq
      cases hq
      exact ⟨h, hp, rfl, rfl, hfits⟩
    · have hq' := (header_put_of_ne hne _).symm.trans hq
      exact ⟨h', hq', rfl, rfl, fun child hchild => haccounted.fits hq' hchild⟩
  have halive (q : ℕ) (hq : ∃ h, m.header q = some h) :
      ∃ h', (m.put p { h with contents := contents }).header q = some h' := by
    rcases hq with ⟨h₀, hq⟩
    by_cases hne : q = p
    · subst hne
      exact ⟨_, hself⟩
    · exact ⟨h₀, (header_put_of_ne hne _).trans hq⟩
  refine accounted_of_counts haccounted.settled.gcPhase haccounted.zero haccounted.tmpObjList
    haccounted.toListed.nodup (fun q => ?_) (fun q h' hq => ?_) fun q hq => ?_
  · refine (haccounted.mem q).trans ⟨halive q, ?_⟩
    rintro ⟨h', hq⟩
    rcases hback q h' hq with ⟨h₀, hq₀, -⟩
    exact ⟨h₀, hq₀⟩
  · rcases hback q h' hq with ⟨h₀, hq₀, hmark, hcount, hchildren⟩
    refine ⟨hmark.trans (haccounted.unmarked q h₀ hq₀), hcount ▸ haccounted.pos hq₀, ?_,
      fun child hchild => hcarried child (hchildren child hchild)⟩
    have hle := hheld q
    have hsum := hindegree q
    rw [hcount, haccounted.count hq₀]
    omega
  · refine halive q ?_
    -- It was held, or in one of the fields.
    by_cases hheldq : 0 < held q
    · exact haccounted.settled.balanced.heldAlive q hheldq
    · have hin : q ∈ m.refs p := List.count_pos_iff.mp (by omega)
      exact haccounted.alive hin

end Memory

/-! ## Runs -/

theorem Use.held_assign (p : ℕ) (contents : Contents) (u : Usage) :
    (Use.assign p contents).held u = fun q =>
      u.held q + (u.memory.refs p).count q - (contents.children.map Child.ref).count q := by
  funext q
  cases hp : u.memory.header p with
  | none => simp only [Use.held, Memory.refs, hp, List.count_nil]
  | some h => simp only [Use.held, Memory.refs, hp]

/-- The rules. What is made or written gets references that are held, and of the right types.
    Only what is held is given up, and only what can be reached is duplicated or written to. -/
def Usage.Allowed (u : Usage) : Use → Prop
  | .create p contents => u.memory.header p = none ∧
      (∀ child ∈ contents.children, u.memory.Fits child) ∧
      ∀ q, (contents.children.map Child.ref).count q ≤ u.held q
  | .dup p => Memory.Reached u.held u.memory p
  | .give child => u.memory.Fits child ∧ 0 < u.held child.ref
  | .assign p contents => Memory.Reached u.held u.memory p ∧
      (∀ h, u.memory.header p = some h →
        ∀ child : Child, child.fits contents = child.fits h.contents) ∧
      (∀ child ∈ contents.children, u.memory.Fits child) ∧
      ∀ q, (contents.children.map Child.ref).count q ≤ u.held q + (u.memory.refs p).count q
  | .runGC => True

namespace Usage

variable {u u' : Usage}

/-- Every count is right. -/
def IsAccounted (u : Usage) : Prop := Memory.Accounted u.held u.memory

/-- Nothing that is allowed stops the program, and the counts stay right. -/
theorem IsAccounted.exists_run (haccounted : u.IsAccounted) {use : Use} (hallowed : u.Allowed use) :
    ∃ m, use.run u.memory = some m ∧ Memory.Accounted (use.held u) m := by
  have haccounted : Memory.Accounted u.held u.memory := haccounted
  cases use with
  | create p contents =>
      rcases hallowed with ⟨hp, hfits, hheld⟩
      exact ⟨_, rfl, haccounted.create hp hfits hheld⟩
  | dup p => exact haccounted.dup hallowed
  | give child =>
      rcases haccounted.give hallowed.1 hallowed.2 with ⟨m, hrun, haccounted', -⟩
      exact ⟨m, hrun, haccounted'⟩
  | assign p contents =>
      rcases hallowed with ⟨hreached, htype, hfits, hheld⟩
      rcases haccounted.alive_of_reached hreached with ⟨h, hp⟩
      rcases haccounted.assign hp (htype h hp) hfits hheld with ⟨m, hrun, haccounted'⟩
      refine ⟨m, hrun, ?_⟩
      rw [Use.held_assign]
      exact haccounted'
  | runGC =>
      rcases Memory.exists_jsRunGC haccounted with ⟨m, hrun, haccounted', -⟩
      exact ⟨m, hrun, haccounted'⟩

theorem IsAccounted.step (haccounted : u.IsAccounted) {use : Use}
    (hstep : Transition.Guarded Allowed Step u use u') : u'.IsAccounted := by
  rcases hstep with ⟨hallowed, hrun, hheld⟩
  rcases haccounted.exists_run hallowed with ⟨m, hrun', haccounted'⟩
  unfold IsAccounted
  rw [hheld, Option.some.inj (hrun.symm.trans hrun')]
  exact haccounted'

theorem IsAccounted.run {uses : List Use} (haccounted : u.IsAccounted)
    (hrun : Transition.Run (Transition.Guarded Allowed Step) u uses u') : u'.IsAccounted :=
  hrun.invariant (P := IsAccounted) (fun _ _ _ hbefore hstep => hbefore.step hstep) haccounted

/-- Nothing has been made yet. -/
def nothing : Usage where
  memory := { header := fun _ => none, gcObjList := [] }
  held _ := 0

theorem isAccounted_nothing : nothing.IsAccounted :=
  Memory.accounted_of_counts rfl rfl rfl List.nodup_nil
    (fun p => iff_of_false List.not_mem_nil fun ⟨h, hp⟩ => by cases hp)
    (fun p h hp => by cases hp) fun p hp => absurd hp (Nat.lt_irrefl 0)

theorem count_le_of_mem {l : List ℕ} {f : ℕ → ℕ} (hle : ∀ q ∈ l, l.count q ≤ f q) (q : ℕ) :
    l.count q ≤ f q := by
  by_cases hq : q ∈ l
  · exact hle q hq
  · rw [List.count_eq_zero.mpr hq]
    exact Nat.zero_le _

/-- An object is made that has a property which refers to itself, and given up. -/
def dropCycle : List Use :=
  [.create 0 (.shape none), .create 1 (.jsObject (some 0) [] []), .dup 1,
    .assign 1 (.jsObject (some 0) [.value 1] []), .give (.value 1)]

/-- It is still there, although nothing is held. -/
theorem exists_dropCycle :
    ∃ u, Transition.Run (Transition.Guarded Allowed Step) nothing dropCycle u ∧
      (∀ q, u.held q = 0) ∧ ∃ h, u.memory.header 1 = some h := by
  let object : Contents := .jsObject (some 0) [] []
  let cycle : Contents := .jsObject (some 0) [.value 1] []
  let u₁ : Usage := ⟨nothing.memory.addGcObject 0 (.shape none),
    (Use.create 0 (.shape none)).held nothing⟩
  let u₂ : Usage := ⟨u₁.memory.addGcObject 1 object, (Use.create 1 object).held u₁⟩
  let u₃ : Usage := ⟨u₂.memory.put 1 ⟨2, false, object⟩, (Use.dup 1).held u₂⟩
  let u₄ : Usage := ⟨u₃.memory.put 1 ⟨2, false, cycle⟩, (Use.assign 1 cycle).held u₃⟩
  let u₅ : Usage := ⟨u₄.memory.put 1 ⟨1, false, cycle⟩, (Use.give (.value 1)).held u₄⟩
  have hshape : nothing.Allowed (.create 0 (.shape none)) :=
    ⟨rfl, fun child hchild => (List.not_mem_nil hchild).elim, fun q => Nat.zero_le _⟩
  have hobject : u₁.Allowed (.create 1 object) :=
    ⟨rfl, List.forall_mem_singleton.mpr ⟨_, rfl, rfl⟩, count_le_of_mem (by decide)⟩
  have hdup : u₂.Allowed (.dup 1) := .held (by decide)
  have hcycle : u₃.Allowed (.assign 1 cycle) := by
    refine ⟨.held (by decide), fun h hp child => ?_, ?_, count_le_of_mem (by decide)⟩
    · rw [← Option.some.inj hp]
      cases child <;> rfl
    · exact List.forall_mem_cons.mpr ⟨⟨_, rfl, rfl⟩, List.forall_mem_singleton.mpr ⟨_, rfl, rfl⟩⟩
  have hgive : u₄.Allowed (.give (.value 1)) := ⟨⟨_, rfl, rfl⟩, by decide⟩
  have hrun : Transition.Run (Transition.Guarded Allowed Step) nothing dropCycle u₅ :=
    .cons (t := u₁) ⟨hshape, rfl, rfl⟩ <| .cons (t := u₂) ⟨hobject, rfl, rfl⟩ <|
      .cons (t := u₃) ⟨hdup, rfl, rfl⟩ <| .cons (t := u₄) ⟨hcycle, rfl, rfl⟩ <|
      .single ⟨hgive, rfl, rfl⟩
  refine ⟨u₅, hrun, fun q => ?_, _, rfl⟩
  rcases q with - | - | q
  · rfl
  · rfl
  · rfl

end Usage

end Substrata
