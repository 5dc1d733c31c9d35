import Substrata.Theory.Marking

/-!
# Giving references up

What is freed gives up its own references, and that may free more. While this goes on the counts
are not the numbers of references in the memory: what is being freed still has its fields, and
some of the references in them are given up already. `Balanced` keeps the books. It takes what is
being freed out of the memory, and adds the references that are still to be given up.

A function that gives up one reference takes it off that list, whatever else happens on the way.
From this it follows that no header is read after it was freed, and that no assertion fails.

## Main definitions

* `Memory.listed`: Everything that has a header.
* `Memory.Balanced`: Every count is the number of references.
* `Memory.Tidy`: What waits to be freed, and what does not have to.
* `Memory.Frame`: What giving up references leaves as it is.
* `Memory.Gives`: What it means to give up a reference.

## Theorems

* `Balanced.decref`, `Balanced.relist`: A count is lowered; a list is changed.
* `Balanced.open`, `Balanced.close`, `Balanced.clear`: Before and after something is freed.
* `gives_freeValueRT`, `gives_freeShape`, `gives_freeContext` and others: One reference.
* `exists_freeGcObject`, `exists_freeZeroRefcount`: What has no references left is freed.
* `gives_jsFreeValueRT`, `gives_jsFreeChild`: References that are held outside of the memory.
-/

namespace Substrata

/-- What is given up is what is marked. -/
theorem Contents.released_perm (c : Contents) : c.released.Perm c.children := by
  cases c with
  | jsObject sh prop data =>
      exact List.perm_append_comm.append_right data
  | functionBytecode cpool realm ic =>
      show (ic.map Child.shape ++ cpool.map Child.value ++ realm.toList.map Child.context).Perm _
      rw [List.append_assoc]
      exact List.perm_append_comm
  | shape proto => exact .refl _
  | varRef value => exact .refl _
  | asyncFunction callee stack resolvingFuncs =>
      exact List.perm_append_comm.append_right _
  | jsContext values arrayShape => exact .refl _

theorem Contents.children_cleared (c : Contents) : c.cleared.children = [] := by
  cases c <;> rfl

theorem Contents.isValue_cleared (c : Contents) : c.cleared.isValue = c.isValue := by
  cases c <;> rfl

/-- A reference to what is cleared is still of the right type. -/
theorem Child.fits_cleared (c : Contents) (child : Child) :
    child.fits c.cleared = child.fits c := by
  cases child <;> cases c <;> rfl

namespace Memory

variable {held : ℕ → ℕ} {dying : List ℕ} {pending : List Child} {m m' : Memory} {p : ℕ}
  {h : JSGCObjectHeader}

/-! ## Books -/

/-- Everything that has a header. -/
def listed (m : Memory) : List ℕ := m.gcObjList ++ m.gcZeroRefCountList ++ m.tmpObjList

/-- A reference is to something of its type. -/
def Fits (m : Memory) (child : Child) : Prop :=
  ∃ h, m.header child.ref = some h ∧ child.fits h.contents = true

/-- The number of references from what is not being freed, and of those that are still to be
    given up. -/
def owed (dying : List ℕ) (pending : List Child) (m : Memory) (p : ℕ) : ℕ :=
  ((m.listed.filter (· ∉ dying)).flatMap m.refs ++ pending.map Child.ref).count p

/-- Every count is the number of references. `held` are those outside of the memory. -/
structure Balanced (held : ℕ → ℕ) (dying : List ℕ) (pending : List Child) (m : Memory) :
    Prop where
  nodup : m.listed.Nodup
  mem : ∀ p, p ∈ m.listed ↔ ∃ h, m.header p = some h
  count : ∀ p h, m.header p = some h → h.refCount = (held p + owed dying pending m p : ℕ)
  fits : ∀ p h, m.header p = some h → p ∉ dying → ∀ child ∈ h.contents.children, m.Fits child
  pendingFits : ∀ child ∈ pending, m.Fits child
  heldAlive : ∀ p, 0 < held p → ∃ h, m.header p = some h
  dyingAlive : ∀ p ∈ dying, ∃ h, m.header p = some h

theorem header_put_self (m : Memory) (p : ℕ) (h : JSGCObjectHeader) :
    (m.put p h).header p = some h :=
  Function.update_self ..

theorem header_put_of_ne {q : ℕ} (hne : q ≠ p) (h : JSGCObjectHeader) :
    (m.put p h).header q = m.header q :=
  Function.update_of_ne hne _ _

/-- Counts do not show in the references. -/
theorem refs_put (hp : m.header p = some h) {h' : JSGCObjectHeader}
    (hcontents : h'.contents = h.contents) : (m.put p h').refs = m.refs := by
  funext q
  unfold refs
  by_cases hne : q = p
  · subst hne
    rw [header_put_self, hp]
    dsimp only
    rw [hcontents]
  · rw [header_put_of_ne hne]

theorem owed_cons (child : Child) (q : ℕ) : owed dying (child :: pending) m q =
    owed dying pending m q + if child.ref = q then 1 else 0 := by
  unfold owed
  rw [List.map_cons, List.count_append, List.count_append, List.count_cons]
  simp only [beq_iff_eq]
  omega

/-- A header is replaced by one with the same contents. -/
theorem Fits.put {child : Child} (hfits : m.Fits child) (hp : m.header p = some h)
    {h' : JSGCObjectHeader} (hcontents : h'.contents = h.contents) : (m.put p h').Fits child := by
  rcases hfits with ⟨h₁, hchild, hfit⟩
  by_cases hne : child.ref = p
  · subst hne
    rw [hp] at hchild
    cases hchild
    exact ⟨h', header_put_self .., hcontents ▸ hfit⟩
  · exact ⟨h₁, (header_put_of_ne hne _).trans hchild, hfit⟩

/-- A count is lowered for a reference that is given up. -/
theorem Balanced.decref {child : Child} (hbalanced : Balanced held dying (child :: pending) m)
    (hp : m.header child.ref = some h) :
    Balanced held dying pending (m.put child.ref { h with refCount := h.refCount - 1 }) := by
  have hrefs : (m.put child.ref { h with refCount := h.refCount - 1 }).refs = m.refs :=
    refs_put hp rfl
  have hsame (q : ℕ) (h' : JSGCObjectHeader)
      (hq : (m.put child.ref { h with refCount := h.refCount - 1 }).header q = some h') :
      ∃ h₁, m.header q = some h₁ ∧ h'.contents = h₁.contents ∧
        h'.refCount = h₁.refCount - if child.ref = q then 1 else 0 := by
    by_cases hne : q = child.ref
    · subst hne
      rw [header_put_self] at hq
      cases hq
      exact ⟨h, hp, rfl, by rw [if_pos rfl]⟩
    · refine ⟨h', (header_put_of_ne hne _).symm.trans hq, rfl, ?_⟩
      rw [if_neg (Ne.symm hne), Int.sub_zero]
  have halive (q : ℕ) (hq : ∃ h, m.header q = some h) :
      ∃ h', (m.put child.ref { h with refCount := h.refCount - 1 }).header q = some h' := by
    rcases hq with ⟨h₁, hq⟩
    by_cases hne : q = child.ref
    · subst hne
      exact ⟨_, header_put_self ..⟩
    · exact ⟨h₁, (header_put_of_ne hne _).trans hq⟩
  exact
    { nodup := hbalanced.nodup
      mem := fun q => by
        refine (hbalanced.mem q).trans ⟨halive q, ?_⟩
        rintro ⟨h', hq⟩
        rcases hsame q h' hq with ⟨h₁, hq₁, -⟩
        exact ⟨h₁, hq₁⟩
      count := fun q h' hq => by
        rcases hsame q h' hq with ⟨h₁, hq₁, -, hcount⟩
        have howed : owed dying pending (m.put child.ref { h with refCount := h.refCount - 1 }) q
            = owed dying pending m q := by
          unfold owed
          rw [hrefs]
          rfl
        rw [hcount, hbalanced.count q h₁ hq₁, owed_cons, howed]
        by_cases hq' : child.ref = q
        · rw [if_pos hq', if_pos hq']
          push_cast
          omega
        · rw [if_neg hq', if_neg hq', Int.sub_zero, Nat.add_zero]
      fits := fun q h' hq hdying child' hchild' => by
        rcases hsame q h' hq with ⟨h₁, hq₁, hcontents, -⟩
        rw [hcontents] at hchild'
        exact (hbalanced.fits q h₁ hq₁ hdying child' hchild').put hp rfl
      pendingFits := fun child' hchild' =>
        (hbalanced.pendingFits child' (List.mem_cons_of_mem _ hchild')).put hp rfl
      heldAlive := fun q hq => halive q (hbalanced.heldAlive q hq)
      dyingAlive := fun q hq => halive q (hbalanced.dyingAlive q hq) }

/-- Things are moved between the lists. -/
theorem Balanced.relist (hbalanced : Balanced held dying pending m)
    (hperm : m'.listed.Perm m.listed) (hheader : m'.header = m.header) :
    Balanced held dying pending m' := by
  have hrefs : m'.refs = m.refs := by
    funext q
    unfold refs
    rw [hheader]
  have howed (q : ℕ) : owed dying pending m' q = owed dying pending m q := by
    unfold owed
    rw [hrefs]
    exact (((hperm.filter _).flatMap_right _).append_right _).count_eq q
  have hfits (child : Child) (hchild : m.Fits child) : m'.Fits child := by
    unfold Fits
    rw [hheader]
    exact hchild
  exact
    { nodup := hperm.nodup_iff.mpr hbalanced.nodup
      mem := fun q => by rw [hperm.mem_iff, hheader, hbalanced.mem]
      count := fun q h' hq => by
        rw [hheader] at hq
        rw [howed, hbalanced.count q h' hq]
      fits := fun q h' hq hdying child hchild => by
        rw [hheader] at hq
        exact hfits child (hbalanced.fits q h' hq hdying child hchild)
      pendingFits := fun child hchild => hfits child (hbalanced.pendingFits child hchild)
      heldAlive := by
        rw [hheader]
        exact hbalanced.heldAlive
      dyingAlive := by
        rw [hheader]
        exact hbalanced.dyingAlive }

/-! ## Lists -/

/-- What is left in the lists. -/
theorem listed_unlink (hnodup : m.listed.Nodup) (p : ℕ) :
    (m.unlink p).listed = m.listed.filter (· ≠ p) := by
  unfold listed at hnodup ⊢
  rcases List.nodup_append.mp hnodup with ⟨hfront, htmp, -⟩
  rcases List.nodup_append.mp hfront with ⟨hgc, hzero, -⟩
  unfold unlink
  dsimp only
  rw [hgc.erase_eq_filter, hzero.erase_eq_filter, htmp.erase_eq_filter, List.filter_append,
    List.filter_append]
  simp only [ne_eq, decide_not, bne]
  congr

/-- Something is moved to another list. -/
theorem listed_move (hnodup : m.listed.Nodup) (hp : p ∈ m.listed)
    (hlisted : m'.listed.Perm (p :: (m.unlink p).listed)) : m'.listed.Perm m.listed := by
  refine hlisted.trans ?_
  have herase : (m.unlink p).listed = m.listed.erase p := by
    rw [listed_unlink hnodup, hnodup.erase_eq_filter]
    simp only [ne_eq, decide_not, bne]
    congr
  rw [herase]
  exact (List.perm_cons_erase hp).symm

theorem listed_moveToZero (hnodup : m.listed.Nodup) (hp : p ∈ m.listed) :
    (m.moveToZero p).listed.Perm m.listed := by
  refine listed_move hnodup hp ?_
  unfold moveToZero listed
  dsimp only
  rw [← List.append_assoc, ← List.append_cons]
  exact List.perm_middle

theorem listed_pushToZero (hnodup : m.listed.Nodup) (hp : p ∈ m.listed) :
    (m.pushToZero p).listed.Perm m.listed := by
  refine listed_move hnodup hp ?_
  unfold pushToZero listed
  dsimp only
  rw [List.append_assoc, List.append_assoc, List.cons_append]
  exact List.perm_middle

/-! ## Before and after something is freed -/

/-- Nothing refers to what has a count of zero. -/
theorem Balanced.unowed (hbalanced : Balanced held dying pending m) (hp : m.header p = some h)
    (hzero : h.refCount = 0) : held p = 0 ∧
      p ∉ (m.listed.filter (· ∉ dying)).flatMap m.refs ∧ p ∉ pending.map Child.ref := by
  have hcount := hbalanced.count p h hp
  rw [hzero] at hcount
  have hsum : held p = 0 ∧ owed dying pending m p = 0 := by omega
  refine ⟨hsum.1, ?_⟩
  have howed := hsum.2
  unfold owed at howed
  rw [List.count_append, Nat.add_eq_zero_iff, List.count_eq_zero, List.count_eq_zero] at howed
  exact howed

/-- The references of what is being freed are still to be given up. -/
theorem Balanced.open (hbalanced : Balanced held dying pending m) (hp : m.header p = some h)
    (hfresh : p ∉ dying) :
    Balanced held (p :: dying) (h.contents.released ++ pending) m := by
  have hin : p ∈ m.listed.filter (· ∉ dying) :=
    List.mem_filter.mpr ⟨(hbalanced.mem p).mpr ⟨h, hp⟩, decide_eq_true hfresh⟩
  have hothers : (m.listed.filter (· ∉ dying)).erase p = m.listed.filter (· ∉ p :: dying) := by
    refine erase_filter hbalanced.nodup (not_not.mpr List.mem_cons_self) fun q hne => ?_
    rw [List.mem_cons, not_or]
    exact (and_iff_right hne).symm
  -- Its references are not counted as its own any more, but as pending, in another order.
  have howed (q : ℕ) : owed (p :: dying) (h.contents.released ++ pending) m q
      = owed dying pending m q := by
    have hperm := ((List.perm_cons_erase hin).flatMap_right m.refs).count_eq q
    have hreleased := (h.contents.released_perm.map Child.ref).count_eq q
    rw [hothers, List.flatMap_cons, List.count_append, refs_eq hp] at hperm
    unfold owed
    rw [List.map_append, List.count_append, List.count_append, List.count_append]
    omega
  exact
    { hbalanced with
      count := fun q h' hq => by rw [howed, hbalanced.count q h' hq]
      fits := fun q h' hq hdying => by
        rw [List.mem_cons, not_or] at hdying
        exact hbalanced.fits q h' hq hdying.2
      pendingFits := fun child hchild => by
        rcases List.mem_append.mp hchild with hreleased | hpending
        · exact hbalanced.fits p h hp hfresh child (h.contents.released_perm.mem_iff.mp hreleased)
        · exact hbalanced.pendingFits child hpending
      dyingAlive := fun q hq => by
        rcases List.mem_cons.mp hq with rfl | hq
        · exact ⟨h, hp⟩
        · exact hbalanced.dyingAlive q hq }

theorem header_discard_self (m : Memory) (p : ℕ) : (m.discard p).header p = none :=
  Function.update_self ..

theorem header_discard_of_ne {q : ℕ} (hne : q ≠ p) : (m.discard p).header q = m.header q :=
  Function.update_of_ne hne _ _

/-- What has no references left is freed. -/
theorem Balanced.close (hbalanced : Balanced held (p :: dying) pending m)
    (hp : m.header p = some h) (hzero : h.refCount = 0) (hfresh : p ∉ dying) :
    Balanced held dying pending (m.discard p) := by
  rcases hbalanced.unowed hp hzero with ⟨hheld, hrefs, hpending⟩
  have hlist : (m.discard p).listed.filter (· ∉ dying) = m.listed.filter (· ∉ p :: dying) := by
    refine (congrArg _ (listed_unlink hbalanced.nodup p)).trans ?_
    rw [List.filter_filter]
    refine List.filter_congr fun q _ => ?_
    rw [← Bool.decide_and, decide_eq_decide, List.mem_cons, not_or, and_comm]
  have hintact (q : ℕ) (hq : q ∈ m.listed.filter (· ∉ p :: dying)) :
      (m.discard p).refs q = m.refs q := by
    have hne : q ≠ p := by
      rintro rfl
      exact of_decide_eq_true (List.mem_filter.mp hq).2 List.mem_cons_self
    unfold refs
    rw [header_discard_of_ne hne]
  -- Its own references were given up before, so nothing that is owed goes with it.
  have howed (q : ℕ) : owed dying pending (m.discard p) q = owed (p :: dying) pending m q := by
    unfold owed
    rw [hlist, List.flatMap_congr hintact]
  have hback (q : ℕ) (h' : JSGCObjectHeader) (hq : (m.discard p).header q = some h') :
      q ≠ p ∧ m.header q = some h' := by
    have hne : q ≠ p := by
      rintro rfl
      rw [header_discard_self] at hq
      cases hq
    exact ⟨hne, (header_discard_of_ne hne).symm.trans hq⟩
  have hfits (child : Child) (hchild : m.Fits child) (hne : child.ref ≠ p) :
      (m.discard p).Fits child := by
    rcases hchild with ⟨h', hchild, hfit⟩
    exact ⟨h', (header_discard_of_ne hne).trans hchild, hfit⟩
  exact
    { nodup := by
        show (m.unlink p).listed.Nodup
        rw [listed_unlink hbalanced.nodup]
        exact hbalanced.nodup.filter _
      mem := fun q => by
        show q ∈ (m.unlink p).listed ↔ _
        rw [listed_unlink hbalanced.nodup, List.mem_filter, decide_eq_true_iff, hbalanced.mem]
        refine ⟨?_, ?_⟩
        · rintro ⟨⟨h', hq⟩, hne⟩
          exact ⟨h', (header_discard_of_ne hne).trans hq⟩
        · rintro ⟨h', hq⟩
          rcases hback q h' hq with ⟨hne, hq'⟩
          exact ⟨⟨h', hq'⟩, hne⟩
      count := fun q h' hq => by
        rcases hback q h' hq with ⟨hne, hq'⟩
        rw [howed, hbalanced.count q h' hq']
      fits := fun q h' hq hdying child hchild => by
        rcases hback q h' hq with ⟨hne, hq'⟩
        have hdying' : q ∉ p :: dying := by
          rw [List.mem_cons, not_or]
          exact ⟨hne, hdying⟩
        refine hfits child (hbalanced.fits q h' hq' hdying' child hchild) ?_
        -- It would be one of the references that there are none of.
        rintro rfl
        refine hrefs (List.mem_flatMap.mpr ⟨q, ?_, ?_⟩)
        · exact List.mem_filter.mpr ⟨(hbalanced.mem q).mpr ⟨h', hq'⟩, decide_eq_true hdying'⟩
        · rw [refs_eq hq']
          exact List.mem_map_of_mem hchild
      pendingFits := fun child hchild => by
        refine hfits child (hbalanced.pendingFits child hchild) ?_
        rintro rfl
        exact hpending (List.mem_map_of_mem hchild)
      heldAlive := fun q hq => by
        have hne : q ≠ p := by
          rintro rfl
          omega
        rw [header_discard_of_ne hne]
        exact hbalanced.heldAlive q hq
      dyingAlive := fun q hq => by
        have hne : q ≠ p := by
          rintro rfl
          exact hfresh hq
        rw [header_discard_of_ne hne]
        exact hbalanced.dyingAlive q (List.mem_cons_of_mem _ hq) }

/-- Something without elements can be left out. -/
theorem flatMap_filter_skip {f g : ℕ → List ℕ} (hp : g p = []) (hothers : ∀ q, q ≠ p → g q = f q)
    (l : List ℕ) :
    (l.filter (· ∉ dying)).flatMap g = (l.filter (· ∉ p :: dying)).flatMap f := by
  induction l with
  | nil => rfl
  | cons q l ih =>
      simp only [List.filter_cons, List.mem_cons, not_or]
      by_cases hq : q = p
      · subst hq
        by_cases hin : q ∈ dying
        · simpa [hin] using ih
        · simpa [hin, hp] using ih
      · by_cases hin : q ∈ dying
        · simpa [hin, hq] using ih
        · simpa [hin, hq, hothers q hq] using ih

/-- What still has references keeps its memory, and has no fields any more. -/
theorem Balanced.clear (hbalanced : Balanced held (p :: dying) pending m)
    (hp : m.header p = some h) :
    Balanced held dying pending
      ((m.put p { h with contents := h.contents.cleared }).moveToZero p) := by
  have hmem : p ∈ m.listed := (hbalanced.mem p).mpr ⟨h, hp⟩
  have hfits (child : Child) (hchild : m.Fits child) :
      (m.put p { h with contents := h.contents.cleared }).Fits child := by
    rcases hchild with ⟨h', hchild, hfit⟩
    by_cases hne : child.ref = p
    · subst hne
      rw [hp] at hchild
      cases hchild
      exact ⟨_, header_put_self .., (Child.fits_cleared _ _).trans hfit⟩
    · exact ⟨h', (header_put_of_ne hne _).trans hchild, hfit⟩
  have halive (q : ℕ) (hq : ∃ h', m.header q = some h') :
      ∃ h', (m.put p { h with contents := h.contents.cleared }).header q = some h' := by
    rcases hq with ⟨h', hq⟩
    by_cases hne : q = p
    · subst hne
      exact ⟨_, header_put_self ..⟩
    · exact ⟨h', (header_put_of_ne hne _).trans hq⟩
  have hrefs : (m.put p { h with contents := h.contents.cleared }).refs p = [] := by
    rw [refs_eq (header_put_self ..), Contents.children_cleared]
    rfl
  have howed (q : ℕ) : owed dying pending (m.put p { h with contents := h.contents.cleared }) q
      = owed (p :: dying) pending m q := by
    unfold owed
    congr 2
    -- It counts for nothing, whether it is left out or not.
    refine flatMap_filter_skip hrefs (fun q hne => ?_) m.listed
    unfold refs
    rw [header_put_of_ne hne]
  refine Balanced.relist (m := m.put p { h with contents := h.contents.cleared }) ?_
    (listed_moveToZero hbalanced.nodup hmem) rfl
  exact
    { nodup := hbalanced.nodup
      mem := fun q => by
        refine (hbalanced.mem q).trans ⟨halive q, ?_⟩
        rintro ⟨h', hq⟩
        by_cases hne : q = p
        · subst hne
          exact ⟨h, hp⟩
        · exact ⟨h', (header_put_of_ne hne _).symm.trans hq⟩
      count := fun q h' hq => by
        rw [howed]
        by_cases hne : q = p
        · subst hne
          rw [header_put_self] at hq
          cases hq
          exact hbalanced.count q h hp
        · exact hbalanced.count q h' ((header_put_of_ne hne _).symm.trans hq)
      fits := fun q h' hq hdying child hchild => by
        by_cases hne : q = p
        · subst hne
          rw [header_put_self] at hq
          cases hq
          rw [Contents.children_cleared] at hchild
          cases hchild
        · refine hfits child (hbalanced.fits q h' ((header_put_of_ne hne _).symm.trans hq) ?_
            child hchild)
          rw [List.mem_cons, not_or]
          exact ⟨hne, hdying⟩
      pendingFits := fun child hchild => hfits child (hbalanced.pendingFits child hchild)
      heldAlive := fun q hq => halive q (hbalanced.heldAlive q hq)
      dyingAlive := fun q hq => halive q (hbalanced.dyingAlive q (List.mem_cons_of_mem _ hq)) }

/-! ## One reference -/

/-- What is not a JS value is freed as soon as it has no references left, and what is waits in
    the list, unless a cycle is being freed. -/
structure Tidy (dying : List ℕ) (m : Memory) : Prop where
  counted : ∀ p h, m.header p = some h → p ∉ dying → h.contents.isValue = false → 0 < h.refCount
  dead : ∀ p h, p ∈ dying → m.header p = some h → h.contents.isValue = false → h.refCount = 0
  waiting : m.gcPhase ≠ .removeCycles → ∀ p, p ∈ m.gcZeroRefCountList ↔
    ∃ h, m.header p = some h ∧ h.contents.isValue = true ∧ h.refCount = 0

/-- What giving up references leaves as it is: nothing new is made, and contents and marks
    stay. -/
structure Frame (m m' : Memory) : Prop where
  phase : m'.gcPhase = m.gcPhase
  header : ∀ q h', m'.header q = some h' → ∃ h, m.header q = some h ∧
    h'.contents = h.contents ∧ h'.mark = h.mark ∧ h'.refCount ≤ h.refCount
  gcObjList : ∀ q ∈ m'.gcObjList, q ∈ m.gcObjList
  tmpObjList : m'.tmpObjList.Sublist m.tmpObjList
  zero : m.gcPhase = .removeCycles → ∀ q ∈ m'.gcZeroRefCountList, q ∈ m.gcZeroRefCountList

theorem Frame.refl (m : Memory) : Frame m m where
  phase := rfl
  header _ h' hq := ⟨h', hq, rfl, rfl, Int.le_refl _⟩
  gcObjList _ hq := hq
  tmpObjList := .refl _
  zero _ _ hq := hq

theorem Frame.trans {m'' : Memory} (h₁ : Frame m m') (h₂ : Frame m' m'') : Frame m m'' where
  phase := h₂.phase.trans h₁.phase
  header q h'' hq := by
    rcases h₂.header q h'' hq with ⟨h', hq', hcontents', hmark', hcount'⟩
    rcases h₁.header q h' hq' with ⟨h, hq, hcontents, hmark, hcount⟩
    exact ⟨h, hq, hcontents'.trans hcontents, hmark'.trans hmark, Int.le_trans hcount' hcount⟩
  gcObjList q hq := h₁.gcObjList q (h₂.gcObjList q hq)
  tmpObjList := h₂.tmpObjList.trans h₁.tmpObjList
  zero hphase q hq := h₁.zero hphase q (h₂.zero (h₁.phase.trans hphase) q hq)

/-- A count is lowered, and nothing else. -/
theorem frame_decref (hp : m.header p = some h) :
    Frame m (m.put p { h with refCount := h.refCount - 1 }) where
  phase := rfl
  header q h' hq := by
    by_cases hne : q = p
    · subst hne
      rw [header_put_self] at hq
      cases hq
      exact ⟨h, hp, rfl, rfl, by dsimp only; omega⟩
    · exact ⟨h', (header_put_of_ne hne _).symm.trans hq, rfl, rfl, Int.le_refl _⟩
  gcObjList _ hq := hq
  tmpObjList := .refl _
  zero _ _ hq := hq

theorem frame_discard (m : Memory) (p : ℕ) : Frame m (m.discard p) where
  phase := rfl
  header q h' hq := by
    have hne : q ≠ p := by
      rintro rfl
      rw [header_discard_self] at hq
      cases hq
    exact ⟨h', (header_discard_of_ne hne).symm.trans hq, rfl, rfl, Int.le_refl _⟩
  gcObjList _ hq := List.mem_of_mem_erase hq
  tmpObjList := List.erase_sublist
  zero _ _ hq := List.mem_of_mem_erase hq

/-- There is a reference to what one is given up of. -/
theorem Balanced.pending_pos {child : Child}
    (hbalanced : Balanced held dying (child :: pending) m) (hp : m.header child.ref = some h) :
    0 < h.refCount := by
  have hcount := hbalanced.count child.ref h hp
  rw [owed_cons, if_pos rfl] at hcount
  omega

/-- A reference to a JS value is given up. -/
theorem exists_freeValueRT (hbalanced : Balanced held dying (.value p :: pending) m)
    (htidy : Tidy dying m) :
    ∃ m' h, m.header p = some h ∧ m.freeValueRT p = some m' ∧ Balanced held dying pending m' ∧
      Tidy dying m' ∧ Frame m m' ∧
      (0 < h.refCount - 1 → m'.gcZeroRefCountList = m.gcZeroRefCountList) := by
  have halive : ∃ h, m.header p = some h ∧ h.contents.isValue = true :=
    hbalanced.pendingFits _ List.mem_cons_self
  rcases halive with ⟨h, hp, hvalue⟩
  have hpos := hbalanced.pending_pos (h := h) hp
  have hbalanced' := hbalanced.decref (h := h) hp
  dsimp only [Child.ref] at hbalanced'
  have hframe := frame_decref hp
  have hheader (q : ℕ) (h' : JSGCObjectHeader) (hnotValue : h'.contents.isValue = false)
      (hq : (m.put p { h with refCount := h.refCount - 1 }).header q = some h') :
      m.header q = some h' := by
    have hne : q ≠ p := by
      rintro rfl
      rw [header_put_self] at hq
      cases hq
      exact absurd (hvalue.symm.trans hnotValue) (by decide)
    exact (header_put_of_ne hne _).symm.trans hq
  have hrun : m.freeValueRT p = some
      (if h.refCount - 1 ≤ 0 ∧ (m.put p { h with refCount := h.refCount - 1 }).gcPhase ≠
          .removeCycles then
        (m.put p { h with refCount := h.refCount - 1 }).pushToZero p
      else m.put p { h with refCount := h.refCount - 1 }) := by
    unfold freeValueRT
    rw [hp, Option.bind_eq_bind, Option.bind_some, guard_bind hvalue]
  rw [hrun]
  by_cases hlast : h.refCount - 1 ≤ 0 ∧ m.gcPhase ≠ .removeCycles
  · -- It waits to be freed.
    have hlast' : h.refCount - 1 ≤ 0 ∧
        (m.put p { h with refCount := h.refCount - 1 }).gcPhase ≠ .removeCycles := hlast
    rw [if_pos hlast']
    have hmem : p ∈ (m.put p { h with refCount := h.refCount - 1 }).listed :=
      (hbalanced'.mem p).mpr ⟨_, header_put_self ..⟩
    refine ⟨_, h, hp, rfl, hbalanced'.relist (listed_pushToZero hbalanced'.nodup hmem) rfl, ?_, ?_,
      fun hmore => by omega⟩
    · exact
        { counted := fun q h' hq hdying hnotValue =>
            htidy.counted q h' (hheader q h' hnotValue hq) hdying hnotValue
          dead := fun q h' hdying hq hnotValue =>
            htidy.dead q h' hdying (hheader q h' hnotValue hq) hnotValue
          waiting := fun hphase q => by
            show q ∈ p :: m.gcZeroRefCountList.erase p ↔
              ∃ h', (m.put p { h with refCount := h.refCount - 1 }).header q = some h' ∧ _
            by_cases hne : q = p
            · subst hne
              refine iff_of_true List.mem_cons_self ⟨_, header_put_self .., hvalue, ?_⟩
              dsimp only
              omega
            · rw [List.mem_cons, or_iff_right hne, List.mem_erase_of_ne hne, header_put_of_ne hne]
              exact htidy.waiting hphase q }
    · exact
        { phase := rfl
          header := hframe.header
          gcObjList := fun q hq => List.mem_of_mem_erase hq
          tmpObjList := List.erase_sublist
          zero := fun hphase => absurd hphase hlast.2 }
  · have hlast' : ¬ (h.refCount - 1 ≤ 0 ∧
        (m.put p { h with refCount := h.refCount - 1 }).gcPhase ≠ .removeCycles) := hlast
    rw [if_neg hlast']
    refine ⟨_, h, hp, rfl, hbalanced', ?_, hframe, fun _ => rfl⟩
    exact
      { counted := fun q h' hq hdying hnotValue =>
          htidy.counted q h' (hheader q h' hnotValue hq) hdying hnotValue
        dead := fun q h' hdying hq hnotValue =>
          htidy.dead q h' hdying (hheader q h' hnotValue hq) hnotValue
        waiting := fun hphase q => by
          have hmore : ¬ h.refCount - 1 ≤ 0 := fun hle => hlast ⟨hle, hphase⟩
          by_cases hne : q = p
          · subst hne
            refine iff_of_false (fun hin => ?_) ?_
            · rcases (htidy.waiting hphase q).mp hin with ⟨h', hq, -, hzero⟩
              rw [hp] at hq
              cases hq
              omega
            · rintro ⟨h', hq, -, hzero⟩
              rw [header_put_self] at hq
              cases hq
              dsimp only at hzero
              omega
          · rw [header_put_of_ne hne]
            exact htidy.waiting hphase q }

/-- The books, between two references. While no pass is under way nothing waits to be freed, and
    no JS value is being freed. -/
structure Settled (phase : JSGCPhase) (held : ℕ → ℕ) (dying : List ℕ) (pending : List Child)
    (m : Memory) : Prop where
  balanced : Balanced held dying pending m
  tidy : Tidy dying m
  gcPhase : m.gcPhase = phase
  idle : phase = .none → m.gcZeroRefCountList = [] ∧
    ∀ q ∈ dying, ∀ h, m.header q = some h → h.contents.isValue = false

variable {phase : JSGCPhase}

/-- A function gives up a reference. -/
def Gives (phase : JSGCPhase) (f : Memory → Option Memory) (child : Child) : Prop :=
  ∀ ⦃held : ℕ → ℕ⦄ ⦃dying : List ℕ⦄ ⦃pending : List Child⦄ ⦃m : Memory⦄,
    Settled phase held dying (child :: pending) m →
      ∃ m', f m = some m' ∧ Settled phase held dying pending m' ∧ Frame m m'

theorem gives_freeValueRT (hphase : phase ≠ .none) (p : ℕ) :
    Gives phase (freeValueRT p) (.value p) := by
  intro held dying pending m hsettled
  rcases exists_freeValueRT hsettled.balanced hsettled.tidy
    with ⟨m', h, -, hfree, hbalanced, htidy, hframe, -⟩
  refine ⟨m', hfree, ⟨hbalanced, htidy, hframe.phase.trans hsettled.gcPhase, ?_⟩, hframe⟩
  exact fun hnone => absurd hnone hphase

/-- References that are given up one after the other. -/
theorem exists_fold {g : Memory → Child → Option Memory} {children : List Child}
    (hgives : ∀ child ∈ children, Gives phase (fun m => g m child) child)
    (hsettled : Settled phase held dying (children ++ pending) m) :
    ∃ m', children.foldlM g m = some m' ∧ Settled phase held dying pending m' ∧ Frame m m' := by
  induction children generalizing m with
  | nil => exact ⟨m, rfl, hsettled, Frame.refl m⟩
  | cons child children ih =>
      rcases hgives child List.mem_cons_self hsettled with ⟨m₁, hfirst, hsettled₁, hframe₁⟩
      rcases ih (fun child' hmem => hgives child' (List.mem_cons_of_mem _ hmem)) hsettled₁
        with ⟨m', hrest, hsettled', hframe⟩
      refine ⟨m', ?_, hsettled', hframe₁.trans hframe⟩
      rw [List.foldlM_cons]
      exact Option.bind_eq_some_iff.mpr ⟨m₁, hfirst, hrest⟩

/-! ## What is freed at once -/

/-- What is not a JS value does not wait. -/
theorem Tidy.waiting_put (htidy : Tidy dying m) (hphase : m.gcPhase ≠ .removeCycles)
    (hp : m.header p = some h) (hnotValue : h.contents.isValue = false) {h' : JSGCObjectHeader}
    (hcontents : h'.contents = h.contents) (q : ℕ) :
    q ∈ m.gcZeroRefCountList ↔
      ∃ h₁, (m.put p h').header q = some h₁ ∧ h₁.contents.isValue = true ∧ h₁.refCount = 0 := by
  refine (htidy.waiting hphase q).trans ?_
  by_cases hne : q = p
  · subst hne
    refine iff_of_false ?_ ?_
    · rintro ⟨h₁, hq, hvalue, -⟩
      rw [hp] at hq
      cases hq
      exact absurd (hnotValue.symm.trans hvalue) (by decide)
    · rintro ⟨h₁, hq, hvalue, -⟩
      rw [header_put_self] at hq
      cases hq
      rw [hcontents] at hvalue
      exact absurd (hnotValue.symm.trans hvalue) (by decide)
  · rw [header_put_of_ne hne]

/-- A reference to something that is not a JS value is given up, and it is not the last. -/
theorem Settled.decref {child : Child} (hsettled : Settled phase held dying (child :: pending) m)
    (hp : m.header child.ref = some h) (hnotValue : h.contents.isValue = false)
    (hmore : h.refCount - 1 ≠ 0) :
    Settled phase held dying pending
      (m.put child.ref { h with refCount := h.refCount - 1 }) where
  balanced := hsettled.balanced.decref hp
  gcPhase := hsettled.gcPhase
  tidy :=
    { counted := fun q h' hq hdying hnotValue' => by
        by_cases hne : q = child.ref
        · subst hne
          rw [header_put_self] at hq
          cases hq
          have hpos := hsettled.balanced.pending_pos hp
          dsimp only
          omega
        · exact hsettled.tidy.counted q h' ((header_put_of_ne hne _).symm.trans hq) hdying
            hnotValue'
      dead := fun q h' hdying hq hnotValue' => by
        by_cases hne : q = child.ref
        · -- What is being freed has no references to give up.
          subst hne
          have hpos := hsettled.balanced.pending_pos hp
          have hzero := hsettled.tidy.dead child.ref h hdying hp hnotValue
          omega
        · exact hsettled.tidy.dead q h' hdying ((header_put_of_ne hne _).symm.trans hq) hnotValue'
      waiting := fun hphase => hsettled.tidy.waiting_put hphase hp hnotValue rfl }
  idle hnone := by
    refine ⟨(hsettled.idle hnone).1, fun q hq h' hheader => ?_⟩
    by_cases hne : q = child.ref
    · subst hne
      rw [header_put_self] at hheader
      cases hheader
      exact hnotValue
    · exact (hsettled.idle hnone).2 q hq h' ((header_put_of_ne hne _).symm.trans hheader)

/-- What has no references left is freed. -/
theorem Settled.discard (hsettled : Settled phase held (p :: dying) pending m)
    (hp : m.header p = some h) (hzero : h.refCount = 0) (hfresh : p ∉ dying) :
    Settled phase held dying pending (m.discard p) := by
  have hback (q : ℕ) (h' : JSGCObjectHeader) (hq : (m.discard p).header q = some h') :
      q ≠ p ∧ m.header q = some h' := by
    have hne : q ≠ p := by
      rintro rfl
      rw [header_discard_self] at hq
      cases hq
    exact ⟨hne, (header_discard_of_ne hne).symm.trans hq⟩
  have hnodup : m.gcZeroRefCountList.Nodup :=
    (List.nodup_append.mp (List.nodup_append.mp hsettled.balanced.nodup).1).2.1
  exact
    { balanced := hsettled.balanced.close hp hzero hfresh
      gcPhase := hsettled.gcPhase
      tidy :=
        { counted := fun q h' hq hdying hnotValue => by
            rcases hback q h' hq with ⟨hne, hq'⟩
            refine hsettled.tidy.counted q h' hq' ?_ hnotValue
            rw [List.mem_cons, not_or]
            exact ⟨hne, hdying⟩
          dead := fun q h' hdying hq =>
            hsettled.tidy.dead q h' (List.mem_cons_of_mem _ hdying) (hback q h' hq).2
          waiting := fun hphase q => by
            show q ∈ m.gcZeroRefCountList.erase p ↔ _
            rw [hnodup.mem_erase_iff]
            by_cases hne : q = p
            · subst hne
              refine iff_of_false (fun hboth => hboth.1 rfl) ?_
              rintro ⟨h', hq, -⟩
              rw [header_discard_self] at hq
              cases hq
            · rw [and_iff_right hne, header_discard_of_ne hne]
              exact hsettled.tidy.waiting hphase q }
      idle := fun hnone => by
        refine ⟨?_, fun q hq h' hheader => ?_⟩
        · show m.gcZeroRefCountList.erase p = []
          rw [(hsettled.idle hnone).1]
          rfl
        · exact (hsettled.idle hnone).2 q (List.mem_cons_of_mem _ hq) h' (hback q h' hheader).2 }

/-- The last one is given up. Its own references are given up in turn, and then it is freed. -/
theorem Settled.release {child : Child} (hsettled : Settled phase held dying (child :: pending) m)
    (hp : m.header child.ref = some h) (hnotValue : h.contents.isValue = false)
    (hlast : h.refCount - 1 = 0) {g : Memory → Child → Option Memory}
    (hgives : ∀ child ∈ h.contents.released, Gives phase (fun m => g m child) child) :
    ∃ m₁, h.contents.released.foldlM g
        (m.put child.ref { h with refCount := h.refCount - 1 }) = some m₁ ∧
      Settled phase held dying pending (m₁.discard child.ref) ∧
      Frame m (m₁.discard child.ref) := by
  have hfresh : child.ref ∉ dying := fun hin => by
    have hpos := hsettled.balanced.pending_pos hp
    have hzero := hsettled.tidy.dead child.ref h hin hp hnotValue
    omega
  have hheader : (m.put child.ref { h with refCount := h.refCount - 1 }).header child.ref
      = some { h with refCount := h.refCount - 1 } := header_put_self ..
  have hopen := (hsettled.balanced.decref hp).open hheader hfresh
  have hsettled₁ : Settled phase held (child.ref :: dying) (h.contents.released ++ pending)
      (m.put child.ref { h with refCount := h.refCount - 1 }) :=
    { balanced := hopen
      gcPhase := hsettled.gcPhase
      tidy :=
        { counted := fun q h' hq hdying hnotValue' => by
            rw [List.mem_cons, not_or] at hdying
            exact hsettled.tidy.counted q h' ((header_put_of_ne hdying.1 _).symm.trans hq) hdying.2
              hnotValue'
          dead := fun q h' hdying hq hnotValue' => by
            by_cases hne : q = child.ref
            · subst hne
              rw [header_put_self] at hq
              cases hq
              exact hlast
            · exact hsettled.tidy.dead q h' ((List.mem_cons.mp hdying).resolve_left hne)
                ((header_put_of_ne hne _).symm.trans hq) hnotValue'
          waiting := fun hphase => hsettled.tidy.waiting_put hphase hp hnotValue rfl }
      idle := fun hnone => by
        refine ⟨(hsettled.idle hnone).1, fun q hq h' hheader' => ?_⟩
        by_cases hne : q = child.ref
        · subst hne
          rw [header_put_self] at hheader'
          cases hheader'
          exact hnotValue
        · exact (hsettled.idle hnone).2 q ((List.mem_cons.mp hq).resolve_left hne) h'
            ((header_put_of_ne hne _).symm.trans hheader') }
  rcases exists_fold hgives hsettled₁ with ⟨m₁, hfold, hsettled₂, hframe⟩
  rcases hsettled₂.balanced.dyingAlive child.ref List.mem_cons_self with ⟨h₁, hp₁⟩
  rcases hframe.header child.ref h₁ hp₁ with ⟨h₂, hp₂, hcontents, -, -⟩
  rw [header_put_self] at hp₂
  cases hp₂
  have hnotValue₁ : h₁.contents.isValue = false := by
    rw [hcontents]
    exact hnotValue
  have hzero := hsettled₂.tidy.dead child.ref h₁ List.mem_cons_self hp₁ hnotValue₁
  exact ⟨m₁, hfold, hsettled₂.discard hp₁ hzero hfresh,
    (frame_decref hp).trans (hframe.trans (frame_discard m₁ child.ref))⟩

/-- Both cases. -/
theorem Settled.giveUp {child : Child} (hsettled : Settled phase held dying (child :: pending) m)
    (hchild : child.ref = p) (hp : m.header p = some h) (hnotValue : h.contents.isValue = false)
    {g : Memory → Child → Option Memory}
    (hgives : ∀ child ∈ h.contents.released, Gives phase (fun m => g m child) child) :
    ∃ m', (if h.refCount - 1 = 0 then do
        let m₁ ← h.contents.released.foldlM g (m.put p { h with refCount := h.refCount - 1 })
        some (m₁.discard p)
      else some (m.put p { h with refCount := h.refCount - 1 })) = some m' ∧
      Settled phase held dying pending m' ∧ Frame m m' := by
  subst hchild
  by_cases hlast : h.refCount - 1 = 0
  · rcases hsettled.release hp hnotValue hlast hgives with ⟨m₁, hfold, hsettled', hframe⟩
    refine ⟨_, ?_, hsettled', hframe⟩
    rw [if_pos hlast, hfold]
    rfl
  · rw [if_neg hlast]
    exact ⟨_, rfl, hsettled.decref hp hnotValue hlast, frame_decref hp⟩

variable {freeValue : ℕ → Memory → Option Memory}

/-- What is not a JS value refers to JS values, and a context to its shape for arrays as well. -/
theorem children_of_not_isValue {c : Contents} (hnotValue : c.isValue = false) {child : Child}
    (hchild : child ∈ c.children) :
    (∃ ref, child = .value ref) ∨ (c.isContext = true ∧ ∃ ref, child = .shape ref) := by
  cases c with
  | jsObject sh prop data => cases hnotValue
  | functionBytecode cpool realm ic => cases hnotValue
  | shape proto =>
      rcases List.mem_map.mp hchild with ⟨ref, -, rfl⟩
      exact .inl ⟨ref, rfl⟩
  | varRef value =>
      rcases List.mem_map.mp hchild with ⟨ref, -, rfl⟩
      exact .inl ⟨ref, rfl⟩
  | asyncFunction callee stack resolvingFuncs =>
      have hvalue : child ∈ (callee ++ stack ++ resolvingFuncs).map Child.value := by
        rw [List.map_append, List.map_append]
        exact hchild
      rcases List.mem_map.mp hvalue with ⟨ref, -, rfl⟩
      exact .inl ⟨ref, rfl⟩
  | jsContext values arrayShape =>
      rcases List.mem_append.mp hchild with hvalue | hshape
      · rcases List.mem_map.mp hvalue with ⟨ref, -, rfl⟩
        exact .inl ⟨ref, rfl⟩
      · rcases List.mem_map.mp hshape with ⟨ref, -, rfl⟩
        exact .inr ⟨rfl, ref, rfl⟩

/-- Where there is only one reference that can be given up. -/
theorem gives_released {c : Contents} (hnotValue : c.isValue = false)
    (hcontext : c.isContext = false) (hvalue : ∀ p, Gives phase (freeValue p) (.value p)) :
    ∀ child ∈ c.released, Gives phase (freeValue child.ref) child := by
  intro child hchild
  rcases children_of_not_isValue hnotValue (c.released_perm.mem_iff.mp hchild)
    with ⟨ref, rfl⟩ | ⟨htrue, -⟩
  · exact hvalue ref
  · exact absurd (hcontext.symm.trans htrue) (by decide)

theorem gives_freeShape (hvalue : ∀ p, Gives phase (freeValue p) (.value p)) (p : ℕ) :
    Gives phase (freeShape freeValue p) (.shape p) := by
  intro held dying pending m hsettled
  have halive : ∃ h, m.header p = some h ∧ h.contents.isShape = true :=
    hsettled.balanced.pendingFits _ List.mem_cons_self
  rcases halive with ⟨h, hp, hshape⟩
  have hpos : 0 < h.refCount := hsettled.balanced.pending_pos hp
  have hnotValue : h.contents.isValue = false ∧ h.contents.isContext = false := by
    generalize h.contents = c at hshape
    cases c <;> first | exact ⟨rfl, rfl⟩ | cases hshape
  rcases hsettled.giveUp (p := p) rfl hp hnotValue.1 (gives_released hnotValue.1 hnotValue.2 hvalue)
    with ⟨m', hrun, hsettled', hframe⟩
  refine ⟨m', ?_, hsettled', hframe⟩
  unfold freeShape
  rw [← hrun, hp, Option.bind_eq_bind, Option.bind_some, guard_bind hshape]
  by_cases hlast : h.refCount - 1 = 0
  · rw [if_pos hlast, if_pos (Int.le_of_eq hlast), guard_bind hlast]
  · have hlt : ¬ h.refCount - 1 ≤ 0 := by omega
    rw [if_neg hlast, if_neg hlt]

theorem gives_freeVarRef (hvalue : ∀ p, Gives phase (freeValue p) (.value p)) (p : ℕ) :
    Gives phase (freeVarRef freeValue p) (.varRef p) := by
  intro held dying pending m hsettled
  have halive : ∃ h, m.header p = some h ∧ h.contents.isVarRef = true :=
    hsettled.balanced.pendingFits _ List.mem_cons_self
  rcases halive with ⟨h, hp, hvarRef⟩
  have hpos : 0 < h.refCount := hsettled.balanced.pending_pos hp
  have hnotValue : h.contents.isValue = false ∧ h.contents.isContext = false := by
    generalize h.contents = c at hvarRef
    cases c <;> first | exact ⟨rfl, rfl⟩ | cases hvarRef
  rcases hsettled.giveUp (p := p) rfl hp hnotValue.1 (gives_released hnotValue.1 hnotValue.2 hvalue)
    with ⟨m', hrun, hsettled', hframe⟩
  refine ⟨m', ?_, hsettled', hframe⟩
  unfold freeVarRef
  rw [← hrun, hp, Option.bind_eq_bind, Option.bind_some, guard_bind hvarRef, guard_bind hpos]

theorem gives_freeAsyncFunction (hvalue : ∀ p, Gives phase (freeValue p) (.value p)) (p : ℕ) :
    Gives phase (freeAsyncFunction freeValue p) (.asyncFunction p) := by
  intro held dying pending m hsettled
  have halive : ∃ h, m.header p = some h ∧ h.contents.isAsyncFunction = true :=
    hsettled.balanced.pendingFits _ List.mem_cons_self
  rcases halive with ⟨h, hp, hasync⟩
  have hnotValue : h.contents.isValue = false ∧ h.contents.isContext = false := by
    generalize h.contents = c at hasync
    cases c <;> first | exact ⟨rfl, rfl⟩ | cases hasync
  rcases hsettled.giveUp (p := p) rfl hp hnotValue.1 (gives_released hnotValue.1 hnotValue.2 hvalue)
    with ⟨m', hrun, hsettled', hframe⟩
  refine ⟨m', ?_, hsettled', hframe⟩
  unfold freeAsyncFunction
  rw [← hrun, hp, Option.bind_eq_bind, Option.bind_some, guard_bind hasync]

theorem gives_freeContext (hvalue : ∀ p, Gives phase (freeValue p) (.value p)) (p : ℕ) :
    Gives phase (freeContext freeValue p) (.context p) := by
  intro held dying pending m hsettled
  have halive : ∃ h, m.header p = some h ∧ h.contents.isContext = true :=
    hsettled.balanced.pendingFits _ List.mem_cons_self
  rcases halive with ⟨h, hp, hcontext⟩
  have hnotValue : h.contents.isValue = false := by
    generalize h.contents = c at hcontext
    cases c <;> first | rfl | cases hcontext
  have hgives (child : Child) (hchild : child ∈ h.contents.released) :
      Gives phase (fun m => freeContextField freeValue m child) child := by
    rcases children_of_not_isValue hnotValue (h.contents.released_perm.mem_iff.mp hchild)
      with ⟨ref, rfl⟩ | ⟨-, ref, rfl⟩
    · exact hvalue ref
    · exact gives_freeShape hvalue ref
  rcases hsettled.giveUp (p := p) rfl hp hnotValue hgives with ⟨m', hrun, hsettled', hframe⟩
  refine ⟨m', ?_, hsettled', hframe⟩
  unfold freeContext
  rw [← hrun, hp, Option.bind_eq_bind, Option.bind_some, guard_bind hcontext]

/-- A reference of any type is given up. -/
theorem gives_freeChild (hvalue : ∀ p, Gives phase (freeValue p) (.value p)) (child : Child) :
    Gives phase (fun m => freeChild freeValue m child) child := by
  cases child with
  | value ref => exact hvalue ref
  | shape ref => exact gives_freeShape hvalue ref
  | varRef ref => exact gives_freeVarRef hvalue ref
  | asyncFunction ref => exact gives_freeAsyncFunction hvalue ref
  | context ref => exact gives_freeContext hvalue ref

/-! ## What waits to be freed -/

/-- A JS value is freed, or keeps its memory with nothing in it. -/
structure Freed (p : ℕ) (m m' : Memory) : Prop where
  phase : m'.gcPhase = m.gcPhase
  self : m'.header p = none ∨
    (m.gcPhase = .removeCycles ∧ p ∈ m'.gcZeroRefCountList ∧ m'.refs p = [])
  header : ∀ q h', q ≠ p → m'.header q = some h' → ∃ h, m.header q = some h ∧
    h'.contents = h.contents ∧ h'.mark = h.mark ∧ h'.refCount ≤ h.refCount
  gcObjList : ∀ q ∈ m'.gcObjList, q ∈ m.gcObjList
  tmpObjList : m'.tmpObjList.Sublist (m.tmpObjList.erase p)
  zero : m.gcPhase = .removeCycles → ∀ q ∈ m'.gcZeroRefCountList,
    q ∈ m.gcZeroRefCountList ∨ q = p

/-- Something is freed for good. -/
theorem Freed.frame (hfreed : Freed p m m') (hself : m'.header p = none)
    (hphase : m.gcPhase ≠ .removeCycles) : Frame m m' where
  phase := hfreed.phase
  header q h' hq := by
    refine hfreed.header q h' ?_ hq
    rintro rfl
    rw [hself] at hq
    cases hq
  gcObjList := hfreed.gcObjList
  tmpObjList := hfreed.tmpObjList.trans List.erase_sublist
  zero hremove := absurd hremove hphase

/-- A JS value is freed while a pass is under way. -/
theorem exists_freeGcObject (hphase : phase ≠ .none)
    (hsettled : Settled phase held dying pending m) (hp : m.header p = some h)
    (hvalue : h.contents.isValue = true) (hfresh : p ∉ dying)
    (hzero : phase = .decref → h.refCount = 0) :
    ∃ m', m.freeGcObject p = some m' ∧ Settled phase held dying pending m' ∧ Freed p m m' := by
  have hopen : Settled phase held (p :: dying) (h.contents.released ++ pending) m :=
    { balanced := hsettled.balanced.open hp hfresh
      tidy :=
        { counted := fun q h' hq hdying => by
            rw [List.mem_cons, not_or] at hdying
            exact hsettled.tidy.counted q h' hq hdying.2
          dead := fun q h' hdying hq hnotValue => by
            rcases List.mem_cons.mp hdying with rfl | hdying
            · rw [hp] at hq
              cases hq
              exact absurd (hvalue.symm.trans hnotValue) (by decide)
            · exact hsettled.tidy.dead q h' hdying hq hnotValue
          waiting := hsettled.tidy.waiting }
      gcPhase := hsettled.gcPhase
      idle := fun hnone => absurd hnone hphase }
  rcases exists_fold (fun child _ => gives_freeChild (gives_freeValueRT hphase) child) hopen
    with ⟨m₁, hfold, hsettled₁, hframe⟩
  rcases hsettled₁.balanced.dyingAlive p List.mem_cons_self with ⟨h₁, hp₁⟩
  rcases hframe.header p h₁ hp₁ with ⟨h₀, hp₀, hcontents, -, hcount⟩
  rw [hp] at hp₀
  cases hp₀
  have hrun : m.freeGcObject p = some
      (if m₁.gcPhase = .removeCycles ∧ h₁.refCount ≠ 0 then
        (m₁.put p { h₁ with contents := h₁.contents.cleared }).moveToZero p
      else m₁.discard p) := by
    unfold freeGcObject
    rw [hp, Option.bind_eq_bind, Option.bind_some, guard_bind hvalue, hfold, Option.bind_eq_bind,
      Option.bind_some, hp₁]
    rfl
  rw [hrun]
  by_cases hkept : m₁.gcPhase = .removeCycles ∧ h₁.refCount ≠ 0
  · -- The rest of the cycle still has references to it.
    rw [if_pos hkept]
    have hremove : m.gcPhase = .removeCycles := hframe.phase.symm.trans hkept.1
    have hback (q : ℕ) (h' : JSGCObjectHeader) (hne : q ≠ p)
        (hq : ((m₁.put p { h₁ with contents := h₁.contents.cleared }).moveToZero p).header q
          = some h') : m₁.header q = some h' :=
      (header_put_of_ne hne _).symm.trans hq
    have hself (h' : JSGCObjectHeader)
        (hq : ((m₁.put p { h₁ with contents := h₁.contents.cleared }).moveToZero p).header p
          = some h') : h'.contents = h.contents.cleared := by
      have hput := (header_put_self m₁ p { h₁ with contents := h₁.contents.cleared }).symm.trans hq
      cases hput
      rw [hcontents]
    have hne (q : ℕ) (h' : JSGCObjectHeader) (hnotValue : h'.contents.isValue = false)
        (hq : ((m₁.put p { h₁ with contents := h₁.contents.cleared }).moveToZero p).header q
          = some h') : q ≠ p := by
      rintro rfl
      rw [hself h' hq, Contents.isValue_cleared] at hnotValue
      exact absurd (hvalue.symm.trans hnotValue) (by decide)
    refine ⟨_, rfl, ?_, ?_⟩
    · exact
        { balanced := hsettled₁.balanced.clear hp₁
          tidy :=
            { counted := fun q h' hq hdying hnotValue => by
                have hne' := hne q h' hnotValue hq
                refine hsettled₁.tidy.counted q h' (hback q h' hne' hq) ?_ hnotValue
                rw [List.mem_cons, not_or]
                exact ⟨hne', hdying⟩
              dead := fun q h' hdying hq hnotValue =>
                hsettled₁.tidy.dead q h' (List.mem_cons_of_mem _ hdying)
                  (hback q h' (hne q h' hnotValue hq) hq) hnotValue
              waiting := fun hphase' => absurd hkept.1 hphase' }
          gcPhase := hsettled₁.gcPhase
          idle := fun hnone => absurd hnone hphase }
    · exact
        { phase := hframe.phase
          self := by
            refine .inr ⟨hremove, List.mem_append_right _ List.mem_cons_self, ?_⟩
            have hput := header_put_self m₁ p { h₁ with contents := h₁.contents.cleared }
            refine (refs_eq (m := (m₁.put p _).moveToZero p) hput).trans ?_
            rw [Contents.children_cleared]
            rfl
          header := fun q h' hne' hq => hframe.header q h' (hback q h' hne' hq)
          gcObjList := fun q hq => hframe.gcObjList q (List.mem_of_mem_erase hq)
          tmpObjList := hframe.tmpObjList.erase p
          zero := fun _ q hq => by
            rcases List.mem_append.mp hq with hold | hnew
            · exact .inl (hframe.zero hremove q (List.mem_of_mem_erase hold))
            · exact .inr (List.mem_singleton.mp hnew) }
  · rw [if_neg hkept]
    have hnone : h₁.refCount = 0 := by
      have hnonneg := hsettled₁.balanced.count p h₁ hp₁
      by_cases hremove : m₁.gcPhase = .removeCycles
      · exact not_not.mp fun hne => hkept ⟨hremove, hne⟩
      · -- There were none before.
        have hdecref : phase = .decref := by
          have hphase₁ := hsettled₁.gcPhase
          cases phase with
          | none => exact absurd rfl hphase
          | decref => rfl
          | removeCycles => exact absurd hphase₁ hremove
        have hzero' := hzero hdecref
        omega
    refine ⟨_, rfl, hsettled₁.discard hp₁ hnone hfresh, ?_⟩
    have hframe' := hframe.trans (frame_discard m₁ p)
    exact
      { phase := hframe'.phase
        self := .inl (header_discard_self m₁ p)
        header := fun q h' _ hq => hframe'.header q h' hq
        gcObjList := hframe'.gcObjList
        tmpObjList := hframe.tmpObjList.erase p
        zero := fun hremove q hq => .inl (hframe'.zero hremove q hq) }

/-- The loop frees what waits, and what comes to wait on the way. -/
theorem exists_freeZeroRefcountLoop {bound : ℕ}
    (hsettled : Settled .decref held dying pending m)
    (hdying : ∀ q ∈ dying, ∀ h, m.header q = some h → h.contents.isValue = false)
    (hbound : m.listed.length ≤ bound) :
    ∃ m', freeZeroRefcountLoop bound m = some m' ∧ Settled .decref held dying pending m' ∧
      m'.gcZeroRefCountList = [] ∧ Frame m m' := by
  induction bound generalizing m with
  | zero =>
      have hnil : m.listed = [] := List.length_eq_zero_iff.mp (Nat.le_zero.mp hbound)
      unfold listed at hnil
      have hempty : m.gcZeroRefCountList = [] := by
        rw [List.append_eq_nil_iff, List.append_eq_nil_iff] at hnil
        exact hnil.1.2
      refine ⟨m, ?_, hsettled, hempty, Frame.refl m⟩
      unfold freeZeroRefcountLoop
      rw [hempty]
  | succ bound ih =>
      cases hlist : m.gcZeroRefCountList with
      | nil =>
          refine ⟨m, ?_, hsettled, hlist, Frame.refl m⟩
          unfold freeZeroRefcountLoop
          rw [hlist]
      | cons p rest =>
          have hphase : m.gcPhase ≠ .removeCycles := by
            rw [hsettled.gcPhase]
            decide
          have hin : p ∈ m.gcZeroRefCountList := hlist ▸ List.mem_cons_self
          rcases (hsettled.tidy.waiting hphase p).mp hin with ⟨h, hp, hvalue, hzero⟩
          have hfresh : p ∉ dying := fun hmem =>
            absurd (hvalue.symm.trans (hdying p hmem h hp)) (by decide)
          rcases exists_freeGcObject (by decide) hsettled hp hvalue hfresh fun _ => hzero
            with ⟨m₁, hfree, hsettled₁, hfreed⟩
          have hself : m₁.header p = none :=
            hfreed.self.resolve_right fun hkept => hphase hkept.1
          have hframe := hfreed.frame hself hphase
          have hdying₁ (q : ℕ) (hq : q ∈ dying) (h₁ : JSGCObjectHeader)
              (hheader : m₁.header q = some h₁) : h₁.contents.isValue = false := by
            rcases hframe.header q h₁ hheader with ⟨h₀, hheader₀, hcontents, -⟩
            rw [hcontents]
            exact hdying q hq h₀ hheader₀
          have hlength : m₁.listed.length ≤ bound := by
            have hsub : m₁.listed ⊆ m.listed.erase p := fun q hq => by
              rcases (hsettled₁.balanced.mem q).mp hq with ⟨h₁, hheader⟩
              rcases hframe.header q h₁ hheader with ⟨h₀, hheader₀, -⟩
              refine hsettled.balanced.nodup.mem_erase_iff.mpr
                ⟨?_, (hsettled.balanced.mem q).mpr ⟨h₀, hheader₀⟩⟩
              rintro rfl
              rw [hself] at hheader
              cases hheader
            have hle := (hsettled₁.balanced.nodup.subperm hsub).length_le
            rw [List.length_erase_of_mem ((hsettled.balanced.mem p).mpr ⟨h, hp⟩)] at hle
            omega
          rcases ih hsettled₁ hdying₁ hlength with ⟨m', hloop, hsettled', hempty, hframe'⟩
          refine ⟨m', ?_, hsettled', hempty, hframe.trans hframe'⟩
          unfold freeZeroRefcountLoop
          rw [hlist]
          change (m.header p).bind _ = some m'
          rw [hp, Option.bind_some, guard_bind hzero, hfree, Option.bind_eq_bind,
            Option.bind_some, hloop]

theorem length_listed (m : Memory) : m.listed.length = m.size := by
  unfold listed size
  rw [List.length_append, List.length_append]

/-- Everything that waits is freed, while no other pass is under way. -/
theorem exists_freeZeroRefcount (hbalanced : Balanced held dying pending m) (htidy : Tidy dying m)
    (hphase : m.gcPhase = .none)
    (hdying : ∀ q ∈ dying, ∀ h, m.header q = some h → h.contents.isValue = false) :
    ∃ m', m.freeZeroRefcount = some m' ∧ Settled .none held dying pending m' ∧ Frame m m' := by
  have hwaiting := htidy.waiting (by rw [hphase]; decide)
  have hsettled : Settled .decref held dying pending { m with gcPhase := .decref } :=
    { balanced := hbalanced.relist (.refl _) rfl
      tidy := ⟨htidy.counted, htidy.dead, fun _ => hwaiting⟩
      gcPhase := rfl
      idle := fun hnone => by cases hnone }
  rcases exists_freeZeroRefcountLoop hsettled hdying (Nat.le_of_eq (length_listed m))
    with ⟨m', hloop, hsettled', hempty, hframe⟩
  refine ⟨{ m' with gcPhase := .none }, ?_, ?_, ?_⟩
  · unfold freeZeroRefcount
    rw [hloop]
    rfl
  · exact
      { balanced := hsettled'.balanced.relist (.refl _) rfl
        tidy := ⟨hsettled'.tidy.counted, hsettled'.tidy.dead, fun _ =>
          hsettled'.tidy.waiting (by rw [hsettled'.gcPhase]; decide)⟩
        gcPhase := rfl
        idle := fun _ => by
          refine ⟨hempty, fun q hq h' hheader => ?_⟩
          rcases hframe.header q h' hheader with ⟨h₀, hheader₀, hcontents, -⟩
          rw [hcontents]
          exact hdying q hq h₀ hheader₀ }
  · exact
      { phase := hphase.symm
        header := hframe.header
        gcObjList := hframe.gcObjList
        tmpObjList := hframe.tmpObjList
        zero := fun hremove => by
          rw [hphase] at hremove
          cases hremove }

/-- A reference to a JS value is given up while no pass is under way. -/
theorem gives_jsFreeValueRT (p : ℕ) : Gives .none (jsFreeValueRT p) (.value p) := by
  intro held dying pending m hsettled
  rcases exists_freeValueRT hsettled.balanced hsettled.tidy
    with ⟨m₁, h, hp, hfree, hbalanced, htidy, hframe, hsame⟩
  have hphase : m₁.gcPhase = .none := hframe.phase.trans hsettled.gcPhase
  have hdying (q : ℕ) (hq : q ∈ dying) (h₁ : JSGCObjectHeader)
      (hheader : m₁.header q = some h₁) : h₁.contents.isValue = false := by
    rcases hframe.header q h₁ hheader with ⟨h₀, hheader₀, hcontents, -⟩
    rw [hcontents]
    exact (hsettled.idle rfl).2 q hq h₀ hheader₀
  have hrun : m.jsFreeValueRT p =
      if h.refCount - 1 ≤ 0 ∧ m₁.gcPhase = .none then m₁.freeZeroRefcount else some m₁ := by
    unfold jsFreeValueRT
    rw [hp, Option.bind_eq_bind, Option.bind_some, hfree]
    rfl
  rw [hrun]
  by_cases hlast : h.refCount - 1 ≤ 0
  · rw [if_pos ⟨hlast, hphase⟩]
    rcases exists_freeZeroRefcount hbalanced htidy hphase hdying
      with ⟨m', hzero, hsettled', hframe'⟩
    exact ⟨m', hzero, hsettled', hframe.trans hframe'⟩
  · rw [if_neg fun hboth => hlast hboth.1]
    refine ⟨m₁, rfl, ⟨hbalanced, htidy, hphase, fun _ => ⟨?_, hdying⟩⟩, hframe⟩
    rw [hsame (by omega)]
    exact (hsettled.idle rfl).1

/-- Any reference that is held outside of the memory. -/
theorem gives_jsFreeChild (child : Child) : Gives .none (fun m => m.jsFreeChild child) child :=
  gives_freeChild gives_jsFreeValueRT child

end Memory

end Substrata
