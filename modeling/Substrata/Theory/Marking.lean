import Substrata.Core.Collector
import Mathlib.Data.List.Count
import Mathlib.Data.List.Nodup
import Mathlib.Data.List.Perm.Basic

/-!
# What the collector condemns

The first two passes of `JS_RunGC`. The first takes the references between things off their
counts, as far as the counts go: a count that is too low ends at zero. What keeps a count stays
in `gc_obj_list`. The second walks that list while it grows, and puts back the references from
what it visits.

Nothing is assumed about the counts but that they are not negative, so this also says what the
collector does when something was released too often. What is condemned is what cannot be reached
from anything with more references than there are in the memory, and every count becomes the
number of references in the memory if it was lower.

## Main definitions

* `Memory.refs`, `Memory.indegree`: References, and how many there are to one thing.
* `Memory.Listed`: The memory between two passes.
* `Memory.Live`: What can be reached from what has a count left.
* `Memory.Decref`, `Memory.Scan`, `Memory.Restore`: What holds in the loops.
* `Memory.Marked`: What the two passes leave.

## Theorems

* `Decref.child`, `Decref.visit`, `exists_gcDecref`: The first pass.
* `Scan.child`, `Scan.visit`, `exists_gcScan_loop`: What the second pass reaches.
* `exists_marked`: Both passes.
-/

namespace Substrata

namespace Memory

/-- What something refers to, in the order in which it is marked. -/
def refs (m : Memory) (p : ℕ) : List ℕ :=
  match m.header p with
  | none => []
  | some h => h.contents.children.map Child.ref

/-- How many references there are to something from what is listed. -/
def indegree (m : Memory) (p : ℕ) : ℕ := (m.gcObjList.flatMap m.refs).count p

/-- What comes after a check that succeeds. -/
theorem guard_bind {α : Type} {c : Prop} [Decidable c] (hc : c) (code : Unit → Option α) :
    (guard c >>= code) = code () := by
  rw [guard, if_pos hc]
  rfl

theorem refs_eq {m : Memory} {p : ℕ} {h : JSGCObjectHeader} (hp : m.header p = some h) :
    m.refs p = h.contents.children.map Child.ref := by
  unfold refs
  rw [hp]

/-- The memory while no pass is under way: what is listed has a header, and refers to what is
    listed. -/
structure Listed (m : Memory) : Prop where
  nodup : m.gcObjList.Nodup
  zero : m.gcZeroRefCountList = []
  header : ∀ p ∈ m.gcObjList, ∃ h, m.header p = some h ∧ h.mark = false ∧ 0 ≤ h.refCount
  refs : ∀ p ∈ m.gcObjList, ∀ q ∈ m.refs p, q ∈ m.gcObjList

/-- The count of something, where it has one. -/
def refCount (m : Memory) (p : ℕ) : ℤ :=
  match m.header p with
  | none => 0
  | some h => h.refCount

theorem refCount_eq {m : Memory} {p : ℕ} {h : JSGCObjectHeader} (hp : m.header p = some h) :
    m.refCount p = h.refCount := by
  unfold refCount
  rw [hp]

/-- Whether there are more references to something than there are in the memory. -/
def Held (m : Memory) (p : ℕ) : Prop := (m.indegree p : ℤ) < m.refCount p

/-- What can be reached from what is held from outside. -/
inductive Live (m : Memory) : ℕ → Prop
  | held {p : ℕ} (hlisted : p ∈ m.gcObjList) (hheld : m.Held p) : Live m p
  | step {p q : ℕ} (hp : Live m p) (hq : q ∈ m.refs p) : Live m q

theorem Listed.live_mem {m : Memory} (hlisted : m.Listed) {p : ℕ} (hp : m.Live p) :
    p ∈ m.gcObjList := by
  induction hp with
  | held hmem _ => exact hmem
  | step _ hq ih => exact hlisted.refs _ ih _ hq

/-! ## Lists without repetition -/

/-- Taking an element out of a list, by the condition that its elements meet. -/
theorem erase_filter {l : List ℕ} (hl : l.Nodup) {P Q : ℕ → Prop} [DecidablePred P]
    [DecidablePred Q] {x : ℕ} (hx : ¬ Q x) (hothers : ∀ y, y ≠ x → (P y ↔ Q y)) :
    (l.filter P).erase x = l.filter Q := by
  rw [(hl.filter _).erase_eq_filter, List.filter_filter]
  refine List.filter_congr fun y _ => ?_
  by_cases hy : y = x
  · rw [hy]
    simp [hx]
  · simp [hy, hothers y hy]

theorem nodup_snoc {l : List ℕ} (hl : l.Nodup) {x : ℕ} (hx : x ∉ l) : (l ++ [x]).Nodup :=
  (List.nodup_cons.mpr ⟨hx, hl⟩).perm (List.perm_append_singleton x l).symm

/-! ## The first pass -/

variable {m₀ m m' : Memory} {visited taken : List ℕ}

/-- Whether something was visited, and has no count left. -/
def Spent (m₀ : Memory) (visited taken : List ℕ) (p : ℕ) : Prop :=
  p ∈ visited ∧ m₀.refCount p ≤ taken.count p

instance : DecidablePred (Spent m₀ visited taken) :=
  fun p => inferInstanceAs (Decidable (p ∈ visited ∧ m₀.refCount p ≤ taken.count p))

/-- In the first pass, with what was visited, and the references that were taken off. -/
structure Decref (m₀ : Memory) (visited taken : List ℕ) (m : Memory) : Prop where
  header : ∀ p h, p ∈ m₀.gcObjList → m₀.header p = some h →
    m.header p = some
      { h with refCount := max (h.refCount - taken.count p) 0, mark := decide (p ∈ visited) }
  outside : ∀ p, p ∉ m₀.gcObjList → m.header p = m₀.header p
  gcObjList : m.gcObjList = m₀.gcObjList.filter fun p => ¬ Spent m₀ visited taken p
  tmpNodup : m.tmpObjList.Nodup
  tmpObjList : ∀ p, p ∈ m.tmpObjList ↔ p ∈ m₀.gcObjList ∧ Spent m₀ visited taken p
  zero : m.gcZeroRefCountList = []
  phase : m.gcPhase = m₀.gcPhase

/-- A change that does not show. -/
theorem Decref.congr (hdecref : Decref m₀ visited taken m) {taken' : List ℕ}
    (hleft : ∀ p ∈ m₀.gcObjList, max (m₀.refCount p - taken'.count p) 0
      = max (m₀.refCount p - taken.count p) 0)
    (hspent : ∀ p, Spent m₀ visited taken' p ↔ Spent m₀ visited taken p) :
    Decref m₀ visited taken' m where
  header p h hmem hp := by
    rw [hdecref.header p h hmem hp, ← refCount_eq hp, hleft p hmem]
  outside := hdecref.outside
  gcObjList := by
    rw [hdecref.gcObjList]
    exact List.filter_congr fun p _ => decide_eq_decide.mpr (not_congr (hspent p)).symm
  tmpNodup := hdecref.tmpNodup
  tmpObjList p := by rw [hdecref.tmpObjList, hspent]
  zero := hdecref.zero
  phase := hdecref.phase

/-- The header of something that has a count left is written, and it is moved if it has none
    then. -/
theorem Decref.write (hlisted : m₀.Listed) (hdecref : Decref m₀ visited taken m) {el : ℕ}
    {h : JSGCObjectHeader} (hel : el ∈ m₀.gcObjList) (hp : m₀.header el = some h)
    (hunspent : ¬ Spent m₀ visited taken el) {visited' taken' : List ℕ}
    (hvisited : ∀ p, p ≠ el → (p ∈ visited' ↔ p ∈ visited))
    (htaken : ∀ p, p ≠ el → taken'.count p = taken.count p) {left : ℤ}
    (hleft : left = max (h.refCount - taken'.count el) 0) {marked : Bool}
    (hmarked : marked = decide (el ∈ visited')) (gone : Prop) [Decidable gone]
    (hgone : gone ↔ Spent m₀ visited' taken' el) :
    Decref m₀ visited' taken'
      (if gone then (m.put el ⟨left, marked, h.contents⟩).moveToTmp el
        else m.put el ⟨left, marked, h.contents⟩) := by
  have hspent (p : ℕ) (hne : p ≠ el) : Spent m₀ visited' taken' p ↔ Spent m₀ visited taken p := by
    unfold Spent
    rw [hvisited p hne, htaken p hne]
  have hheader (p : ℕ) (h' : JSGCObjectHeader) (hmem : p ∈ m₀.gcObjList)
      (hp' : m₀.header p = some h') :
      (m.put el ⟨left, marked, h.contents⟩).header p = some
        { h' with
          refCount := max (h'.refCount - taken'.count p) 0
          mark := decide (p ∈ visited') } := by
    unfold put
    dsimp only
    by_cases hne : p = el
    · subst hne
      rw [Function.update_self]
      rw [hp] at hp'
      rw [← Option.some.inj hp', hleft, hmarked]
    · rw [Function.update_of_ne hne, hdecref.header p h' hmem hp', htaken p hne,
        decide_eq_decide.mpr (hvisited p hne)]
  have houtside (p : ℕ) (hmem : p ∉ m₀.gcObjList) :
      (m.put el ⟨left, marked, h.contents⟩).header p = m₀.header p := by
    unfold put
    dsimp only
    have hne : p ≠ el := by
      rintro rfl
      exact hmem hel
    rw [Function.update_of_ne hne, hdecref.outside p hmem]
  by_cases hnow : gone
  · -- It goes from one list to the other.
    rw [if_pos hnow]
    have hnow' := hgone.mp hnow
    have hfresh : el ∉ m.tmpObjList := fun hmem => hunspent ((hdecref.tmpObjList el).mp hmem).2
    exact
      { header := hheader
        outside := houtside
        gcObjList := by
          show m.gcObjList.erase el = _
          rw [hdecref.gcObjList]
          exact erase_filter hlisted.nodup (not_not.mpr hnow') fun p hne =>
            not_congr (hspent p hne).symm
        tmpNodup := by
          show (m.tmpObjList.erase el ++ [el]).Nodup
          rw [List.erase_of_not_mem hfresh]
          exact nodup_snoc hdecref.tmpNodup hfresh
        tmpObjList := fun p => by
          show p ∈ m.tmpObjList.erase el ++ [el] ↔ _
          rw [List.erase_of_not_mem hfresh, List.mem_append, List.mem_singleton,
            hdecref.tmpObjList]
          by_cases hne : p = el
          · subst hne
            exact iff_of_true (Or.inr rfl) ⟨hel, hnow'⟩
          · rw [hspent p hne]
            exact or_iff_left hne
        zero := by
          show m.gcZeroRefCountList.erase el = []
          rw [hdecref.zero]
          rfl
        phase := hdecref.phase }
  · -- Nothing moves, so what is spent is what was spent before.
    rw [if_neg hnow]
    have hsame (p : ℕ) : Spent m₀ visited' taken' p ↔ Spent m₀ visited taken p := by
      by_cases hne : p = el
      · subst hne
        exact iff_of_false (fun hspent' => hnow (hgone.mpr hspent')) hunspent
      · exact hspent p hne
    exact
      { header := hheader
        outside := houtside
        gcObjList := by
          show m.gcObjList = _
          rw [hdecref.gcObjList]
          exact List.filter_congr fun p _ => decide_eq_decide.mpr (not_congr (hsame p)).symm
        tmpNodup := hdecref.tmpNodup
        tmpObjList := fun p => by
          rw [hsame]
          exact hdecref.tmpObjList p
        zero := hdecref.zero
        phase := hdecref.phase }

/-- A reference is taken off. -/
theorem Decref.child (hlisted : m₀.Listed) (hdecref : Decref m₀ visited taken m) {child : Child}
    (hchild : child.ref ∈ m₀.gcObjList) :
    ∃ m', gcDecrefChild m child = some m' ∧ Decref m₀ visited (taken ++ [child.ref]) m' := by
  rcases hlisted.header _ hchild with ⟨h, hp, -, hcount⟩
  have hself : (taken ++ [child.ref]).count child.ref = taken.count child.ref + 1 := by
    rw [List.count_append, List.count_singleton_self]
  have hother (p : ℕ) (hne : p ≠ child.ref) :
      (taken ++ [child.ref]).count p = taken.count p := by
    rw [List.count_append, List.count_singleton, if_neg (by simpa using hne.symm), Nat.add_zero]
  unfold gcDecrefChild
  rw [hdecref.header _ h hchild hp, Option.bind_eq_bind, Option.bind_some]
  dsimp only
  by_cases hzero : h.refCount ≤ taken.count child.ref
  · -- Its count is spent, and stays so.
    rw [if_pos (by omega)]
    refine ⟨m, rfl, hdecref.congr (fun p _ => ?_) fun p => ?_⟩
    · by_cases hne : p = child.ref
      · subst hne
        rw [hself, refCount_eq hp]
        push_cast
        omega
      · rw [hother p hne]
    · unfold Spent
      by_cases hne : p = child.ref
      · subst hne
        rw [hself, refCount_eq hp]
        push_cast
        exact and_congr_right fun _ => iff_of_true (by omega) hzero
      · rw [hother p hne]
  · -- It has one left to take off. It is moved if that was the last and it was visited.
    rw [if_neg (by omega)]
    have hunspent : ¬ Spent m₀ visited taken child.ref := by
      rintro ⟨-, hle⟩
      exact hzero (refCount_eq hp ▸ hle)
    refine ⟨_, rfl,
      hdecref.write hlisted hchild hp hunspent (fun p _ => Iff.rfl) hother ?_ rfl _ ?_⟩
    · rw [hself]
      push_cast
      omega
    · unfold Spent
      rw [hself, refCount_eq hp, decide_eq_true_iff, and_comm]
      push_cast
      exact and_congr_right fun _ => by omega

/-- The references of one thing are taken off. -/
theorem Decref.children (hlisted : m₀.Listed) (hdecref : Decref m₀ visited taken m)
    {children : List Child} (hchildren : ∀ child ∈ children, child.ref ∈ m₀.gcObjList) :
    ∃ m', children.foldlM gcDecrefChild m = some m' ∧
      Decref m₀ visited (taken ++ children.map Child.ref) m' := by
  induction children generalizing m taken with
  | nil =>
      refine ⟨m, rfl, ?_⟩
      rwa [List.map_nil, List.append_nil]
  | cons child children ih =>
      rcases hdecref.child hlisted (hchildren child List.mem_cons_self) with ⟨m₁, hfirst, hdecref₁⟩
      rcases ih hdecref₁ fun child' hmem => hchildren child' (List.mem_cons_of_mem _ hmem)
        with ⟨m', hrest, hdecref'⟩
      refine ⟨m', ?_, ?_⟩
      · rw [List.foldlM_cons, hfirst]
        exact hrest
      · rwa [List.map_cons, List.append_cons]

/-- Something is visited. -/
theorem Decref.visit (hlisted : m₀.Listed) (hdecref : Decref m₀ visited taken m) {el : ℕ}
    (hel : el ∈ m₀.gcObjList) (hfresh : el ∉ visited) :
    ∃ m', gcDecrefVisit el m = some m' ∧
      Decref m₀ (visited ++ [el]) (taken ++ m₀.refs el) m' := by
  rcases hlisted.header el hel with ⟨h, hp, -, -⟩
  have hchildren (child : Child) (hmem : child ∈ h.contents.children) :
      child.ref ∈ m₀.gcObjList := by
    refine hlisted.refs el hel _ ?_
    rw [refs_eq hp]
    exact List.mem_map_of_mem hmem
  rcases hdecref.children hlisted hchildren with ⟨m₁, hfold, hdecref₁⟩
  rw [← refs_eq hp] at hdecref₁
  have hvisited : el ∈ visited ++ [el] := List.mem_append_right _ List.mem_cons_self
  unfold gcDecrefVisit
  rw [hdecref.header el h hel hp, Option.bind_eq_bind, Option.bind_some,
    guard_bind (decide_eq_false hfresh), hfold, Option.bind_eq_bind, Option.bind_some,
    hdecref₁.header el h hel hp, Option.bind_some]
  dsimp only
  refine ⟨_, rfl, hdecref₁.write hlisted hel hp (fun hspent => hfresh hspent.1) (fun p hne => ?_)
    (fun _ _ => rfl) rfl (decide_eq_true hvisited).symm _ ?_⟩
  · rw [List.mem_append, List.mem_singleton]
    exact or_iff_left hne
  · -- It is moved if nothing is left of its count now that it is visited.
    unfold Spent
    rw [refCount_eq hp]
    exact ⟨fun hzero => ⟨hvisited, by omega⟩, fun hspent => by have hle := hspent.2; omega⟩

/-- Before the first pass. -/
theorem Listed.decref (hlisted : m₀.Listed) : Decref m₀ [] [] { m₀ with tmpObjList := [] } where
  header p h hmem hp := by
    rcases hlisted.header p hmem with ⟨h', hp', hmark, hcount⟩
    rw [hp] at hp'
    cases hp'
    have hfull : max (h.refCount - (([] : List ℕ).count p : ℕ)) 0 = h.refCount := by
      rw [List.count_nil]
      omega
    rw [hfull, decide_eq_false List.not_mem_nil, ← hmark]
    exact hp
  outside p _ := rfl
  gcObjList := by
    refine (List.filter_eq_self.mpr fun p _ => decide_eq_true fun hspent => ?_).symm
    exact List.not_mem_nil hspent.1
  tmpNodup := List.nodup_nil
  tmpObjList p := by
    refine iff_of_false List.not_mem_nil ?_
    rintro ⟨-, hspent⟩
    exact List.not_mem_nil hspent.1
  zero := hlisted.zero
  phase := rfl

/-- The first pass visits everything that was listed. -/
theorem exists_gcDecref (hlisted : m₀.Listed) : ∃ m₁, m₀.gcDecref = some m₁ ∧
    Decref m₀ m₀.gcObjList (m₀.gcObjList.flatMap m₀.refs) m₁ := by
  -- The loop only takes out what is behind it: the rest of the list is as it was at the start.
  have hbody (behind : List ℕ) (x : ℕ) (rest : List ℕ) (m : Memory)
      (hsplit : behind ++ x :: rest = m₀.gcObjList)
      (hdecref : Decref m₀ behind (behind.flatMap m₀.refs) m) :
      ∃ m', gcDecrefVisit x m = some m' ∧
        Decref m₀ (behind ++ [x]) ((behind ++ [x]).flatMap m₀.refs) m' ∧
        ∃ kept, m'.gcObjList = kept ++ rest ∧ ∀ y ∈ rest, y ∉ kept := by
    have hnodup := hlisted.nodup
    rw [← hsplit, List.append_cons] at hnodup
    rcases List.nodup_append.mp hnodup with ⟨hbehind, -, hapart⟩
    have hx : x ∈ m₀.gcObjList := by
      rw [← hsplit]
      exact List.mem_append_right _ List.mem_cons_self
    have hfresh : x ∉ behind := fun hmem =>
      (List.nodup_append.mp hbehind).2.2 x hmem x List.mem_cons_self rfl
    rcases hdecref.visit hlisted hx hfresh with ⟨m', hvisit, hdecref'⟩
    have htaken : (behind ++ [x]).flatMap m₀.refs = behind.flatMap m₀.refs ++ m₀.refs x := by
      rw [List.flatMap_append, List.flatMap_cons, List.flatMap_nil, List.append_nil]
    rw [← htaken] at hdecref'
    have hsplit' : m₀.gcObjList = behind ++ [x] ++ rest := by
      rw [← hsplit, List.append_cons]
    have hlist := hdecref'.gcObjList
    rw [hsplit', List.filter_append] at hlist
    -- What is ahead was not visited, and is still in the list.
    have hrest : rest.filter (fun p => decide
        (¬ Spent m₀ (behind ++ [x]) ((behind ++ [x]).flatMap m₀.refs) p)) = rest := by
      refine List.filter_eq_self.mpr fun y hy => decide_eq_true fun hspent => ?_
      exact hapart y hspent.1 y hy rfl
    rw [hrest] at hlist
    refine ⟨m', hvisit, hdecref', _, hlist, fun y hy hkept => ?_⟩
    exact hapart y (List.mem_of_mem_filter hkept) y hy rfl
  unfold gcDecref
  refine Traversal.exists_forEachSafe (s := { m₀ with tmpObjList := [] })
    (fun behind m => Decref m₀ behind (behind.flatMap m₀.refs) m)
    (fun behind x rest m hsplit hdecref _ => hbody behind x rest m hsplit hdecref)
    hlisted.decref ?_
  unfold size
  dsimp only
  omega

/-! ## The second pass -/

variable {restored : List ℕ}

/-- What the first pass leaves of a count. -/
def left (m₀ : Memory) (p : ℕ) : ℤ := max (m₀.refCount p - m₀.indegree p) 0

theorem left_nonneg (m₀ : Memory) (p : ℕ) : 0 ≤ left m₀ p := by
  unfold left
  omega

/-- In the second pass, with what was visited, and the references that were put back. -/
structure Scan (m₀ : Memory) (visited restored : List ℕ) (m : Memory) : Prop where
  header : ∀ p h, p ∈ m₀.gcObjList → m₀.header p = some h →
    ∃ mark, m.header p = some ⟨left m₀ p + restored.count p, mark, h.contents⟩ ∧
      (p ∈ visited → mark = false) ∧ (p ∈ m.tmpObjList → mark = true)
  outside : ∀ p, p ∉ m₀.gcObjList → m.header p = m₀.header p
  gcNodup : m.gcObjList.Nodup
  gcObjList : ∀ p, p ∈ m.gcObjList ↔ p ∈ m₀.gcObjList ∧ 0 < left m₀ p + restored.count p
  tmpNodup : m.tmpObjList.Nodup
  tmpObjList : ∀ p, p ∈ m.tmpObjList ↔ p ∈ m₀.gcObjList ∧ left m₀ p + restored.count p = 0
  live : ∀ p ∈ m.gcObjList, m₀.Live p
  zero : m.gcZeroRefCountList = []
  phase : m.gcPhase = m₀.gcPhase

/-- Nothing is in both lists. -/
theorem Scan.disjoint (hscan : Scan m₀ visited restored m) {p : ℕ} (hp : p ∈ m.gcObjList) :
    p ∉ m.tmpObjList := by
  intro htmp
  have hpos := ((hscan.gcObjList p).mp hp).2
  have hnone := ((hscan.tmpObjList p).mp htmp).2
  omega

/-- A reference is put back. -/
theorem Scan.child (hlisted : m₀.Listed) (hscan : Scan m₀ visited restored m) {child : Child}
    (hchild : m₀.Live child.ref) :
    ∃ m' more, gcScanIncrefChild m child = some m' ∧
      Scan m₀ visited (restored ++ [child.ref]) m' ∧ m'.gcObjList = m.gcObjList ++ more := by
  have hmem := hlisted.live_mem hchild
  rcases hlisted.header _ hmem with ⟨h, hp, -, -⟩
  rcases hscan.header _ h hmem hp with ⟨mark, hheader, hvisited, htmp⟩
  have hself : (restored ++ [child.ref]).count child.ref = restored.count child.ref + 1 := by
    rw [List.count_append, List.count_singleton_self]
  have hother {p : ℕ} (hne : p ≠ child.ref) :
      (restored ++ [child.ref]).count p = restored.count p := by
    rw [List.count_append, List.count_singleton, if_neg (by simpa using hne.symm), Nat.add_zero]
  have hcount : left m₀ child.ref + ((restored ++ [child.ref]).count child.ref : ℕ)
      = left m₀ child.ref + restored.count child.ref + 1 := by
    rw [hself]
    push_cast
    omega
  have hpos := left_nonneg m₀ child.ref
  have houtside (p : ℕ) (hp' : p ∉ m₀.gcObjList) (x : Option JSGCObjectHeader) :
      Function.update m.header child.ref x p = m₀.header p := by
    have hne : p ≠ child.ref := by
      rintro rfl
      exact hp' hmem
    rw [Function.update_of_ne hne, hscan.outside p hp']
  unfold gcScanIncrefChild
  rw [hheader, Option.bind_eq_bind, Option.bind_some]
  dsimp only
  by_cases hzero : left m₀ child.ref + restored.count child.ref + 1 = 1
  · -- It had none, so it is reached for the first time.
    rw [if_pos hzero]
    have hin : child.ref ∈ m.tmpObjList := (hscan.tmpObjList _).mpr ⟨hmem, by omega⟩
    have hout : child.ref ∉ m.gcObjList := fun hgc => hscan.disjoint hgc hin
    have hgcList : ((m.put child.ref ⟨left m₀ child.ref + restored.count child.ref + 1, false,
        h.contents⟩).moveToGc child.ref).gcObjList = m.gcObjList ++ [child.ref] := by
      show m.gcObjList.erase child.ref ++ [child.ref] = _
      rw [List.erase_of_not_mem hout]
    refine ⟨_, [child.ref], rfl, ?_, hgcList⟩
    exact
      { header := fun p h' hmem' hp' => by
          by_cases hne : p = child.ref
          · subst hne
            rw [hp] at hp'
            cases hp'
            refine ⟨false, ?_, fun _ => rfl, fun hin' => ?_⟩
            · rw [hcount]
              exact Function.update_self ..
            · exact absurd hin' (hscan.tmpNodup.not_mem_erase)
          · rcases hscan.header p h' hmem' hp' with ⟨mark', hheader', hvisited', htmp'⟩
            refine ⟨mark', ?_, hvisited', fun hin' => htmp' (List.mem_of_mem_erase hin')⟩
            rw [hother hne]
            exact (Function.update_of_ne hne _ _).trans hheader'
        outside := fun p hp' => houtside p hp' _
        gcNodup := by
          rw [hgcList]
          exact nodup_snoc hscan.gcNodup hout
        gcObjList := fun p => by
          rw [hgcList, List.mem_append, List.mem_singleton, hscan.gcObjList]
          by_cases hne : p = child.ref
          · subst hne
            exact iff_of_true (Or.inr rfl) ⟨hmem, by omega⟩
          · rw [hother hne]
            exact or_iff_left hne
        tmpNodup := hscan.tmpNodup.erase _
        tmpObjList := fun p => by
          show p ∈ m.tmpObjList.erase child.ref ↔ _
          rw [hscan.tmpNodup.mem_erase_iff, hscan.tmpObjList]
          by_cases hne : p = child.ref
          · subst hne
            refine iff_of_false (fun hboth => hboth.1 rfl) ?_
            rintro ⟨-, hnone⟩
            omega
          · rw [hother hne]
            exact and_iff_right hne
        live := fun p hgc => by
          rw [hgcList, List.mem_append, List.mem_singleton] at hgc
          rcases hgc with hgc | rfl
          · exact hscan.live p hgc
          · exact hchild
        zero := by
          show m.gcZeroRefCountList.erase child.ref = []
          rw [hscan.zero]
          rfl
        phase := hscan.phase }
  · -- It was reached before, and stays where it is.
    rw [if_neg hzero]
    have hsame (p : ℕ) : 0 < left m₀ p + ((restored ++ [child.ref]).count p : ℕ) ↔
        0 < left m₀ p + restored.count p := by
      by_cases hne : p = child.ref
      · subst hne
        omega
      · rw [hother hne]
    have hsame' (p : ℕ) : left m₀ p + ((restored ++ [child.ref]).count p : ℕ) = 0 ↔
        left m₀ p + restored.count p = 0 := by
      by_cases hne : p = child.ref
      · subst hne
        omega
      · rw [hother hne]
    refine ⟨_, [], rfl, ?_, (List.append_nil _).symm⟩
    exact
      { header := fun p h' hmem' hp' => by
          by_cases hne : p = child.ref
          · subst hne
            rw [hp] at hp'
            cases hp'
            refine ⟨mark, ?_, hvisited, htmp⟩
            rw [hcount]
            exact Function.update_self ..
          · rcases hscan.header p h' hmem' hp' with ⟨mark', hheader', hrest⟩
            refine ⟨mark', ?_, hrest⟩
            rw [hother hne]
            exact (Function.update_of_ne hne _ _).trans hheader'
        outside := fun p hp' => houtside p hp' _
        gcNodup := hscan.gcNodup
        gcObjList := fun p => by
          rw [hsame]
          exact hscan.gcObjList p
        tmpNodup := hscan.tmpNodup
        tmpObjList := fun p => by
          rw [hsame']
          exact hscan.tmpObjList p
        live := hscan.live
        zero := hscan.zero
        phase := hscan.phase }

/-- The references of one thing are put back. -/
theorem Scan.children (hlisted : m₀.Listed) (hscan : Scan m₀ visited restored m)
    {children : List Child} (hchildren : ∀ child ∈ children, m₀.Live child.ref) :
    ∃ m' more, children.foldlM gcScanIncrefChild m = some m' ∧
      Scan m₀ visited (restored ++ children.map Child.ref) m' ∧
      m'.gcObjList = m.gcObjList ++ more := by
  induction children generalizing m restored with
  | nil =>
      refine ⟨m, [], rfl, ?_, (List.append_nil _).symm⟩
      rwa [List.map_nil, List.append_nil]
  | cons child children ih =>
      rcases hscan.child hlisted (hchildren child List.mem_cons_self)
        with ⟨m₁, more₁, hfirst, hscan₁, hmore₁⟩
      rcases ih hscan₁ fun child' hmem => hchildren child' (List.mem_cons_of_mem _ hmem)
        with ⟨m', more, hrest, hscan', hmore⟩
      refine ⟨m', more₁ ++ more, ?_, ?_, ?_⟩
      · rw [List.foldlM_cons, hfirst]
        exact hrest
      · rwa [List.map_cons, List.append_cons]
      · rw [hmore, hmore₁, List.append_assoc]

/-- Something that is listed is visited. -/
theorem Scan.visit (hlisted : m₀.Listed) (hscan : Scan m₀ visited restored m) {el : ℕ}
    (hel : el ∈ m.gcObjList) :
    ∃ m' more, gcScanVisit el m = some m' ∧
      Scan m₀ (visited ++ [el]) (restored ++ m₀.refs el) m' ∧
      m'.gcObjList = m.gcObjList ++ more := by
  rcases (hscan.gcObjList el).mp hel with ⟨hmem, hpos⟩
  rcases hlisted.header el hmem with ⟨h, hp, -, -⟩
  rcases hscan.header el h hmem hp with ⟨mark, hheader, -, -⟩
  have hmarked : Scan m₀ (visited ++ [el]) restored
      (m.put el ⟨left m₀ el + restored.count el, false, h.contents⟩) :=
    { header := fun p h' hmem' hp' => by
        by_cases hne : p = el
        · subst hne
          rw [hp] at hp'
          cases hp'
          exact ⟨false, Function.update_self .., fun _ => rfl, fun hin =>
            absurd hin (hscan.disjoint hel)⟩
        · rcases hscan.header p h' hmem' hp' with ⟨mark', hheader', hvisited', htmp'⟩
          refine ⟨mark', (Function.update_of_ne hne _ _).trans hheader', fun hin => ?_, htmp'⟩
          rw [List.mem_append, List.mem_singleton] at hin
          exact hvisited' (hin.resolve_right hne)
      outside := fun p hp' => by
        have hne : p ≠ el := by
          rintro rfl
          exact hp' hmem
        exact (Function.update_of_ne hne _ _).trans (hscan.outside p hp')
      gcNodup := hscan.gcNodup
      gcObjList := hscan.gcObjList
      tmpNodup := hscan.tmpNodup
      tmpObjList := hscan.tmpObjList
      live := hscan.live
      zero := hscan.zero
      phase := hscan.phase }
  have hchildren (child : Child) (hmem' : child ∈ h.contents.children) : m₀.Live child.ref := by
    refine (hscan.live el hel).step ?_
    rw [refs_eq hp]
    exact List.mem_map_of_mem hmem'
  rcases hmarked.children hlisted hchildren with ⟨m', more, hfold, hscan', hmore⟩
  rw [← refs_eq hp] at hscan'
  refine ⟨m', more, ?_, hscan', hmore⟩
  unfold gcScanVisit
  rw [hheader, Option.bind_eq_bind, Option.bind_some, guard_bind hpos]
  exact hfold

/-- What the first pass leaves is where the second begins. -/
theorem Decref.scan (hlisted : m₀.Listed)
    (hdecref : Decref m₀ m₀.gcObjList (m₀.gcObjList.flatMap m₀.refs) m) : Scan m₀ [] [] m where
  header p h hmem hp := by
    refine ⟨true, ?_, fun hnil => absurd hnil List.not_mem_nil, fun _ => rfl⟩
    rw [hdecref.header p h hmem hp, decide_eq_true hmem]
    unfold left indegree
    rw [refCount_eq hp, List.count_nil]
    congr 2
    omega
  outside := hdecref.outside
  gcNodup := by
    rw [hdecref.gcObjList]
    exact hlisted.nodup.filter _
  gcObjList p := by
    rw [hdecref.gcObjList, List.mem_filter, decide_eq_true_iff, List.count_nil]
    refine and_congr_right fun hmem => ?_
    unfold Spent left indegree
    rw [and_iff_right hmem]
    omega
  tmpNodup := hdecref.tmpNodup
  tmpObjList p := by
    rw [hdecref.tmpObjList, List.count_nil]
    refine and_congr_right fun hmem => ?_
    unfold Spent left indegree
    rw [and_iff_right hmem]
    omega
  live p hp := by
    rw [hdecref.gcObjList, List.mem_filter, decide_eq_true_iff] at hp
    refine .held hp.1 ?_
    unfold Held indegree
    have hunspent := hp.2
    unfold Spent at hunspent
    rw [and_iff_right hp.1] at hunspent
    omega
  zero := hdecref.zero
  phase := hdecref.phase

/-- Everything that was listed is in one of the two lists. -/
theorem Scan.perm (hlisted : m₀.Listed) (hscan : Scan m₀ visited restored m) :
    (m.gcObjList ++ m.tmpObjList).Perm m₀.gcObjList := by
  have hnodup : (m.gcObjList ++ m.tmpObjList).Nodup := by
    refine List.nodup_append.mpr ⟨hscan.gcNodup, hscan.tmpNodup, ?_⟩
    rintro p hgc q htmp rfl
    exact hscan.disjoint hgc htmp
  refine (List.perm_ext_iff_of_nodup hnodup hlisted.nodup).mpr fun p => ?_
  rw [List.mem_append, hscan.gcObjList, hscan.tmpObjList, ← and_or_left]
  refine and_iff_left ?_
  have hpos := left_nonneg m₀ p
  omega

theorem Scan.length (hlisted : m₀.Listed) (hscan : Scan m₀ visited restored m) :
    m.gcObjList.length + m.tmpObjList.length = m₀.gcObjList.length := by
  rw [← List.length_append]
  exact (hscan.perm hlisted).length_eq

/-- The first loop of the second pass visits what it lists, and it lists what is live. -/
theorem exists_gcScan_loop (hlisted : m₀.Listed) (hscan : Scan m₀ [] [] m) :
    ∃ m', Traversal.forEach gcObjList gcScanVisit m.size m.gcObjList.head? m = some m' ∧
      Scan m₀ m'.gcObjList (m'.gcObjList.flatMap m₀.refs) m' := by
  -- The list grows at its end, by what is reached for the first time.
  have hbody (behind : List ℕ) (x : ℕ) (rest : List ℕ) (m : Memory)
      (hscan : Scan m₀ behind (behind.flatMap m₀.refs) m)
      (hlist : m.gcObjList = behind ++ x :: rest) :
      ∃ m' more, gcScanVisit x m = some m' ∧
        Scan m₀ (behind ++ [x]) ((behind ++ [x]).flatMap m₀.refs) m' ∧
        m'.gcObjList = behind ++ x :: rest ++ more := by
    have hx : x ∈ m.gcObjList := by
      rw [hlist]
      exact List.mem_append_right _ List.mem_cons_self
    rcases hscan.visit hlisted hx with ⟨m', more, hvisit, hscan', hmore⟩
    refine ⟨m', more, hvisit, ?_, by rw [hmore, hlist]⟩
    rwa [List.flatMap_append, List.flatMap_cons, List.flatMap_nil, List.append_nil]
  refine Traversal.exists_forEach (fun behind m => Scan m₀ behind (behind.flatMap m₀.refs) m)
    m₀.gcObjList.length (fun behind m hscan => ?_) hbody hscan ?_
  · have hlength := hscan.length hlisted
    exact ⟨hscan.gcNodup, by omega⟩
  · have hlength := hscan.length hlisted
    unfold size
    omega

/-- What is listed then is what is live. -/
theorem Scan.gcObjList_iff_live (hlisted : m₀.Listed)
    (hscan : Scan m₀ m.gcObjList (m.gcObjList.flatMap m₀.refs) m) (p : ℕ) :
    p ∈ m.gcObjList ↔ m₀.Live p := by
  refine ⟨hscan.live p, fun hp => ?_⟩
  induction hp with
  | @held p hmem hheld =>
      refine (hscan.gcObjList p).mpr ⟨hmem, ?_⟩
      unfold Held at hheld
      unfold left
      omega
  | @step p q hp hq ih =>
      -- A reference to it was put back.
      have hcount : 0 < (m.gcObjList.flatMap m₀.refs).count q :=
        List.count_pos_iff.mpr (List.mem_flatMap.mpr ⟨p, ih, hq⟩)
      have hpos := left_nonneg m₀ q
      exact (hscan.gcObjList q).mpr ⟨hlisted.live_mem (hp.step hq), by omega⟩

/-- What the two passes leave. What was not reached is to be freed, and the counts are as they
    were, unless they were lower than the number of references. -/
structure Marked (m₀ m : Memory) : Prop where
  header : ∀ p h, p ∈ m₀.gcObjList → m₀.header p = some h → m.header p = some
    { h with refCount := max h.refCount (m₀.indegree p), mark := decide (p ∈ m.tmpObjList) }
  outside : ∀ p, p ∉ m₀.gcObjList → m.header p = m₀.header p
  gcNodup : m.gcObjList.Nodup
  gcObjList : ∀ p, p ∈ m.gcObjList ↔ m₀.Live p
  tmpNodup : m.tmpObjList.Nodup
  tmpObjList : ∀ p, p ∈ m.tmpObjList ↔ p ∈ m₀.gcObjList ∧ ¬ m₀.Live p
  zero : m.gcZeroRefCountList = []
  phase : m.gcPhase = m₀.gcPhase

/-- In the second loop of the second pass. -/
structure Restore (m₀ m₁ : Memory) (restored : List ℕ) (m : Memory) : Prop where
  header : ∀ p h, p ∈ m₀.gcObjList → m₀.header p = some h →
    m.header p = some ⟨left m₀ p + restored.count p, decide (p ∈ m₁.tmpObjList), h.contents⟩
  outside : ∀ p, p ∉ m₀.gcObjList → m.header p = m₀.header p
  gcObjList : m.gcObjList = m₁.gcObjList
  tmpObjList : m.tmpObjList = m₁.tmpObjList
  zero : m.gcZeroRefCountList = []
  phase : m.gcPhase = m₀.gcPhase

variable {m₁ : Memory}

theorem Restore.child (hlisted : m₀.Listed) (hrestore : Restore m₀ m₁ restored m) {child : Child}
    (hchild : child.ref ∈ m₀.gcObjList) :
    ∃ m', gcScanIncrefChild2 m child = some m' ∧
      Restore m₀ m₁ (restored ++ [child.ref]) m' := by
  rcases hlisted.header _ hchild with ⟨h, hp, -, -⟩
  unfold gcScanIncrefChild2
  rw [hrestore.header _ h hchild hp]
  refine ⟨_, rfl, { hrestore with header := fun p h' hmem hp' => ?_, outside := fun p hmem => ?_ }⟩
  · by_cases hne : p = child.ref
    · subst hne
      rw [hp] at hp'
      cases hp'
      refine (Function.update_self ..).trans ?_
      rw [List.count_append, List.count_singleton_self]
      congr 2
      push_cast
      omega
    · refine (Function.update_of_ne hne _ _).trans ?_
      rw [hrestore.header p h' hmem hp', List.count_append, List.count_singleton,
        if_neg (by simpa using Ne.symm hne), Nat.add_zero]
  · have hne : p ≠ child.ref := by
      rintro rfl
      exact hmem hchild
    exact (Function.update_of_ne hne _ _).trans (hrestore.outside p hmem)

theorem Restore.visit (hlisted : m₀.Listed) (hrestore : Restore m₀ m₁ restored m) {el : ℕ}
    (hel : el ∈ m₀.gcObjList) :
    ∃ m', gcRestoreVisit el m = some m' ∧ Restore m₀ m₁ (restored ++ m₀.refs el) m' := by
  rcases hlisted.header el hel with ⟨h, hp, -, -⟩
  have hchildren (child : Child) (hmem : child ∈ h.contents.children) :
      child.ref ∈ m₀.gcObjList := by
    refine hlisted.refs el hel _ ?_
    rw [refs_eq hp]
    exact List.mem_map_of_mem hmem
  unfold gcRestoreVisit
  rw [hrestore.header el h hel hp, Option.bind_eq_bind, Option.bind_some, refs_eq hp]
  dsimp only
  clear hp
  generalize h.contents.children = children at hchildren
  induction children generalizing m restored with
  | nil =>
      refine ⟨m, rfl, ?_⟩
      rwa [List.map_nil, List.append_nil]
  | cons child children ih =>
      rcases hrestore.child hlisted (hchildren child List.mem_cons_self)
        with ⟨m₂, hfirst, hrestore₂⟩
      rcases ih hrestore₂ fun child' hmem => hchildren child' (List.mem_cons_of_mem _ hmem)
        with ⟨m', hrest, hrestore'⟩
      refine ⟨m', ?_, ?_⟩
      · rw [List.foldlM_cons, hfirst]
        exact hrest
      · rwa [List.map_cons, List.append_cons]

/-- Where the second loop begins. -/
theorem Scan.restore (hscan : Scan m₀ m.gcObjList (m.gcObjList.flatMap m₀.refs) m)
    (hlisted : m₀.Listed) : Restore m₀ m (m.gcObjList.flatMap m₀.refs) m where
  header p h hmem hp := by
    rcases hscan.header p h hmem hp with ⟨mark, hheader, hvisited, htmp⟩
    rw [hheader]
    congr 2
    by_cases hin : p ∈ m.tmpObjList
    · rw [decide_eq_true hin]
      exact htmp hin
    · rw [decide_eq_false hin]
      have hboth := (hscan.perm hlisted).mem_iff.mpr hmem
      rw [List.mem_append] at hboth
      exact hvisited (hboth.resolve_right hin)
  outside := hscan.outside
  gcObjList := rfl
  tmpObjList := rfl
  zero := hscan.zero
  phase := hscan.phase

/-- The first two passes of the collector. -/
theorem exists_marked (hlisted : m₀.Listed) :
    ∃ m₁ m, m₀.gcDecref = some m₁ ∧ m₁.gcScan = some m ∧ Marked m₀ m := by
  rcases exists_gcDecref hlisted with ⟨m₁, hfirst, hdecref⟩
  rcases exists_gcScan_loop hlisted (hdecref.scan hlisted) with ⟨m₂, hloop, hscan⟩
  -- The last loop changes counts only, so neither list grows.
  have hbody (behind : List ℕ) (x : ℕ) (rest : List ℕ) (m : Memory)
      (hrestore : Restore m₀ m₂ ((m₂.gcObjList ++ behind).flatMap m₀.refs) m)
      (hlist : m.tmpObjList = behind ++ x :: rest) :
      ∃ m' more, gcRestoreVisit x m = some m' ∧
        Restore m₀ m₂ ((m₂.gcObjList ++ (behind ++ [x])).flatMap m₀.refs) m' ∧
        m'.tmpObjList = behind ++ x :: rest ++ more := by
    have hx : x ∈ m₂.tmpObjList := by
      rw [← hrestore.tmpObjList, hlist]
      exact List.mem_append_right _ List.mem_cons_self
    rcases hrestore.visit hlisted ((hscan.tmpObjList x).mp hx).1 with ⟨m', hvisit, hrestore'⟩
    refine ⟨m', [], hvisit, ?_, ?_⟩
    · rwa [← List.append_assoc, List.flatMap_append, List.flatMap_cons, List.flatMap_nil,
        List.append_nil]
    · rw [List.append_nil, hrestore'.tmpObjList, ← hrestore.tmpObjList, hlist]
  have hstart := hscan.restore hlisted
  rw [← List.append_nil m₂.gcObjList] at hstart
  have hsize : m₂.tmpObjList.length ≤ m₂.size := Nat.le_add_left _ _
  have hnodup (behind : List ℕ) (m : Memory)
      (hrestore : Restore m₀ m₂ ((m₂.gcObjList ++ behind).flatMap m₀.refs) m) :
      m.tmpObjList.Nodup ∧ m.tmpObjList.length ≤ m₂.tmpObjList.length := by
    rw [hrestore.tmpObjList]
    exact ⟨hscan.tmpNodup, Nat.le_refl _⟩
  rcases Traversal.exists_forEach
      (fun behind m => Restore m₀ m₂ ((m₂.gcObjList ++ behind).flatMap m₀.refs) m)
      m₂.tmpObjList.length hnodup hbody hstart hsize
    with ⟨m, hrest, hrestore⟩
  refine ⟨m₁, m, hfirst, ?_, ?_⟩
  · unfold gcScan
    rw [hloop]
    exact hrest
  · rw [hrestore.tmpObjList] at hrestore
    refine
      { header := fun p h hmem hp => ?_
        outside := hrestore.outside
        gcNodup := by
          rw [hrestore.gcObjList]
          exact hscan.gcNodup
        gcObjList := fun p => by
          rw [hrestore.gcObjList]
          exact hscan.gcObjList_iff_live hlisted p
        tmpNodup := by
          rw [hrestore.tmpObjList]
          exact hscan.tmpNodup
        tmpObjList := fun p => ?_
        zero := hrestore.zero
        phase := hrestore.phase }
    · -- All references are put back.
      have hcount : ((m₂.gcObjList ++ m₂.tmpObjList).flatMap m₀.refs).count p = m₀.indegree p :=
        ((hscan.perm hlisted).flatMap_right m₀.refs).count_eq p
      rw [hrestore.header p h hmem hp, hcount, hrestore.tmpObjList]
      unfold left
      rw [refCount_eq hp]
      congr 2
      omega
    · rw [hrestore.tmpObjList, ← hscan.gcObjList_iff_live hlisted]
      refine ⟨fun hin => ⟨((hscan.tmpObjList p).mp hin).1, fun hgc => hscan.disjoint hgc hin⟩, ?_⟩
      rintro ⟨hmem, hgc⟩
      have hboth := (hscan.perm hlisted).mem_iff.mpr hmem
      rw [List.mem_append] at hboth
      exact hboth.resolve_left hgc

end Memory

end Substrata
