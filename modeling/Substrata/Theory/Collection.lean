import Substrata.Theory.Reclaim

/-!
# What the collector frees

`JS_RunGC` frees what cannot be reached from outside of the memory, and nothing else. The last
pass takes the cycles apart one object after the other. What still has references from the rest
of its cycle is kept as an empty shell; what is not a JS value goes when the last reference to it
is given up. When everything condemned was visited, only shells are left of it, and nothing
refers to them.

## Main definitions

* `Memory.Accounted`: Every count is right, and no pass is under way.
* `Memory.Reached`: What can be reached from outside.
* `Memory.Clearing`: What holds while cycles are taken apart.

## Theorems

* `live_iff_reached`: Where counts are right, what is held from outside is what keeps a count.
* `exists_gcFreeCyclesLoop`: Everything condemned is visited.
* `Clearing.shell`: What is left of it.
* `exists_jsRunGC`: The collector frees what cannot be reached.
* `condemned_iff_unreached`: What it condemns where references were given up too often.
-/

namespace Substrata

namespace Memory

variable {held : ℕ → ℕ} {m₀ m m' : Memory} {p : ℕ} {h : JSGCObjectHeader}

/-! ## Right counts -/

/-- Every count is the number of references, and no pass is under way. -/
structure Accounted (held : ℕ → ℕ) (m : Memory) : Prop where
  settled : Settled .none held [] [] m
  tmpObjList : m.tmpObjList = []
  unmarked : ∀ p h, m.header p = some h → h.mark = false

/-- What can be reached from outside. -/
inductive Reached (held : ℕ → ℕ) (m : Memory) : ℕ → Prop
  | held {p : ℕ} (hp : 0 < held p) : Reached held m p
  | step {p q : ℕ} (hp : Reached held m p) (hq : q ∈ m.refs p) : Reached held m q

/-- Where nothing is held, nothing can be reached. -/
theorem not_reached_of_held (hnone : ∀ q, held q = 0) (p : ℕ) : ¬ Reached held m p := by
  intro hp
  induction hp with
  | held hpos => exact absurd hpos (by rw [hnone]; exact Nat.lt_irrefl 0)
  | step _ _ ih => exact ih

theorem Accounted.zero (haccounted : Accounted held m) : m.gcZeroRefCountList = [] :=
  (haccounted.settled.idle rfl).1

theorem Accounted.listed (haccounted : Accounted held m) : m.listed = m.gcObjList := by
  unfold Memory.listed
  rw [haccounted.zero, haccounted.tmpObjList, List.append_nil, List.append_nil]

theorem Accounted.mem (haccounted : Accounted held m) (p : ℕ) :
    p ∈ m.gcObjList ↔ ∃ h, m.header p = some h := by
  rw [← haccounted.listed]
  exact haccounted.settled.balanced.mem p

theorem filter_not_mem_nil (l : List ℕ) : l.filter (· ∉ ([] : List ℕ)) = l :=
  List.filter_eq_self.mpr fun _ _ => decide_eq_true List.not_mem_nil

/-- With nothing being freed and nothing to give up, what is owed is what is in the memory. -/
theorem owed_nil (m : Memory) (p : ℕ) : owed [] [] m p = (m.listed.flatMap m.refs).count p := by
  unfold owed
  rw [filter_not_mem_nil, List.map_nil, List.append_nil]

/-- The counts are right if they are for everything that has a header. -/
theorem accounted_of_counts (hphase : m.gcPhase = .none) (hzero : m.gcZeroRefCountList = [])
    (htmp : m.tmpObjList = []) (hnodup : m.gcObjList.Nodup)
    (hmem : ∀ p, p ∈ m.gcObjList ↔ ∃ h, m.header p = some h)
    (hheader : ∀ p h, m.header p = some h → h.mark = false ∧ 0 < h.refCount ∧
      h.refCount = (held p + m.indegree p : ℕ) ∧ ∀ child ∈ h.contents.children, m.Fits child)
    (hheld : ∀ p, 0 < held p → ∃ h, m.header p = some h) : Accounted held m := by
  have hlist : m.listed = m.gcObjList := by
    unfold listed
    rw [hzero, htmp, List.append_nil, List.append_nil]
  exact
    { tmpObjList := htmp
      unmarked := fun p h hp => (hheader p h hp).1
      settled :=
        { balanced :=
            { nodup := hlist ▸ hnodup
              mem := fun p => hlist ▸ hmem p
              count := fun p h hp => by
                rw [owed_nil, hlist]
                exact (hheader p h hp).2.2.1
              fits := fun p h hp _ => (hheader p h hp).2.2.2
              pendingFits := fun child hchild => by cases hchild
              heldAlive := hheld
              dyingAlive := fun p hp => by cases hp }
          tidy :=
            { counted := fun p h hp _ _ => (hheader p h hp).2.1
              dead := fun p h hdying => by cases hdying
              waiting := fun _ p => by
                rw [hzero]
                refine iff_of_false List.not_mem_nil ?_
                rintro ⟨h, hp, -, hnone⟩
                have hpos := (hheader p h hp).2.1
                omega }
          gcPhase := hphase
          idle := fun _ => ⟨hzero, fun q hq => by cases hq⟩ } }

theorem Accounted.count (haccounted : Accounted held m) (hp : m.header p = some h) :
    h.refCount = (held p + m.indegree p : ℕ) := by
  rw [haccounted.settled.balanced.count p h hp, owed_nil, haccounted.listed]
  rfl

/-- References are to what has a header, and something of the right type. -/
theorem Accounted.fits (haccounted : Accounted held m) (hp : m.header p = some h) {child : Child}
    (hchild : child ∈ h.contents.children) : m.Fits child :=
  haccounted.settled.balanced.fits p h hp List.not_mem_nil child hchild

theorem Accounted.alive (haccounted : Accounted held m) {q : ℕ} (hq : q ∈ m.refs p) :
    ∃ h, m.header q = some h := by
  unfold refs at hq
  cases hp : m.header p with
  | none =>
      rw [hp] at hq
      cases hq
  | some h =>
      rw [hp] at hq
      rcases List.mem_map.mp hq with ⟨child, hchild, rfl⟩
      rcases haccounted.fits hp hchild with ⟨h', hp', -⟩
      exact ⟨h', hp'⟩

theorem Accounted.toListed (haccounted : Accounted held m) : m.Listed where
  nodup := by
    rw [← haccounted.listed]
    exact haccounted.settled.balanced.nodup
  zero := haccounted.zero
  header p hp := by
    rcases (haccounted.mem p).mp hp with ⟨h, hp⟩
    exact ⟨h, hp, haccounted.unmarked p h hp, by rw [haccounted.count hp]; omega⟩
  refs p _ q hq := (haccounted.mem q).mpr (haccounted.alive hq)

/-- What can be reached has a header. -/
theorem Accounted.alive_of_reached (haccounted : Accounted held m) (hp : Reached held m p) :
    ∃ h, m.header p = some h := by
  cases hp with
  | held hheld => exact haccounted.settled.balanced.heldAlive p hheld
  | step _ hq => exact haccounted.alive hq

/-- What keeps a count in the first pass is what is held from outside. -/
theorem live_iff_reached (hlisted : ∀ p, 0 < held p → p ∈ m.gcObjList)
    (hheld : ∀ p ∈ m.gcObjList, m.Held p ↔ 0 < held p) (p : ℕ) :
    m.Live p ↔ Reached held m p := by
  constructor
  · intro hlive
    induction hlive with
    | held hmem hp => exact .held ((hheld _ hmem).mp hp)
    | step _ hq ih => exact ih.step hq
  · intro hreached
    induction hreached with
    | held hp => exact .held (hlisted _ hp) ((hheld _ (hlisted _ hp)).mpr hp)
    | step _ hq ih => exact ih.step hq

theorem Accounted.live_iff (haccounted : Accounted held m) (p : ℕ) :
    m.Live p ↔ Reached held m p := by
  refine live_iff_reached (fun q hq => ?_) (fun q hq => ?_) p
  · exact (haccounted.mem q).mpr (haccounted.settled.balanced.heldAlive q hq)
  · rcases (haccounted.mem q).mp hq with ⟨h, hp⟩
    unfold Held
    rw [refCount_eq hp, haccounted.count hp]
    omega

/-! ## Taking cycles apart -/

/-- While cycles are taken apart. What was condemned and visited is empty, or not a JS value. -/
structure Clearing (held : ℕ → ℕ) (m : Memory) : Prop where
  settled : Settled .removeCycles held [] [] m
  shells : ∀ q ∈ m.gcZeroRefCountList, ∀ h, m.header q = some h → h.contents.isValue = true →
    m.refs q = []

/-- What the loop leaves as it is: what was not condemned. -/
structure Spares (m m' : Memory) : Prop where
  header : ∀ q h', q ∉ m.tmpObjList → m'.header q = some h' → ∃ h, m.header q = some h ∧
    h'.contents = h.contents ∧ h'.mark = h.mark
  gcObjList : ∀ q ∈ m'.gcObjList, q ∈ m.gcObjList
  zero : ∀ q ∈ m'.gcZeroRefCountList, q ∈ m.gcZeroRefCountList ∨ q ∈ m.tmpObjList

/-- Something condemned is visited. -/
theorem Clearing.visit (hclearing : Clearing held m) {rest : List ℕ}
    (hlist : m.tmpObjList = p :: rest) :
    ∃ h m₁, m.header p = some h ∧
      (if h.contents.isValue then m.freeGcObject p else some (m.moveToZero p)) = some m₁ ∧
      Clearing held m₁ ∧ Spares m m₁ ∧ m₁.tmpObjList.Sublist rest := by
  have hin : p ∈ m.tmpObjList := hlist ▸ List.mem_cons_self
  have hmem : p ∈ m.listed := List.mem_append_right _ hin
  rcases (hclearing.settled.balanced.mem p).mp hmem with ⟨h, hp⟩
  have herase : m.tmpObjList.erase p = rest := by
    rw [hlist, List.erase_cons_head]
  by_cases hvalue : h.contents.isValue = true
  · rcases exists_freeGcObject (by decide) hclearing.settled hp hvalue List.not_mem_nil
        (fun hdecref => by cases hdecref)
      with ⟨m₁, hfree, hsettled, hfreed⟩
    have hphase := hclearing.settled.gcPhase
    refine ⟨h, m₁, hp, by rw [if_pos hvalue, hfree], ⟨hsettled, fun q hq h₁ hp₁ hvalue₁ => ?_⟩, ?_,
      herase ▸ hfreed.tmpObjList⟩
    · by_cases hne : q = p
      · subst hne
        rcases hfreed.self with hnone | ⟨-, -, hempty⟩
        · rw [hnone] at hp₁
          cases hp₁
        · exact hempty
      · rcases hfreed.header q h₁ hne hp₁ with ⟨h₀, hp₀, hcontents, -⟩
        have hold := (hfreed.zero hphase q hq).resolve_right hne
        have hempty := hclearing.shells q hold h₀ hp₀ (hcontents ▸ hvalue₁)
        rw [refs_eq hp₀] at hempty
        rw [refs_eq hp₁, hcontents, hempty]
    · exact
        { header := fun q h' hq hheader => by
            have hne : q ≠ p := by
              rintro rfl
              exact hq hin
            rcases hfreed.header q h' hne hheader with ⟨h₀, hp₀, hcontents, hmark, -⟩
            exact ⟨h₀, hp₀, hcontents, hmark⟩
          gcObjList := hfreed.gcObjList
          zero := fun q hq => by
            rcases hfreed.zero hphase q hq with hold | rfl
            · exact .inl hold
            · exact .inr hin }
  · refine ⟨h, m.moveToZero p, hp, by rw [if_neg hvalue], ⟨?_, fun q hq h₁ hp₁ hvalue₁ => ?_⟩, ?_,
      ?_⟩
    · exact
        { balanced := hclearing.settled.balanced.relist
            (listed_moveToZero hclearing.settled.balanced.nodup hmem) rfl
          tidy := ⟨hclearing.settled.tidy.counted, hclearing.settled.tidy.dead, fun hphase =>
            absurd hclearing.settled.gcPhase hphase⟩
          gcPhase := hclearing.settled.gcPhase
          idle := fun hnone => by cases hnone }
    · rcases List.mem_append.mp hq with hold | hnew
      · exact hclearing.shells q (List.mem_of_mem_erase hold) h₁ hp₁ hvalue₁
      · rw [List.mem_singleton.mp hnew] at hp₁
        rw [show m.header p = some h₁ from hp₁] at hp
        cases hp
        exact absurd hvalue₁ hvalue
    · exact
        { header := fun q h' _ hheader => ⟨h', hheader, rfl, rfl⟩
          gcObjList := fun q hq => List.mem_of_mem_erase hq
          zero := fun q hq => by
            rcases List.mem_append.mp hq with hold | hnew
            · exact .inl (List.mem_of_mem_erase hold)
            · exact .inr (List.mem_singleton.mp hnew ▸ hin) }
    · show (m.tmpObjList.erase p).Sublist rest
      rw [herase]

/-- Everything condemned is visited. -/
theorem exists_gcFreeCyclesLoop {bound : ℕ} (hclearing : Clearing held m)
    (hbound : m.tmpObjList.length ≤ bound) :
    ∃ m', gcFreeCyclesLoop bound m = some m' ∧ Clearing held m' ∧ m'.tmpObjList = [] ∧
      Spares m m' := by
  induction bound generalizing m with
  | zero =>
      have hempty := List.length_eq_zero_iff.mp (Nat.le_zero.mp hbound)
      refine ⟨m, ?_, hclearing, hempty, fun q h' _ hq => ⟨h', hq, rfl, rfl⟩, fun _ hq => hq,
        fun _ hq => .inl hq⟩
      unfold gcFreeCyclesLoop
      rw [hempty]
  | succ bound ih =>
      cases hlist : m.tmpObjList with
      | nil =>
          refine ⟨m, ?_, hclearing, hlist, fun q h' _ hq => ⟨h', hq, rfl, rfl⟩, fun _ hq => hq,
            fun _ hq => .inl hq⟩
          unfold gcFreeCyclesLoop
          rw [hlist]
      | cons p rest =>
          rcases hclearing.visit hlist with ⟨h, m₁, hp, hvisit, hclearing₁, hspares₁, hsub⟩
          have hlength : m₁.tmpObjList.length ≤ bound := by
            have hle := hsub.length_le
            rw [hlist, List.length_cons] at hbound
            omega
          have hahead (q : ℕ) (hq : q ∈ m₁.tmpObjList) : q ∈ m.tmpObjList := by
            rw [hlist]
            exact List.mem_cons_of_mem _ (hsub.subset hq)
          rcases ih hclearing₁ hlength with ⟨m', hloop, hclearing', hempty, hspares⟩
          refine ⟨m', ?_, hclearing', hempty, ?_⟩
          · unfold gcFreeCyclesLoop
            rw [hlist]
            dsimp only
            rw [hp, Option.bind_eq_bind, Option.bind_some]
            by_cases hvalue : h.contents.isValue = true
            · rw [if_pos hvalue] at hvisit ⊢
              exact Option.bind_eq_some_iff.mpr ⟨m₁, hvisit, hloop⟩
            · rw [if_neg hvalue] at hvisit ⊢
              exact Option.bind_eq_some_iff.mpr ⟨m₁, hvisit, hloop⟩
          · exact
              { header := fun q h' hq hheader => by
                  rcases hspares.header q h' (fun hin => hq (hahead q hin)) hheader
                    with ⟨h₁, hp₁, hcontents₁, hmark₁⟩
                  rcases hspares₁.header q h₁ hq hp₁ with ⟨h₀, hp₀, hcontents, hmark⟩
                  exact ⟨h₀, hp₀, hcontents₁.trans hcontents, hmark₁.trans hmark⟩
                gcObjList := fun q hq => hspares₁.gcObjList q (hspares.gcObjList q hq)
                zero := fun q hq => by
                  rcases hspares.zero q hq with hzero | htmp
                  · exact hspares₁.zero q hzero
                  · exact .inr (hahead q htmp) }

/-- Where the loop ends. What is left of what was condemned are shells without references, and
    nothing refers to them. `live` is what was not condemned. -/
theorem Clearing.shell (hclearing : Clearing held m) (htmp : m.tmpObjList = []) {live : ℕ → Prop}
    (hclosed : ∀ p ∈ m.gcObjList, ∀ q ∈ m.refs p, live q)
    (hdead : ∀ q ∈ m.gcZeroRefCountList, ¬ live q ∧ held q = 0) {q : ℕ}
    (hq : q ∈ m.gcZeroRefCountList) :
    ∃ h, m.header q = some h ∧ h.contents.isValue = true ∧ m.refs q = [] ∧
      ∀ p ∈ m.listed, q ∉ m.refs p := by
  have hbalanced := hclearing.settled.balanced
  have hsplit (p : ℕ) : p ∈ m.listed ↔ p ∈ m.gcObjList ∨ p ∈ m.gcZeroRefCountList := by
    unfold listed
    rw [htmp, List.append_nil, List.mem_append]
  -- What is condemned and not a JS value has a reference from something of that kind.
  have hreferrer (x : ℕ) (h : JSGCObjectHeader) (hx : x ∈ m.gcZeroRefCountList)
      (hp : m.header x = some h) (hnotValue : h.contents.isValue = false) :
      ∃ y ∈ m.gcZeroRefCountList, ∃ h', m.header y = some h' ∧ h'.contents.isValue = false ∧
        ∃ child ∈ h'.contents.children, child.ref = x ∧ child.fits h.contents = true := by
    have hpos := hclearing.settled.tidy.counted x h hp List.not_mem_nil hnotValue
    have hcount := hbalanced.count x h hp
    rw [owed_nil, (hdead x hx).2] at hcount
    have hin : x ∈ m.listed.flatMap m.refs := List.count_pos_iff.mp (by omega)
    rcases List.mem_flatMap.mp hin with ⟨y, hy, hxy⟩
    rcases (hsplit y).mp hy with hgc | hzero
    · exact absurd (hclosed y hgc x hxy) (hdead x hx).1
    · rcases (hbalanced.mem y).mp hy with ⟨h', hp'⟩
      have hxy' := hxy
      rw [refs_eq hp'] at hxy'
      rcases List.mem_map.mp hxy' with ⟨child, hchild, href⟩
      refine ⟨y, hzero, h', hp', ?_, child, hchild, href, ?_⟩
      · rw [← Bool.not_eq_true]
        intro hvalue
        rw [hclearing.shells y hzero h' hp' hvalue] at hxy
        cases hxy
      · rcases hbalanced.fits y h' hp' List.not_mem_nil child hchild with ⟨h₁, hp₁, hfit⟩
        rw [href, hp] at hp₁
        cases hp₁
        exact hfit
  have hvalue (x : ℕ) (h : JSGCObjectHeader) (hx : x ∈ m.gcZeroRefCountList)
      (hp : m.header x = some h) : h.contents.isValue = true := by
    rw [← Bool.not_eq_false]
    intro hnotValue
    rcases hreferrer x h hx hp hnotValue with ⟨y, hy, h₁, hp₁, hnotValue₁, child, hchild, -, hfit⟩
    rcases children_of_not_isValue hnotValue₁ hchild with ⟨ref, rfl⟩ | ⟨hcontext, ref, rfl⟩
    · exact absurd (hnotValue.symm.trans hfit) (by decide)
    · -- Only a context refers to a shape, and only a JS value to a context.
      rcases hreferrer y h₁ hy hp₁ hnotValue₁
        with ⟨z, hz, h₂, hp₂, hnotValue₂, child, hchild₂, -, hfit₂⟩
      rcases children_of_not_isValue hnotValue₂ hchild₂ with ⟨ref', rfl⟩ | ⟨-, ref', rfl⟩
      · exact absurd (hnotValue₁.symm.trans hfit₂) (by decide)
      · have hshape : h₁.contents.isShape = true := hfit₂
        generalize h₁.contents = c at hcontext hshape
        cases c with
        | shape proto => cases hcontext
        | _ => cases hshape
  have hmem : q ∈ m.listed := (hsplit q).mpr (.inr hq)
  rcases (hbalanced.mem q).mp hmem with ⟨h, hp⟩
  refine ⟨h, hp, hvalue q h hq hp, hclearing.shells q hq h hp (hvalue q h hq hp),
    fun p hpmem hrefs => ?_⟩
  rcases (hsplit p).mp hpmem with hgc | hzero
  · exact (hdead q hq).1 (hclosed p hgc q hrefs)
  · rcases (hbalanced.mem p).mp hpmem with ⟨h', hp'⟩
    rw [hclearing.shells p hzero h' hp' (hvalue p h' hzero hp')] at hrefs
    cases hrefs

/-- The memory of the shells is freed. -/
theorem foldlM_gcFreeZombie {zombies : List ℕ} (hnodup : zombies.Nodup)
    (hvalue : ∀ q ∈ zombies, ∃ h, m.header q = some h ∧ h.contents.isValue = true) :
    zombies.foldlM gcFreeZombie m = some
      { m with header := fun q => if q ∈ zombies then none else m.header q } := by
  induction zombies generalizing m with
  | nil =>
      rw [List.foldlM_nil]
      simp only [List.not_mem_nil, if_false]
      rfl
  | cons el rest ih =>
      rcases hvalue el List.mem_cons_self with ⟨h, hp, hisValue⟩
      rcases List.nodup_cons.mp hnodup with ⟨hfresh, hrest⟩
      have hfirst : gcFreeZombie m el = some (m.free el) := by
        unfold gcFreeZombie
        rw [hp, Option.bind_eq_bind, Option.bind_some, guard_bind hisValue]
      have hvalue' (q : ℕ) (hq : q ∈ rest) :
          ∃ h, (m.free el).header q = some h ∧ h.contents.isValue = true := by
        have hne : q ≠ el := by
          rintro rfl
          exact hfresh hq
        rcases hvalue q (List.mem_cons_of_mem _ hq) with ⟨h', hp', hisValue'⟩
        exact ⟨h', (Function.update_of_ne hne _ _).trans hp', hisValue'⟩
      rw [List.foldlM_cons, hfirst, Option.bind_eq_bind, Option.bind_some, ih hrest hvalue']
      unfold free
      congr 2
      funext q
      by_cases hq : q ∈ rest
      · rw [if_pos hq, if_pos (List.mem_cons_of_mem _ hq)]
      · rw [if_neg hq]
        by_cases hne : q = el
        · rw [if_pos (hne ▸ List.mem_cons_self), hne]
          exact Function.update_self ..
        · rw [if_neg (by rw [List.mem_cons, not_or]; exact ⟨hne, hq⟩)]
          exact Function.update_of_ne hne _ _

/-- After the first two passes. -/
theorem Marked.clearing (haccounted : Accounted held m₀) (hmarked : Marked m₀ m) :
    Clearing held { m with gcPhase := .removeCycles } := by
  have hlisted := haccounted.toListed
  have hmem (p : ℕ) : p ∈ m.gcObjList ++ m.tmpObjList ↔ p ∈ m₀.gcObjList := by
    rw [List.mem_append, hmarked.gcObjList, hmarked.tmpObjList]
    by_cases hp : m₀.Live p
    · exact iff_of_true (.inl hp) (hlisted.live_mem hp)
    · rw [or_iff_right hp]
      exact and_iff_left hp
  have hnodup : (m.gcObjList ++ m.tmpObjList).Nodup := by
    refine List.nodup_append.mpr ⟨hmarked.gcNodup, hmarked.tmpNodup, ?_⟩
    rintro p hgc q htmp rfl
    exact ((hmarked.tmpObjList p).mp htmp).2 ((hmarked.gcObjList p).mp hgc)
  have hlist : ({ m with gcPhase := .removeCycles } : Memory).listed
      = m.gcObjList ++ m.tmpObjList := by
    unfold listed
    dsimp only
    rw [hmarked.zero, List.append_nil]
  -- The two passes only divide the list.
  have hperm : ({ m with gcPhase := .removeCycles } : Memory).listed.Perm m₀.listed := by
    rw [hlist, haccounted.listed]
    exact (List.perm_ext_iff_of_nodup hnodup hlisted.nodup).mpr hmem
  -- Only the marks differ.
  have hheader (p : ℕ) (h : JSGCObjectHeader) (hp : m₀.header p = some h) :
      ∃ mark, m.header p = some { h with mark := mark } := by
    have hcount : max h.refCount (m₀.indegree p) = h.refCount := by
      rw [haccounted.count hp]
      omega
    refine ⟨decide (p ∈ m.tmpObjList), ?_⟩
    rw [hmarked.header p h ((haccounted.mem p).mpr ⟨h, hp⟩) hp, hcount]
  have hback (p : ℕ) (h' : JSGCObjectHeader) (hp : m.header p = some h') :
      ∃ h, m₀.header p = some h ∧ h'.contents = h.contents ∧ h'.refCount = h.refCount := by
    cases hp₀ : m₀.header p with
    | none =>
        have hout : p ∉ m₀.gcObjList := fun hin => by
          rcases (haccounted.mem p).mp hin with ⟨h, hp'⟩
          rw [hp₀] at hp'
          cases hp'
        rw [hmarked.outside p hout, hp₀] at hp
        cases hp
    | some h =>
        rcases hheader p h hp₀ with ⟨mark, hmark⟩
        rw [hp] at hmark
        cases hmark
        exact ⟨h, rfl, rfl, rfl⟩
  have hrefs : m.refs = m₀.refs := by
    funext p
    unfold refs
    cases hp₀ : m₀.header p with
    | none =>
        cases hp : m.header p with
        | none => rfl
        | some h' =>
            rcases hback p h' hp with ⟨h, hp', -⟩
            rw [hp₀] at hp'
            cases hp'
    | some h =>
        rcases hheader p h hp₀ with ⟨mark, hmark⟩
        rw [hmark]
  have halive (p : ℕ) : (∃ h, m.header p = some h) ↔ ∃ h, m₀.header p = some h := by
    constructor
    · rintro ⟨h', hp⟩
      rcases hback p h' hp with ⟨h, hp', -⟩
      exact ⟨h, hp'⟩
    · rintro ⟨h, hp⟩
      rcases hheader p h hp with ⟨mark, hmark⟩
      exact ⟨_, hmark⟩
  have hbalanced := haccounted.settled.balanced
  exact
    { settled :=
        { balanced :=
            { nodup := hperm.nodup_iff.mpr hbalanced.nodup
              mem := fun p => (hperm.mem_iff.trans (hbalanced.mem p)).trans (halive p).symm
              count := fun p h' hp => by
                rcases hback p h' hp with ⟨h, hp', -, hcount⟩
                rw [hcount, hbalanced.count p h hp', owed_nil, owed_nil]
                congr 2
                show _ = (_ : List ℕ).count p
                rw [← (hperm.flatMap_right m₀.refs).count_eq p, ← hrefs]
                rfl
              fits := fun p h' hp _ child hchild => by
                rcases hback p h' hp with ⟨h, hp', hcontents, -⟩
                rw [hcontents] at hchild
                rcases haccounted.fits hp' hchild with ⟨h₁, hp₁, hfit⟩
                rcases hheader child.ref h₁ hp₁ with ⟨mark, hmark⟩
                exact ⟨_, hmark, hfit⟩
              pendingFits := fun child hchild => by cases hchild
              heldAlive := fun p hp => (halive p).mpr (hbalanced.heldAlive p hp)
              dyingAlive := fun p hp => by cases hp }
          tidy :=
            { counted := fun p h' hp hdying hnotValue => by
                rcases hback p h' hp with ⟨h, hp', hcontents, hcount⟩
                rw [hcount]
                exact haccounted.settled.tidy.counted p h hp' hdying (hcontents ▸ hnotValue)
              dead := fun p h' hdying => by cases hdying
              waiting := fun hphase => absurd rfl hphase }
          gcPhase := rfl
          idle := fun hnone => by cases hnone }
      shells := fun q hq => by
        rw [show m.gcZeroRefCountList = [] from hmarked.zero] at hq
        cases hq }

/-- What is left after the loop that takes cycles apart: what is live, as it was, and shells. -/
structure Apart (held : ℕ → ℕ) (m₀ m : Memory) : Prop where
  clearing : Clearing held m
  tmpObjList : m.tmpObjList = []
  gcObjList : ∀ p ∈ m.gcObjList, m₀.Live p
  zero : ∀ p ∈ m.gcZeroRefCountList, ¬ m₀.Live p
  header : ∀ p h, m₀.Live p → m.header p = some h → h.mark = false ∧
    ∃ h₀, m₀.header p = some h₀ ∧ h.contents = h₀.contents

/-- The loop, after the first two passes. -/
theorem Marked.exists_apart (haccounted : Accounted held m₀) (hmarked : Marked m₀ m) :
    ∃ m', gcFreeCyclesLoop m.size { m with gcPhase := .removeCycles } = some m' ∧
      Apart held m₀ m' := by
  have hbound : ({ m with gcPhase := .removeCycles } : Memory).tmpObjList.length ≤ m.size :=
    Nat.le_add_left _ _
  rcases exists_gcFreeCyclesLoop (hmarked.clearing haccounted) hbound
    with ⟨m', hloop, hclearing, htmp, hspares⟩
  refine ⟨m', hloop, hclearing, htmp, fun p hp => ?_, fun p hp => ?_, fun p h hlive hp => ?_⟩
  · exact (hmarked.gcObjList p).mp (hspares.gcObjList p hp)
  · rcases hspares.zero p hp with hzero | hcondemned
    · rw [show ({ m with gcPhase := .removeCycles } : Memory).gcZeroRefCountList = [] from
        hmarked.zero] at hzero
      cases hzero
    · exact ((hmarked.tmpObjList p).mp hcondemned).2
  · have hspared : p ∉ m.tmpObjList := fun hin => ((hmarked.tmpObjList p).mp hin).2 hlive
    rcases hspares.header p h hspared hp with ⟨h₁, hp₁, hcontents, hmark⟩
    have hlisted := haccounted.toListed.live_mem hlive
    rcases (haccounted.mem p).mp hlisted with ⟨h₀, hp₀⟩
    have hp₁' := (hmarked.header p h₀ hlisted hp₀).symm.trans hp₁
    cases hp₁'
    exact ⟨hmark.trans (decide_eq_false hspared), h₀, hp₀, hcontents⟩

theorem Apart.refs_eq (hapart : Apart held m₀ m) (hlive : m₀.Live p) (hp : m.header p = some h) :
    m.refs p = m₀.refs p := by
  rcases hapart.header p h hlive hp with ⟨-, h₀, hp₀, hcontents⟩
  rw [Memory.refs_eq hp, Memory.refs_eq hp₀, hcontents]

/-- What is live is still there. -/
theorem Apart.alive (haccounted : Accounted held m₀) (hapart : Apart held m₀ m)
    (hlive : m₀.Live p) : ∃ h, m.header p = some h := by
  have hreached := (haccounted.live_iff p).mp hlive
  clear hlive
  induction hreached with
  | held hp => exact hapart.clearing.settled.balanced.heldAlive _ hp
  | @step p q hp hq ih =>
      rcases ih with ⟨h, hheader⟩
      rw [← hapart.refs_eq ((haccounted.live_iff p).mpr hp) hheader,
        Memory.refs_eq hheader] at hq
      rcases List.mem_map.mp hq with ⟨child, hchild, rfl⟩
      rcases hapart.clearing.settled.balanced.fits p h hheader List.not_mem_nil child hchild
        with ⟨h', hheader', -⟩
      exact ⟨h', hheader'⟩

theorem Apart.shell (haccounted : Accounted held m₀) (hapart : Apart held m₀ m) {q : ℕ}
    (hq : q ∈ m.gcZeroRefCountList) :
    ∃ h, m.header q = some h ∧ h.contents.isValue = true ∧ m.refs q = [] ∧
      ∀ p ∈ m.listed, q ∉ m.refs p := by
  -- What is live refers to what is live, and what is held is live.
  have hclosed (p : ℕ) (hp : p ∈ m.gcObjList) (q : ℕ) (hrefs : q ∈ m.refs p) : m₀.Live q := by
    have hlive := hapart.gcObjList p hp
    rcases hapart.alive haccounted hlive with ⟨h, hheader⟩
    rw [hapart.refs_eq hlive hheader] at hrefs
    exact hlive.step hrefs
  have hdead (p : ℕ) (hp : p ∈ m.gcZeroRefCountList) : ¬ m₀.Live p ∧ held p = 0 := by
    refine ⟨hapart.zero p hp, Nat.eq_zero_of_not_pos fun hheld => hapart.zero p hp ?_⟩
    exact (haccounted.live_iff p).mpr (.held hheld)
  exact hapart.clearing.shell hapart.tmpObjList hclosed hdead hq

/-- The shells are freed as well. -/
def withoutShells (m : Memory) : Memory :=
  { m with
    header := fun q => if q ∈ m.gcZeroRefCountList then none else m.header q
    gcZeroRefCountList := []
    gcPhase := .none }

theorem Apart.run (haccounted : Accounted held m₀) (hapart : Apart held m₀ m) :
    m.gcZeroRefCountList.foldlM gcFreeZombie { m with gcPhase := .none } = some
      { m.withoutShells with gcZeroRefCountList := m.gcZeroRefCountList } := by
  have hnodup : m.gcZeroRefCountList.Nodup :=
    (List.nodup_append.mp (List.nodup_append.mp hapart.clearing.settled.balanced.nodup).1).2.1
  refine foldlM_gcFreeZombie (m := { m with gcPhase := .none }) hnodup fun q hq => ?_
  rcases hapart.shell haccounted hq with ⟨h, hp, hvalue, -⟩
  exact ⟨h, hp, hvalue⟩

/-- What has a header then is live. -/
theorem Apart.header_withoutShells (hapart : Apart held m₀ m)
    (hp : m.withoutShells.header p = some h) : m.header p = some h ∧ p ∈ m.gcObjList := by
  have hp : (if p ∈ m.gcZeroRefCountList then none else m.header p) = some h := hp
  by_cases hin : p ∈ m.gcZeroRefCountList
  · rw [if_pos hin] at hp
    cases hp
  · rw [if_neg hin] at hp
    have hmem := (hapart.clearing.settled.balanced.mem p).mpr ⟨h, hp⟩
    unfold listed at hmem
    rw [hapart.tmpObjList, List.append_nil, List.mem_append] at hmem
    exact ⟨hp, hmem.resolve_right hin⟩

theorem Apart.alive_withoutShells (haccounted : Accounted held m₀) (hapart : Apart held m₀ m)
    (hlive : m₀.Live p) : ∃ h, m.withoutShells.header p = some h := by
  have hkept : p ∉ m.gcZeroRefCountList := fun hin => hapart.zero p hin hlive
  rcases hapart.alive haccounted hlive with ⟨h, hp⟩
  exact ⟨h, (if_neg hkept).trans hp⟩

/-- Nothing was owed to the shells. -/
theorem Apart.owed_eq (haccounted : Accounted held m₀) (hapart : Apart held m₀ m) (p : ℕ) :
    owed [] [] m p = m.withoutShells.indegree p := by
  have hnodup := hapart.clearing.settled.balanced.nodup
  have hlist : m.listed = m.gcObjList ++ m.gcZeroRefCountList := by
    unfold listed
    rw [hapart.tmpObjList, List.append_nil]
  have hshells : m.gcZeroRefCountList.flatMap m.refs = [] := by
    refine List.flatMap_eq_nil_iff.mpr fun q hq => ?_
    rcases hapart.shell haccounted hq with ⟨-, -, -, hempty, -⟩
    exact hempty
  have hkept : m.gcObjList.flatMap m.withoutShells.refs = m.gcObjList.flatMap m.refs := by
    refine List.flatMap_congr fun q hq => ?_
    rw [hlist] at hnodup
    unfold refs withoutShells
    dsimp only
    rw [if_neg fun hin => (List.nodup_append.mp hnodup).2.2 q hq q hin rfl]
  rw [owed_nil, hlist, List.flatMap_append, hshells, List.append_nil, ← hkept]
  rfl

/-- What is left is accounted for. -/
theorem Apart.accounted (haccounted : Accounted held m₀) (hapart : Apart held m₀ m) :
    Accounted held m.withoutShells := by
  have hbalanced := hapart.clearing.settled.balanced
  have hnodup : m.gcObjList.Nodup :=
    (List.nodup_append.mp (List.nodup_append.mp hbalanced.nodup).1).1
  have hheld (p : ℕ) (hp : 0 < held p) : ∃ h, m.withoutShells.header p = some h :=
    hapart.alive_withoutShells haccounted ((haccounted.live_iff p).mpr (.held hp))
  refine accounted_of_counts rfl rfl hapart.tmpObjList hnodup (fun p => ⟨fun hp => ?_, ?_⟩)
    (fun p h hp => ?_) hheld
  · exact hapart.alive_withoutShells haccounted (hapart.gcObjList p hp)
  · rintro ⟨h, hp⟩
    exact (hapart.header_withoutShells hp).2
  · rcases hapart.header_withoutShells hp with ⟨hp', hmem⟩
    have hlive := hapart.gcObjList p hmem
    have hcount := hbalanced.count p h hp'
    rw [hapart.owed_eq haccounted p] at hcount
    refine ⟨(hapart.header p h hlive hp').1, ?_, hcount, fun child hchild => ?_⟩
    · -- What is live is held, or something live refers to it.
      cases (haccounted.live_iff p).mp hlive with
      | held hheld => omega
      | @step r p hr hrefs =>
          have hlive' := (haccounted.live_iff r).mpr hr
          rcases hapart.alive haccounted hlive' with ⟨h', hr'⟩
          rw [← hapart.refs_eq hlive' hr'] at hrefs
          have hin : p ∈ m.listed.flatMap m.refs :=
            List.mem_flatMap.mpr ⟨r, (hbalanced.mem r).mpr ⟨h', hr'⟩, hrefs⟩
          have hpos := List.count_pos_iff.mpr hin
          rw [← owed_nil, hapart.owed_eq haccounted p] at hpos
          omega
    · rcases hbalanced.fits p h hp' List.not_mem_nil child hchild with ⟨h', hchild', hfit⟩
      refine ⟨h', (if_neg fun hin => ?_).trans hchild', hfit⟩
      -- Nothing refers to a shell.
      rcases hapart.shell haccounted hin with ⟨-, -, -, -, hunreferred⟩
      refine hunreferred p ((hbalanced.mem p).mpr ⟨h, hp'⟩) ?_
      rw [Memory.refs_eq hp']
      exact List.mem_map_of_mem hchild

/-- The collector frees what cannot be reached, and leaves the rest as it is. -/
theorem exists_jsRunGC (haccounted : Accounted held m) :
    ∃ m', m.jsRunGC = some m' ∧ Accounted held m' ∧
      (∀ p, (∃ h, m'.header p = some h) ↔ Reached held m p) ∧
      ∀ p h, m'.header p = some h → ∃ h₀, m.header p = some h₀ ∧ h.contents = h₀.contents := by
  rcases exists_marked haccounted.toListed with ⟨m₁, m₂, hdecref, hscan, hmarked⟩
  rcases hmarked.exists_apart haccounted with ⟨m₃, hloop, hapart⟩
  refine ⟨m₃.withoutShells, ?_, hapart.accounted haccounted, fun p => ⟨?_, fun hreached => ?_⟩,
    fun p h hp => ?_⟩
  · -- The three passes, one after the other.
    unfold jsRunGC gcFreeCycles
    simp only [hdecref, hscan, hloop, hapart.run haccounted, Option.bind_eq_bind, Option.bind_some]
    rfl
  · rintro ⟨h, hp⟩
    exact (haccounted.live_iff p).mp (hapart.gcObjList p (hapart.header_withoutShells hp).2)
  · exact hapart.alive_withoutShells haccounted ((haccounted.live_iff p).mpr hreached)
  · rcases hapart.header_withoutShells hp with ⟨hp', hmem⟩
    exact (hapart.header p h (hapart.gcObjList p hmem) hp').2

/-- Where references were given up that nobody held, what is condemned is what cannot be reached
    from the references that are left: something that is still held goes as soon as it was given
    up as often as it is held and only condemned things refer to it. Every count that is too low
    is raised to the number of references in the memory. -/
theorem condemned_iff_unreached {excess : ℕ → ℕ} (hlisted : m.Listed)
    (hcount : ∀ p ∈ m.gcObjList, m.refCount p = (held p + m.indegree p : ℕ) - excess p)
    (hheld : ∀ p, excess p < held p → p ∈ m.gcObjList) :
    ∃ m₁ m₂, m.gcDecref = some m₁ ∧ m₁.gcScan = some m₂ ∧
      (∀ p, p ∈ m₂.tmpObjList ↔
        p ∈ m.gcObjList ∧ ¬ Reached (fun q => held q - excess q) m p) ∧
      ∀ p ∈ m.gcObjList, m₂.refCount p = max (m.refCount p) (m.indegree p) := by
  rcases exists_marked hlisted with ⟨m₁, m₂, hdecref, hscan, hmarked⟩
  -- A count above the number of references in the memory is one that is held and not given up.
  have hlive (p : ℕ) : m.Live p ↔ Reached (fun q => held q - excess q) m p := by
    refine live_iff_reached (fun q hq => hheld q (by omega)) (fun q hq => ?_) p
    unfold Held
    rw [hcount q hq]
    omega
  refine ⟨m₁, m₂, hdecref, hscan, fun p => ?_, fun p hp => ?_⟩
  · rw [hmarked.tmpObjList, hlive]
  · rcases hlisted.header p hp with ⟨h, hheader, -⟩
    rw [refCount_eq (hmarked.header p h hp hheader), refCount_eq hheader]

/-- An object that is held once, and was given up once too often. The reference in its count is
    the one that it has to itself. -/
def overReleased : Memory where
  header := Function.update (fun _ => none) 0 (some ⟨1, false, .jsObject none [.value 0] []⟩)
  gcObjList := [0]

theorem condemned_iff_unreached_overReleased :
    ∃ m₁ m₂, overReleased.gcDecref = some m₁ ∧ m₁.gcScan = some m₂ ∧ 0 ∈ m₂.tmpObjList := by
  have hlisted : overReleased.Listed :=
    { nodup := List.nodup_singleton 0
      zero := rfl
      header := List.forall_mem_singleton.mpr ⟨_, rfl, rfl, by decide⟩
      refs := by decide }
  have hcount : ∀ p ∈ overReleased.gcObjList, overReleased.refCount p =
      ((if p = 0 then 1 else 0) + overReleased.indegree p : ℕ) - (1 : ℕ) := by decide
  have hheld (p : ℕ) : (if p = 0 then 1 else 0) ≤ 1 := by
    split_ifs
    · exact Nat.le_refl 1
    · exact Nat.zero_le 1
  rcases condemned_iff_unreached hlisted hcount
      (fun p hp => absurd hp (Nat.not_lt.mpr (hheld p)))
    with ⟨m₁, m₂, hdecref, hscan, hcondemned, -⟩
  have hunreached : ¬ Reached (fun q => (if q = 0 then 1 else 0) - 1) overReleased 0 :=
    not_reached_of_held (fun q => Nat.sub_eq_zero_of_le (hheld q)) 0
  exact ⟨m₁, m₂, hdecref, hscan, (hcondemned 0).mpr ⟨List.mem_cons_self, hunreached⟩⟩

end Memory

end Substrata
