import TwinHeap.EdgeGraph.Approximate
import TwinHeap.Proofs.EdgeGraph.Edges
import TwinHeap.Proofs.Heap.Cells
import TwinHeap.Proofs.Marking.Drained
import TwinHeap.Proofs.Marking.Filters

/-! The approximate graph misses nothing, whatever the seed of its filters. When the filters have
spread, no object lacks a bit that an object with a reference to it has. -/
namespace TwinHeap

namespace FilterTable

variable {h : Heap} {t : FilterTable} {seed : BloomFilter} {c : Option ObjectClass}

/-- The filter of the target has all bits of the filter of the source. -/
def Passed (h : Heap) (t : FilterTable) (p z : ObjectId) : Prop :=
  h.isAlive p = true → (t.get z.slot).includes (t.get p.slot) = true

theorem visit_eq_merge (seed : BloomFilter) (parent : Option ObjectId) (id : ObjectId)
    (t : FilterTable) : ∃ f, visit seed parent id t = t.merge id.slot f := by
  cases parent with
  | none => exact ⟨_, rfl⟩
  | some p => exact ⟨_, rfl⟩

theorem includes_get_visit (seed : BloomFilter) (parent : Option ObjectId) (id : ObjectId)
    (t : FilterTable) (slot : Nat) :
    ((visit seed parent id t).2.get slot).includes (t.get slot) = true := by
  obtain ⟨f, same⟩ := visit_eq_merge seed parent id t
  rw [same]
  exact includes_get_merge t id.slot slot f

theorem settles_visitor (seed : BloomFilter) : Walk.Settles (visitor h seed) (Passed h) where
  met := fun p z t _ _ => by
    show ((t.merge z.slot (t.get p.slot)).2.get z.slot).includes
      ((t.merge z.slot (t.get p.slot)).2.get p.slot) = true
    rw [get_merge t z.slot p.slot]
    split
    · rw [get_merge, if_pos rfl]
      exact BloomFilter.includes_refl _
    · exact includes_merged t z.slot (t.get p.slot)
  kept := fun parent y t p z alive passed => by
    obtain ⟨f, same⟩ := visit_eq_merge seed parent y t
    show Passed h (visit seed parent y t).2 p z ∨ p = y ∧ (visit seed parent y t).1 = true
    rw [same]
    cases changed : (t.merge y.slot f).1 with
    | false =>
        rw [merge_of_unchanged changed]
        exact .inl passed
    | true =>
        by_cases source : p = y
        · exact .inr ⟨source, rfl⟩
        · refine .inl fun aliveP => ?_
          have other : y.slot ≠ p.slot := fun shared =>
            source (Heap.eq_of_isAlive aliveP alive shared.symm)
          rw [get_merge t y.slot p.slot, if_neg other]
          exact BloomFilter.includes_trans (includes_get_merge t y.slot z.slot f) (passed aliveP)

/-- The table has all bits of the filter in the slot. -/
def Has (slot : Nat) (f : BloomFilter) (t : FilterTable) : Prop := (t.get slot).includes f = true

theorem stable_has (seed f : BloomFilter) (slot : Nat) (parent : Option ObjectId) (id : ObjectId)
    (t : FilterTable) (_ : h.isAlive id = true) (has : t.Has slot f) :
    ((visitor h seed).visit parent id t).2.Has slot f :=
  BloomFilter.includes_trans (includes_get_visit seed parent id t slot) has

/-- Filters have spread along every reference out of an object that may be left. -/
def Spread (h : Heap) (c : Option ObjectClass) (t : FilterTable) : Prop :=
  ∀ p z, h.classOf? p ≠ c → z ∈ h.children p → h.isAlive z = true → Passed h t p z

theorem Spread.has_of_path (spread : Spread h c t) {f : BloomFilter} {a b : ObjectId}
    (path : h.Path c a b) (has : t.Has a.slot f) : t.Has b.slot f := by
  induction path with
  | here => exact has
  | step path leave child alive ih =>
      exact BloomFilter.includes_trans (spread _ _ leave child alive path.alive_last) ih

section Run

variable {o : BuildOptions}

/-- The walk that makes everything sticky that the roots reach. -/
def stickyWalk (h : Heap) (o : BuildOptions) : Walk FilterTable :=
  Walk.run (visitor h .sticky) (some o.opaqueClass) h.rootIds
    (Walk.start o.queueCapacity (.withRoom h.capacity))

theorem spread_stickyWalk (h : Heap) (o : BuildOptions) :
    Spread h (some o.opaqueClass) (stickyWalk h o).marks := by
  intro p z leave child alive
  refine Walk.settled_drain (settles_visitor .sticky) ?_ leave child alive
  intro q y _
  refine Walk.covered_meetAll (settles_visitor .sticky) ?_ none h.rootIds
  refine fun _ _ => .inl fun _ => ?_
  show ((withRoom h.capacity).get y.slot).includes ((withRoom h.capacity).get q.slot) = true
  rw [get_withRoom h.capacity q.slot]
  exact BloomFilter.includes_empty _

theorem sticky_of_rooted {p : ObjectId} (rooted : h.Rooted (some o.opaqueClass) p) :
    (stickyWalk h o).marks.Has p.slot .sticky := by
  obtain ⟨root, member, path⟩ := rooted
  apply (spread_stickyWalk h o).has_of_path path
  apply Walk.drain_stable (stable_has .sticky .sticky root.slot)
  refine Walk.meetAll_establishes (stable_has .sticky .sticky root.slot) ?_ member
    path.alive_first _
  exact fun t => includes_merged t root.slot .sticky

/-- The filter that an exported slot starts with. -/
def own (o : BuildOptions) (k : ExportKey) : BloomFilter :=
  .singleton (UInt64.ofNat k.number) o.bloomSeed

/-- Gives an exported object the filter of its slot. -/
def meetExport (h : Heap) (o : BuildOptions) (w : Walk FilterTable) (e : ExportKey × ObjectId) :
    Walk FilterTable :=
  Walk.meet (visitor h (own o e.1)) (some o.opaqueClass) none w e.2

/-- Later exports take no bits away. -/
theorem has_meetExports {w : Walk FilterTable} {f : BloomFilter} {slot : Nat}
    (has : w.marks.Has slot f) (l : List (ExportKey × ObjectId)) :
    (l.foldl (meetExport h o) w).marks.Has slot f := by
  induction l generalizing w with
  | nil => exact has
  | cons e l ih =>
      apply ih
      have one : Walk.meetAll (visitor h (own o e.1)) (some o.opaqueClass) none w [e.2] =
          meetExport h o w e := rfl
      exact one ▸ Walk.meetAll_stable (stable_has (own o e.1) f slot) has

theorem has_own_meetExports (w : Walk FilterTable) {l : List (ExportKey × ObjectId)}
    {e : ExportKey × ObjectId} (member : e ∈ l) (alive : h.isAlive e.2 = true) :
    (l.foldl (meetExport h o) w).marks.Has e.2.slot (own o e.1) := by
  induction l generalizing w with
  | nil => cases member
  | cons x l ih =>
      rcases List.mem_cons.1 member with rfl | later
      · refine has_meetExports ?_ l
        refine Walk.meetAll_establishes (stable_has (own o e.1) (own o e.1) e.2.slot) ?_
          (List.mem_singleton.2 rfl) alive w
        exact fun t => includes_merged t e.2.slot (own o e.1)
      · exact ih (meetExport h o w x) later

theorem covered_meetExports {w : Walk FilterTable} {p z : ObjectId}
    (covered : Walk.Covered h (some o.opaqueClass) (Passed h) w p z)
    (l : List (ExportKey × ObjectId)) :
    Walk.Covered h (some o.opaqueClass) (Passed h) (l.foldl (meetExport h o) w) p z := by
  induction l generalizing w with
  | nil => exact covered
  | cons e l ih => exact ih (Walk.covered_meet (settles_visitor (own o e.1)) covered none e.2)

theorem spread_spread (h : Heap) (exports : Exports) (o : BuildOptions) :
    Spread h (some o.opaqueClass) (FilterTable.spread h exports o).marks := by
  intro p z leave child alive
  refine Walk.settled_drain (settles_visitor .empty) ?_ leave child alive
  intro q y child
  refine covered_meetExports ?_ exports.liveObjects
  exact fun leave alive => .inl (spread_stickyWalk h o q y leave child alive)

theorem has_spread {exports : Exports} {f : BloomFilter} {slot : Nat}
    (has : (exports.liveObjects.foldl (meetExport h o) (stickyWalk h o)).marks.Has slot f) :
    (FilterTable.spread h exports o).marks.Has slot f :=
  Walk.drain_stable (stable_has .empty f slot) has

theorem isSticky_spread {p : ObjectId} (exports : Exports)
    (rooted : h.Rooted (some o.opaqueClass) p) :
    ((FilterTable.spread h exports o).marks.get p.slot).isSticky = true :=
  BloomFilter.isSticky_of_includes
    (has_spread (has_meetExports (sticky_of_rooted rooted) exports.liveObjects))

theorem has_own_spread {exports : Exports} {k : ExportKey} {a p : ObjectId}
    (live : exports.entry? k = some (.live a)) (path : h.Path (some o.opaqueClass) a p) :
    (FilterTable.spread h exports o).marks.Has p.slot (own o k) := by
  refine (spread_spread h exports o).has_of_path path (has_spread ?_)
  exact has_own_meetExports (e := (k, a)) _ (Exports.mem_liveObjects.2 live)
    path.alive_first

end Run

end FilterTable

namespace EdgeGraph

variable {h : Heap} {exports : Exports} {imports : Imports} {o : BuildOptions}

/-- The filter of a proxy when the filters have spread. -/
def filterOf (h : Heap) (exports : Exports) (o : BuildOptions) (p : ObjectId) : BloomFilter :=
  (FilterTable.spread h exports o).marks.get p.slot

/-- The proxies that are entered as successors of a slot. -/
def Suspected (h : Heap) (exports : Exports) (imports : Imports) (o : BuildOptions)
    (k : ExportKey) (j : ImportKey) : Prop :=
  ∃ p, imports.proxy? h j = some p ∧ (filterOf h exports o p).isSticky = false ∧
    (filterOf h exports o p).isEmpty = false ∧
    (filterOf h exports o p).includes (FilterTable.own o k) = true

/-- The live proxies with their filters. -/
def filteredProxies (h : Heap) (exports : Exports) (imports : Imports) (o : BuildOptions) :
    List (ImportKey × BloomFilter) :=
  (imports.liveProxies h).map fun e => (e.1, filterOf h exports o e.2)

theorem mem_filteredProxies {j : ImportKey} {f : BloomFilter} :
    (j, f) ∈ filteredProxies h exports imports o ↔
      ∃ p, imports.proxy? h j = some p ∧ filterOf h exports o p = f := by
  simp only [filteredProxies, List.mem_map, Prod.exists, Prod.mk.injEq, Imports.mem_liveProxies,
    ← Imports.proxy?_eq_some_iff]
  constructor
  · rintro ⟨i, p, found, rfl, same⟩
    exact ⟨p, found, same⟩
  · rintro ⟨p, found, same⟩
    exact ⟨j, p, found, rfl, same⟩

/-- The slots whose proxy is sticky. -/
def stickySlots (h : Heap) (exports : Exports) (imports : Imports) (o : BuildOptions) :
    List ImportKey :=
  ((filteredProxies h exports imports o).filter fun e => e.2.isSticky).map Prod.fst

theorem mem_stickySlots {j : ImportKey} : j ∈ stickySlots h exports imports o ↔
    ∃ p, imports.proxy? h j = some p ∧ (filterOf h exports o p).isSticky = true := by
  simp only [stickySlots, List.mem_map, List.mem_filter, Prod.exists, mem_filteredProxies,
    exists_and_right, exists_eq_right]
  constructor
  · rintro ⟨f, ⟨p, found, rfl⟩, sticky⟩
    exact ⟨p, found, sticky⟩
  · rintro ⟨p, found, sticky⟩
    exact ⟨_, ⟨p, found, rfl⟩, sticky⟩

/-- The slots that are entered as successors of an exported slot. -/
def suspects (h : Heap) (exports : Exports) (imports : Imports) (o : BuildOptions)
    (k : ExportKey) : List ImportKey :=
  (((filteredProxies h exports imports o).filter fun e => !e.2.isSticky && !e.2.isEmpty).filter
    fun e => e.2.includes (FilterTable.own o k)).map Prod.fst

theorem mem_suspects {k : ExportKey} {j : ImportKey} :
    j ∈ suspects h exports imports o k ↔ Suspected h exports imports o k j := by
  simp only [suspects, Suspected, List.mem_map, List.mem_filter, Prod.exists, mem_filteredProxies,
    exists_and_right, exists_eq_right, Bool.and_eq_true, Bool.not_eq_true']
  constructor
  · rintro ⟨f, ⟨⟨p, found, rfl⟩, loose, some⟩, member⟩
    exact ⟨p, found, loose, some, member⟩
  · rintro ⟨p, found, loose, some, member⟩
    exact ⟨_, ⟨⟨p, found, rfl⟩, loose, some⟩, member⟩

theorem entered_approximate (h : Heap) (exports : Exports) (imports : Imports)
    (o : BuildOptions) :
    Entered (fun k js => js = suspects h exports imports o k) (stickySlots h exports imports o)
      (exports.liveObjects.map Prod.fst) (approximate h exports imports o).answer :=
  entered_foldl (fun g => g) (fun g e => g.insert e.1 (suspects h exports imports o e.1))
    (fun _ => True) (l := exports.liveObjects)
    (d := { root := stickySlots h exports imports o })
    (fun _ _ _ _ => ⟨trivial, _, rfl, rfl⟩) trivial
    (entered_start (stickySlots h exports imports o))

theorem approximate_spec (h : Heap) (exports : Exports) (imports : Imports) (o : BuildOptions) :
    (∀ j, j ∈ (approximate h exports imports o).answer.root ↔
      ∃ p, imports.proxy? h j = some p ∧ (filterOf h exports o p).isSticky = true) ∧
    Lists (Suspected h exports imports o) (exports.liveObjects.map Prod.fst)
      (approximate h exports imports o).answer := by
  have entered := entered_approximate h exports imports o
  refine ⟨fun j => ?_, entered.lists ?_⟩
  · rw [entered.root]
    exact mem_stickySlots
  · rintro k js rfl j
    exact mem_suspects

theorem named_approximate (h : Heap) (exports : Exports) (imports : Imports) (o : BuildOptions) :
    Named h exports imports (approximate h exports imports o).answer where
  root := fun j member => by
    obtain ⟨p, found, -⟩ := ((approximate_spec h exports imports o).1 j).1 member
    exact ⟨p, found⟩
  edge := fun k js found => by
    obtain ⟨member, all⟩ := (approximate_spec h exports imports o).2.sound k js found
    refine ⟨Exports.mem_map_fst_liveObjects.1 member, fun j member => ?_⟩
    obtain ⟨p, found, -⟩ := all j member
    exact ⟨p, found⟩

theorem covering_approximate (h : Heap) (exports : Exports) (imports : Imports)
    (o : BuildOptions) :
    Covering o.opaqueClass h exports imports (approximate h exports imports o).answer where
  root := fun j p found rooted => ((approximate_spec h exports imports o).1 j).2
    ⟨p, found, FilterTable.isSticky_spread exports rooted⟩
  edge := fun k a j p live found path => by
    have member : (filterOf h exports o p).includes (FilterTable.own o k) = true :=
      FilterTable.has_own_spread live path
    cases sticky : (filterOf h exports o p).isSticky with
    | true => exact .inl (((approximate_spec h exports imports o).1 j).2 ⟨p, found, sticky⟩)
    | false =>
        refine .inr ((approximate_spec h exports imports o).2.complete k j ?_ ?_)
        · exact Exports.mem_map_fst_liveObjects.2 ⟨a, live⟩
        · exact ⟨p, found, sticky, BloomFilter.isEmpty_of_includes member, member⟩

end EdgeGraph

end TwinHeap
