import TwinHeap.Proofs.EdgeGraph.Approximate
import TwinHeap.Proofs.EdgeGraph.Exact

/-! What the filters hold when they have spread, whatever the order of the walk. An object that the
roots reach is sticky. Any other object has the bits of the exported slots that reach it and no
others, so that false successors come from the filters alone and not from the way they spread. -/
namespace TwinHeap

namespace FilterTable

variable {h : Heap} {c : Option ObjectClass} {seed : BloomFilter} {bit : Nat}
variable {Q : ObjectId → Prop} {t : FilterTable}

/-- Among the live objects, only those in `Q` have the bit. -/
def Confined (h : Heap) (bit : Nat) (Q : ObjectId → Prop) (t : FilterTable) : Prop :=
  ∀ x, h.isAlive x = true → (t.get x.slot).testBit bit = true → Q x

/-- The objects in `Q` that may be left refer to objects in `Q`. -/
def Closed (h : Heap) (c : Option ObjectClass) (Q : ObjectId → Prop) : Prop :=
  ∀ p z, Q p → h.classOf? p ≠ c → z ∈ h.children p → h.isAlive z = true → Q z

/-- What a walk may have in its queue. -/
def Leavable (h : Heap) (c : Option ObjectClass) (x : ObjectId) : Prop :=
  h.isAlive x = true ∧ h.classOf? x ≠ c

theorem confined_merge (confined : Confined h bit Q t) {id : ObjectId}
    (alive : h.isAlive id = true) {f : BloomFilter} (given : f.testBit bit = true → Q id) :
    Confined h bit Q (t.merge id.slot f).2 := by
  intro x aliveX set
  rw [get_merge] at set
  split at set
  · rename_i shared
    have same : id = x := Heap.eq_of_isAlive alive aliveX shared
    rw [BloomFilter.testBit_union, Bool.or_eq_true] at set
    rcases set with old | new
    · exact same ▸ confined id alive old
    · exact same ▸ given new
  · exact confined x aliveX set

theorem guards_seed {id : ObjectId}
    (given : h.isAlive id = true → seed.testBit bit = true → Q id) :
    Walk.Guards (visitor h seed) c (Confined h bit Q) (Leavable h c) none id where
  keeps := fun _ alive confined => confined_merge confined alive (given alive)
  queues := fun _ alive leave _ _ => ⟨alive, leave⟩

/-- A child gets what its parent has at that moment, which is never too much. -/
theorem guards_child (closed : Closed h c Q) {p id : ObjectId} (parent : Leavable h c p)
    (child : id ∈ h.children p) :
    Walk.Guards (visitor h seed) c (Confined h bit Q) (Leavable h c) (some p) id where
  keeps := fun _ alive confined => confined_merge confined alive fun set =>
    closed p id (confined p parent.1 set) parent.2 child alive
  queues := fun _ alive leave _ _ => ⟨alive, leave⟩

theorem confined_drain (closed : Closed h c Q) {w : Walk FilterTable}
    (confined : Confined h bit Q w.marks) (queued : ∀ x ∈ w.queue.toList, Leavable h c x) :
    Confined h bit Q (Walk.drain (visitor h seed) c w).marks :=
  Walk.drain_invariant (fun _ parent _ child => guards_child closed parent child) confined queued

section Run

variable {o : BuildOptions} {exports : Exports}

/-- The roots reach the object, or an exported object does and the filter of its slot has the
bit. -/
def Marked (h : Heap) (exports : Exports) (o : BuildOptions) (bit : Nat) (x : ObjectId) : Prop :=
  h.Rooted (some o.opaqueClass) x ∨ ∃ k a, exports.entry? k = some (.live a) ∧
    h.Path (some o.opaqueClass) a x ∧ (own o k).testBit bit = true

theorem closed_marked (h : Heap) (exports : Exports) (o : BuildOptions) (bit : Nat) :
    Closed h (some o.opaqueClass) (Marked h exports o bit) := by
  intro p z marked leave child alive
  rcases marked with ⟨root, member, path⟩ | ⟨k, a, live, path, set⟩
  · exact .inl ⟨root, member, .step path leave child alive⟩
  · exact .inr ⟨k, a, live, .step path leave child alive, set⟩

theorem confined_stickyWalk (h : Heap) (exports : Exports) (o : BuildOptions) (bit : Nat) :
    Confined h bit (Marked h exports o bit) (stickyWalk h o).marks := by
  have empty : Confined h bit (Marked h exports o bit) (withRoom h.capacity) := by
    intro x _ set
    rw [get_withRoom, BloomFilter.testBit_empty] at set
    cases set
  have seeded : ∀ id ∈ h.rootIds, Walk.Guards (visitor h .sticky) (some o.opaqueClass)
      (Confined h bit (Marked h exports o bit)) (Leavable h (some o.opaqueClass)) none id :=
    fun id member => guards_seed fun alive _ => .inl ⟨id, member, .here alive⟩
  have met := Walk.meetAll_invariant (w := Walk.start o.queueCapacity (withRoom h.capacity))
    seeded empty fun x member => by
      rw [Walk.start, Ring.toList_withCapacity] at member
      cases member
  exact confined_drain (closed_marked h exports o bit) met.1 met.2

theorem confined_meetExports {l : List (ExportKey × ObjectId)} {w : Walk FilterTable}
    (given : ∀ e ∈ l, h.isAlive e.2 = true → (own o e.1).testBit bit = true → Q e.2)
    (confined : Confined h bit Q w.marks)
    (queued : ∀ x ∈ w.queue.toList, Leavable h (some o.opaqueClass) x) :
    Confined h bit Q (l.foldl (meetExport h o) w).marks ∧
      ∀ x ∈ (l.foldl (meetExport h o) w).queue.toList, Leavable h (some o.opaqueClass) x := by
  induction l generalizing w with
  | nil => exact ⟨confined, queued⟩
  | cons e l ih =>
      have next := Walk.meet_invariant (guards_seed (given e List.mem_cons_self)) confined queued
      exact ih (fun x member => given x (List.mem_cons_of_mem e member)) next.1 next.2

theorem confined_spread (h : Heap) (exports : Exports) (o : BuildOptions) (bit : Nat) :
    Confined h bit (Marked h exports o bit) (FilterTable.spread h exports o).marks := by
  have given : ∀ e ∈ exports.liveObjects, h.isAlive e.2 = true →
      (own o e.1).testBit bit = true → Marked h exports o bit e.2 :=
    fun e member alive set => .inr ⟨e.1, e.2, Exports.mem_liveObjects.1 member, .here alive, set⟩
  have none : ∀ x ∈ (stickyWalk h o).queue.toList, Leavable h (some o.opaqueClass) x := by
    intro x member
    rw [stickyWalk, Walk.run, Walk.toList_queue_drain] at member
    cases member
  have met := confined_meetExports given (confined_stickyWalk h exports o bit) none
  exact confined_drain (closed_marked h exports o bit) met.1 met.2

end Run

end FilterTable

namespace EdgeGraph

variable {h : Heap} {exports : Exports} {imports : Imports} {o : BuildOptions}

theorem filterOf_of_rooted {x : ObjectId} (exports : Exports)
    (rooted : h.Rooted (some o.opaqueClass) x) : filterOf h exports o x = .sticky :=
  BloomFilter.isSticky_iff.1 (FilterTable.isSticky_spread exports rooted)

open Classical in
/-- The exported slots whose objects reach `x`. -/
noncomputable def reachers (h : Heap) (exports : Exports) (o : BuildOptions) (x : ObjectId) :
    List ExportKey :=
  (exports.liveObjects.filter fun e => h.Path (some o.opaqueClass) e.2 x).map Prod.fst

theorem mem_reachers {x : ObjectId} {k : ExportKey} : k ∈ reachers h exports o x ↔
    ∃ a, exports.entry? k = some (.live a) ∧ h.Path (some o.opaqueClass) a x := by
  simp only [reachers, List.mem_map, List.mem_filter, decide_eq_true_eq, Prod.exists,
    Exports.mem_liveObjects, exists_and_right, exists_eq_right]

/-- What the filters of the exported slots whose objects reach `x` have together. -/
noncomputable def gathered (h : Heap) (exports : Exports) (o : BuildOptions) (x : ObjectId) :
    BloomFilter :=
  .unions ((reachers h exports o x).map (FilterTable.own o))

theorem testBit_gathered {x : ObjectId} {i : Nat} :
    (gathered h exports o x).testBit i = true ↔ ∃ k a, exports.entry? k = some (.live a) ∧
      h.Path (some o.opaqueClass) a x ∧ (FilterTable.own o k).testBit i = true := by
  rw [gathered, BloomFilter.testBit_unions]
  constructor
  · rintro ⟨f, listed, set⟩
    obtain ⟨k, member, rfl⟩ := List.mem_map.1 listed
    obtain ⟨a, live, path⟩ := mem_reachers.1 member
    exact ⟨k, a, live, path, set⟩
  · rintro ⟨k, a, live, path, set⟩
    exact ⟨_, List.mem_map.2 ⟨k, mem_reachers.2 ⟨a, live, path⟩, rfl⟩, set⟩

/-- An object that the roots do not reach has the filters of the slots that reach it, and nothing
besides. -/
theorem filterOf_of_loose {x : ObjectId} (alive : h.isAlive x = true)
    (loose : ¬ h.Rooted (some o.opaqueClass) x) :
    filterOf h exports o x = gathered h exports o x := by
  apply BloomFilter.ext_testBit
  intro i _
  apply Bool.eq_iff_iff.2
  rw [testBit_gathered]
  constructor
  · intro set
    exact (FilterTable.confined_spread h exports o i x alive set).resolve_left loose
  · rintro ⟨k, a, live, path, set⟩
    exact BloomFilter.includes_iff.1 (FilterTable.has_own_spread live path) i set

/-- The filter of a proxy that is not sticky shows an exported slot. -/
def Admits (h : Heap) (exports : Exports) (imports : Imports) (o : BuildOptions) (k : ExportKey)
    (j : ImportKey) : Prop :=
  (∃ a, exports.entry? k = some (.live a)) ∧ ∃ p, imports.proxy? h j = some p ∧
    filterOf h exports o p ≠ .sticky ∧ (filterOf h exports o p).includes (FilterTable.own o k) = true

theorem suspected_iff {k : ExportKey} {j : ImportKey} : Suspected h exports imports o k j ↔
    ∃ p, imports.proxy? h j = some p ∧ filterOf h exports o p ≠ .sticky ∧
      (filterOf h exports o p).includes (FilterTable.own o k) = true := by
  constructor
  · rintro ⟨p, found, loose, -, member⟩
    refine ⟨p, found, fun sticky => ?_, member⟩
    rw [BloomFilter.isSticky_iff.2 sticky] at loose
    cases loose
  · rintro ⟨p, found, loose, member⟩
    refine ⟨p, found, ?_, BloomFilter.isEmpty_of_includes member, member⟩
    exact Bool.eq_false_iff.2 fun sticky => loose (BloomFilter.isSticky_iff.1 sticky)

theorem ascending_filteredProxies (h : Heap) (exports : Exports) (imports : Imports)
    (o : BuildOptions) : Rows.Ascending ((filteredProxies h exports imports o).map Prod.fst) := by
  rw [filteredProxies, List.map_map]
  exact Imports.ascending_liveProxies imports h

theorem ascending_suspects (h : Heap) (exports : Exports) (imports : Imports) (o : BuildOptions)
    (k : ExportKey) : Rows.Ascending (suspects h exports imports o k) :=
  (ascending_filteredProxies h exports imports o).sublist
    ((List.filter_sublist.trans List.filter_sublist).map Prod.fst)

theorem ascending_stickySlots (h : Heap) (exports : Exports) (imports : Imports)
    (o : BuildOptions) : Rows.Ascending (stickySlots h exports imports o) :=
  (ascending_filteredProxies h exports imports o).sublist (List.filter_sublist.map Prod.fst)

theorem shows_approximate (h : Heap) (exports : Exports) (imports : Imports) (o : BuildOptions) :
    (approximate h exports imports o).answer.Shows
      (fun j => ∃ p, imports.proxy? h j = some p ∧ filterOf h exports o p = .sticky)
      (Admits h exports imports o) := by
  refine (entered_approximate h exports imports o).shows ?_
    (ascending_stickySlots h exports imports o) exports.ascending_liveObjects ?_ ?_
  · intro j
    simp only [mem_stickySlots, BloomFilter.isSticky_iff]
  · rintro k j ⟨live, -⟩
    exact Exports.mem_map_fst_liveObjects.2 live
  · rintro k member js rfl
    refine ⟨(ascending_suspects h exports imports o k).nodup, fun j => ?_⟩
    rw [mem_suspects, suspected_iff]
    exact ⟨fun suspected => ⟨Exports.mem_map_fst_liveObjects.1 member, suspected⟩, And.right⟩

/-- The approximate graph is built whenever there can be arrays for it. Its filters are what the roots
and the exported objects put into them, its lists are read off the filters, and no pair is lost. -/
theorem build_approximate_shows (h : Heap) (exports : Exports) (imports : Imports)
    (room : demand .approximate h o = .ok ()) :
    ∃ g, (build .approximate h exports imports o).answer = .ok g ∧
      (∀ x, h.isAlive x = true → h.Rooted (some o.opaqueClass) x →
        filterOf h exports o x = .sticky) ∧
      (∀ x, h.isAlive x = true → ¬ h.Rooted (some o.opaqueClass) x →
        filterOf h exports o x = gathered h exports o x) ∧
      g.Shows (fun j => ∃ p, imports.proxy? h j = some p ∧ filterOf h exports o p = .sticky)
        (Admits h exports imports o) ∧
      (∀ k js, g.successors? k = some js → Rows.Ascending js) ∧
      ∀ k a j p, exports.entry? k = some (.live a) → imports.proxy? h j = some p →
        h.Path (some o.opaqueClass) a p →
        j ∈ g.root ∨ ∃ js, g.successors? k = some js ∧ j ∈ js := by
  refine ⟨_, answer_build room exports imports, fun _ _ rooted => filterOf_of_rooted exports rooted,
    fun _ alive loose => filterOf_of_loose alive loose, shows_approximate h exports imports o,
    ?_, (covering_approximate h exports imports o).edge⟩
  intro k js found
  rw [((entered_approximate h exports imports o).recorded k js found).2]
  exact ascending_suspects h exports imports o k

/-- The filters of the knot are far from full, so that its graph is the exact one. -/
theorem build_approximate_shows_knot :
    demand .approximate knotHeap knotOptions = .ok () ∧
    ∃ g, (build .approximate knotHeap knotExports knotImports knotOptions).answer = .ok g ∧
      g.root = [⟨1⟩] ∧ g.successors? ⟨0⟩ = some [⟨0⟩] ∧ g.successors? ⟨1⟩ = some [⟨0⟩] ∧
      g.successors? ⟨2⟩ = none ∧
      filterOf knotHeap knotExports knotOptions ⟨1, 0⟩ = .sticky ∧
      filterOf knotHeap knotExports knotOptions ⟨0, 0⟩ =
        gathered knotHeap knotExports knotOptions ⟨0, 0⟩ ∧
      (Admits knotHeap knotExports knotImports knotOptions ⟨0⟩ ⟨0⟩ ∧
        Admits knotHeap knotExports knotImports knotOptions ⟨1⟩ ⟨0⟩) ∧
      ∀ j, ¬ Admits knotHeap knotExports knotImports knotOptions ⟨2⟩ j := by
  obtain ⟨g, built, full, loose, shows, -⟩ :=
    build_approximate_shows (o := knotOptions) knotHeap knotExports knotImports rfl
  have computed : (build .approximate knotHeap knotExports knotImports knotOptions).answer.toOption.map
      (fun g => (g.root, g.successors? ⟨0⟩, g.successors? ⟨1⟩, g.successors? ⟨2⟩)) =
        some ([⟨1⟩], some [⟨0⟩], some [⟨0⟩], none) := by
    decide +kernel
  simp only [built, Except.toOption, Option.map_some, Option.some.injEq, Prod.mk.injEq] at computed
  obtain ⟨root, zero, one, two⟩ := computed
  have sticky : filterOf knotHeap knotExports knotOptions ⟨1, 0⟩ = .sticky := by
    obtain ⟨p, proxy, sticky⟩ := (shows.root ⟨1⟩).1 (root ▸ List.mem_cons_self)
    cases proxy
    exact sticky
  -- A rooted proxy would have its slot in the root.
  have free : ¬ knotHeap.Rooted (some .hidden) ⟨0, 0⟩ := by
    intro rooted
    have member := (shows.root ⟨0⟩).2 ⟨⟨0, 0⟩, rfl, full _ rfl rooted⟩
    rw [root] at member
    cases List.mem_singleton.1 member
  refine ⟨rfl, g, built, root, zero, one, two, sticky, loose _ rfl free,
    ⟨shows.listed.1 ⟨[⟨0⟩], zero, List.mem_cons_self⟩,
      shows.listed.1 ⟨[⟨0⟩], one, List.mem_cons_self⟩⟩, fun j admits => ?_⟩
  obtain ⟨js, found, -⟩ := shows.listed.2 admits
  cases two.symm.trans found

end EdgeGraph

end TwinHeap
