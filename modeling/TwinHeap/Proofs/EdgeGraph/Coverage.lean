import TwinHeap.Proofs.EdgeGraph.Gathered

/-! How far the approximate graph covers the exact one. The full filter stands for the roots, but the
filters of many exported slots add up to it too. A proxy with such a filter is moved from their
successors to the root. No pair is lost by that, and nothing else keeps one graph from covering the
other. -/
namespace TwinHeap.EdgeGraph

variable {h : Heap} {exports : Exports} {imports : Imports} {o : BuildOptions}

/-- The roots do not reach the object, and yet its filter is full. -/
def Crowded (h : Heap) (exports : Exports) (o : BuildOptions) (x : ObjectId) : Prop :=
  ¬ h.Rooted (some o.opaqueClass) x ∧ gathered h exports o x = .sticky

/-- It takes many exported slots to fill a filter. -/
theorem Crowded.lt_length {x : ObjectId} (crowded : Crowded h exports o x) :
    12 < (reachers h exports o x).length := by
  have drawn := BloomFilter.popCount_unions_singleton_le
    ((reachers h exports o x).map fun k => UInt64.ofNat k.number) o.bloomSeed
  rw [List.map_map, List.length_map] at drawn
  have full : (gathered h exports o x).popCount = 64 := by
    rw [crowded.2]
    decide
  have bound : 64 ≤ BloomFilter.hashes * (reachers h exports o x).length := full ▸ drawn
  unfold BloomFilter.hashes at bound
  omega

/-- The approximate graph covers the exact one if no live proxy is crowded, and only then. -/
theorem covers_iff (h : Heap) (exports : Exports) (imports : Imports) (o : BuildOptions) :
    (approximate h exports imports o).answer.covers (exact h exports imports o).answer = true ↔
      ∀ j p, imports.proxy? h j = some p → ¬ Crowded h exports o p := by
  rw [(shows_approximate h exports imports o).covers_iff (shows_exact h exports imports o)]
  constructor
  · rintro ⟨-, edges⟩ j p found ⟨loose, full⟩
    have alive := (Imports.proxy?_eq_some_iff.1 found).2
    have set : (gathered h exports o p).testBit 0 = true := by
      rw [full]
      rfl
    obtain ⟨k, a, live, path, -⟩ := testBit_gathered.1 set
    obtain ⟨i, key⟩ := exists_find?_proxySlots found
    obtain ⟨-, q, proxy, short, -⟩ := edges k i ⟨a, p, live, key, enters_iff.2 ⟨path, loose⟩⟩
    rw [find?_proxySlots key] at proxy
    cases proxy
    exact short ((filterOf_of_loose alive loose).trans full)
  · intro none
    constructor
    · rintro j ⟨p, found, rooted⟩
      exact ⟨p, found, filterOf_of_rooted exports rooted⟩
    · rintro k j ⟨a, p, live, key, enters⟩
      have found := find?_proxySlots key
      obtain ⟨path, loose⟩ := enters_iff.1 enters
      refine ⟨⟨a, live⟩, p, found, fun full => ?_, FilterTable.has_own_spread live path⟩
      exact none j p found ⟨loose, (filterOf_of_loose enters.alive loose).symm.trans full⟩

/-- The exact graph asks for less than the approximate one. -/
theorem demand_exact_of_approximate (room : demand .approximate h o = .ok ()) :
    demand .exact h o = .ok () := by
  unfold demand at room ⊢
  cases reserved : Capacity.reserve (o.room?.getD h.capacity) 8 with
  | error f =>
      rw [reserved] at room
      cases room
  | ok _ =>
      rw [reserved] at room
      exact room

/-- Whenever there can be arrays for the approximate graph, both graphs are built, and the
approximate one covers the exact one unless a proxy is crowded. What it does not list where the exact
one does, it lists in its root. -/
theorem build_covers_iff (h : Heap) (exports : Exports) (imports : Imports)
    (room : demand .approximate h o = .ok ()) :
    ∃ g e, (build .approximate h exports imports o).answer = .ok g ∧
      (build .exact h exports imports o).answer = .ok e ∧
      (g.covers e = true ↔ ∀ j p, imports.proxy? h j = some p → ¬ Crowded h exports o p) ∧
      (∀ x, Crowded h exports o x → 12 < (reachers h exports o x).length) ∧
      (∀ j ∈ e.root, j ∈ g.root) ∧
      ∀ k js, e.successors? k = some js → ∀ j ∈ js,
        j ∈ g.root ∨ ∃ is, g.successors? k = some is ∧ j ∈ is := by
  have covering := covering_approximate h exports imports o
  have faithful := faithful_exact h exports imports o
  refine ⟨_, _, answer_build room exports imports,
    answer_build (demand_exact_of_approximate room) exports imports, covers_iff h exports imports o,
    fun _ crowded => crowded.lt_length, fun j member => ?_, fun k js found j member => ?_⟩
  · obtain ⟨p, found, rooted⟩ := faithful.root j member
    exact covering.root j p found rooted
  · obtain ⟨a, p, live, proxy, path⟩ := faithful.edge k js found j member
    exact covering.edge k a j p live proxy path

/-- Nothing is crowded in the knot, and both graphs list the same there. -/
theorem build_covers_iff_knot :
    demand .approximate knotHeap knotOptions = .ok () ∧
    ∃ g e, (build .approximate knotHeap knotExports knotImports knotOptions).answer = .ok g ∧
      (build .exact knotHeap knotExports knotImports knotOptions).answer = .ok e ∧
      (e.root = [⟨1⟩] ∧ e.successors? ⟨0⟩ = some [⟨0⟩] ∧ e.successors? ⟨1⟩ = some [⟨0⟩]) ∧
      (g.root = [⟨1⟩] ∧ g.successors? ⟨0⟩ = some [⟨0⟩] ∧ g.successors? ⟨1⟩ = some [⟨0⟩]) ∧
      g.covers e = true ∧
      ¬ Crowded knotHeap knotExports knotOptions ⟨0, 0⟩ ∧
      ¬ Crowded knotHeap knotExports knotOptions ⟨1, 0⟩ := by
  obtain ⟨g, e, built, exact_, covers, -⟩ :=
    build_covers_iff (o := knotOptions) knotHeap knotExports knotImports rfl
  have lists : ∀ mode, (build mode knotHeap knotExports knotImports knotOptions).answer.toOption.map
      (fun g => (g.root, g.successors? ⟨0⟩, g.successors? ⟨1⟩)) =
        some ([⟨1⟩], some [⟨0⟩], some [⟨0⟩]) := by
    intro mode
    cases mode <;> decide +kernel
  have covered : (build .approximate knotHeap knotExports knotImports knotOptions).answer.toOption.bind
      (fun g => (build .exact knotHeap knotExports knotImports knotOptions).answer.toOption.map
        g.covers) = some true := by
    decide +kernel
  have exactLists := lists .exact
  have approximateLists := lists .approximate
  simp only [exact_, built, Except.toOption, Option.bind_some, Option.map_some,
    Option.some.injEq, Prod.mk.injEq] at exactLists approximateLists covered
  have uncrowded := covers.1 covered
  exact ⟨rfl, g, e, built, exact_, exactLists, approximateLists, covered, uncrowded ⟨0⟩ _ rfl,
    uncrowded ⟨1⟩ _ rfl⟩

/-- One proxy and `n` objects that hold it. -/
def crowdHeap (n : Nat) : Heap where
  cells := ⟨{ occupant := some (.proxy ⟨0⟩) } ::
    List.replicate n { occupant := some (.plain .ordinary [.ref ⟨0, 0⟩]) }⟩
  live := n + 1

/-- All the objects that hold the proxy are exported. -/
def crowdExports (n : Nat) : Exports where
  rows := ⟨⟨(List.range n).map fun i => .live ⟨i + 1, 0⟩⟩⟩

def crowdImports : Imports where
  rows := ⟨#[.weak ⟨0, 0⟩]⟩

/-- With the default seed, 53 slots add up to the full filter. -/
theorem crowded_of_crowd (seed : o.bloomSeed = defaultBloomSeed) (opaqueClass : o.opaqueClass = .hidden)
    (cells : h.cells = (crowdHeap 53).cells) (rows : exports.rows = (crowdExports 53).rows)
    (bare : h.rootIds = []) : Crowded h exports o ⟨0, 0⟩ := by
  have path : ∀ i < 53, Exports.entry? (crowdExports 53) ⟨i⟩ = some (.live ⟨i + 1, 0⟩) ∧
      (crowdHeap 53).isAlive ⟨i + 1, 0⟩ = true ∧
      (crowdHeap 53).classOf? ⟨i + 1, 0⟩ ≠ some ObjectClass.hidden ∧
      (⟨0, 0⟩ : ObjectId) ∈ (crowdHeap 53).children ⟨i + 1, 0⟩ := by
    decide +kernel
  have bits : ∀ b < 64, ∃ i < 53, (FilterTable.own {} ⟨i⟩).testBit b = true := by
    decide +kernel
  have get : ∀ x, h.get? x = (crowdHeap 53).get? x := Heap.get?_of_cells_eq cells
  constructor
  · rintro ⟨root, member, -⟩
    rw [bare] at member
    cases member
  · apply BloomFilter.ext_testBit
    intro b below
    obtain ⟨i, small, set⟩ := bits b below
    obtain ⟨live, alive, leave, child⟩ := path i small
    rw [BloomFilter.testBit_sticky below]
    refine testBit_gathered.2 ⟨⟨i⟩, ⟨i + 1, 0⟩, ?_, .step (.here ?_) ?_ ?_ ?_, ?_⟩
    · rwa [Exports.entry?, rows]
    · rwa [Heap.isAlive, get]
    · rwa [opaqueClass, Heap.classOf?, get]
    · rwa [Heap.children, get]
    · rw [Heap.isAlive, get]
      rfl
    · rwa [FilterTable.own, seed]

/-- With 53 exported slots in front of one proxy, the approximate graph has the proxy in its root and
behind none of the slots. -/
theorem crowd_not_covered :
    ∃ g e, (build .approximate (crowdHeap 53) (crowdExports 53) crowdImports {}).answer = .ok g ∧
      (build .exact (crowdHeap 53) (crowdExports 53) crowdImports {}).answer = .ok e ∧
      g.covers e = false := by
  refine ⟨_, _, rfl, rfl, Bool.eq_false_iff.2 fun covered => ?_⟩
  have none := (covers_iff (crowdHeap 53) (crowdExports 53) crowdImports {}).1 covered
  exact none ⟨0⟩ ⟨0, 0⟩ (by decide +kernel) (crowded_of_crowd rfl rfl rfl rfl rfl)

end TwinHeap.EdgeGraph
