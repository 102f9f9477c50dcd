import Mathlib.Data.List.Nodup
import TwinHeap.EdgeGraph.Approximate
import TwinHeap.Proofs.EdgeGraph.Edges
import TwinHeap.Proofs.Marking.Surveyed

/-! The exact graph misses nothing and adds nothing. What the roots reach is not entered by the later
walks, so a proxy behind it is a root rather than a successor. -/
namespace TwinHeap

theorem Survey.Enters.path {h : Heap} {c : Option ObjectClass} {closed : SlotSet}
    {seeds : List ObjectId} {id : ObjectId} (e : Enters h c closed seeds id) :
    ∃ seed ∈ seeds, h.Path c seed id := by
  induction e with
  | seed member alive _ => exact ⟨_, member, .here alive⟩
  | child _ leave child alive _ ih =>
      obtain ⟨seed, member, path⟩ := ih
      exact ⟨seed, member, .step path leave child alive⟩

namespace EdgeGraph

variable {h : Heap} {exports : Exports} {imports : Imports} {c : ObjectClass} {closed : SlotSet}
variable {o : BuildOptions}

/-- The walk from the roots. -/
def rootWalk (h : Heap) (o : BuildOptions) : Walk Survey :=
  Walk.run (Survey.visitor h {}) (some o.opaqueClass) h.rootIds
    (Walk.start o.queueCapacity { marks := .withRoom h.capacity })

theorem contains_rootWalk {id : ObjectId} (alive : h.isAlive id = true) :
    (rootWalk h o).marks.marks.contains id.slot = true ↔ h.Rooted (some o.opaqueClass) id :=
  (Survey.contains_run (Survey.fresh_start o.queueCapacity h.capacity) alive).trans
    Survey.enters_iff_path

/-- A path from an exported object stays outside of what the roots reach, or its end is reached by
the roots. -/
theorem rooted_or_enters {a b : ObjectId}
    (marked : ∀ id, h.isAlive id = true →
      (closed.contains id.slot = true ↔ h.Rooted (some c) id))
    (path : h.Path (some c) a b) :
    h.Rooted (some c) b ∨ Survey.Enters h (some c) closed [a] b := by
  have outside : ∀ id, h.isAlive id = true → closed.contains id.slot = false ∨
      h.Rooted (some c) id := by
    intro id alive
    cases inside : closed.contains id.slot with
    | false => exact .inl rfl
    | true => exact .inr ((marked id alive).1 inside)
  induction path with
  | here alive =>
      rcases outside a alive with open_ | rooted
      · exact .inr (.seed List.mem_cons_self alive open_)
      · exact .inl rooted
  | step path leave child alive ih =>
      rcases ih with rooted | enters
      · exact .inl (rooted.trans (.step (.here path.alive_last) leave child alive))
      · rcases outside _ alive with open_ | rooted
        · exact .inr (.child enters leave child alive open_)
        · exact .inl rooted

/-- The slots of the live proxies. -/
def proxySlots (h : Heap) (imports : Imports) : Assoc ObjectId ImportKey :=
  Assoc.ofList ((imports.liveProxies h).map fun e => (e.2, e.1))

theorem find?_proxySlots {p : ObjectId} {j : ImportKey}
    (found : (proxySlots h imports).find? p = some j) : imports.proxy? h j = some p := by
  obtain ⟨e, listed, same⟩ := List.mem_map.1 (Assoc.mem_of_find?_ofList found)
  cases same
  exact Imports.proxy?_eq_some_iff.2 (Imports.mem_liveProxies.1 listed)

theorem exists_find?_proxySlots {p : ObjectId} {j : ImportKey}
    (found : imports.proxy? h j = some p) : ∃ i, (proxySlots h imports).find? p = some i := by
  apply Option.isSome_iff_exists.1
  apply Assoc.isSome_find?_foldl_insert
  have listed := Imports.mem_liveProxies.2 (Imports.proxy?_eq_some_iff.1 found)
  exact .inl (List.mem_map.2 ⟨(p, j), List.mem_map.2 ⟨(j, p), listed, rfl⟩, rfl⟩)

/-- No proxy is in two slots. -/
def Apart (h : Heap) (imports : Imports) : Prop :=
  ∀ i j p, imports.proxy? h i = some p → imports.proxy? h j = some p → i = j

theorem apart_of_nodup (nodup : ((imports.liveProxies h).map Prod.snd).Nodup) :
    Apart h imports := by
  intro i j p first second
  have here := Imports.mem_liveProxies.2 (Imports.proxy?_eq_some_iff.1 first)
  have there := Imports.mem_liveProxies.2 (Imports.proxy?_eq_some_iff.1 second)
  exact congrArg Prod.fst (List.inj_on_of_nodup_map nodup here there rfl)

theorem find?_proxySlots_iff (apart : Apart h imports) {p : ObjectId} {j : ImportKey} :
    (proxySlots h imports).find? p = some j ↔ imports.proxy? h j = some p := by
  have listed : ∀ i, (p, i) ∈ (imports.liveProxies h).map (fun e => (e.2, e.1)) ↔
      imports.proxy? h i = some p := by
    intro i
    rw [Imports.proxy?_eq_some_iff, ← Imports.mem_liveProxies]
    constructor
    · intro member
      obtain ⟨e, listed, same⟩ := List.mem_map.1 member
      cases same
      exact listed
    · intro listed
      exact List.mem_map.2 ⟨(i, p), listed, rfl⟩
  refine ⟨find?_proxySlots, fun found => ?_⟩
  refine (Assoc.find?_ofList fun i member => ?_).2 ((listed j).2 found)
  exact apart i j p ((listed i).1 member) found

/-- What the walk from an exported object finds. -/
def Found (h : Heap) (exports : Exports) (imports : Imports) (o : BuildOptions) (k : ExportKey)
    (j : ImportKey) : Prop :=
  ∃ a p, exports.entry? k = some (.live a) ∧ (proxySlots h imports).find? p = some j ∧
    Survey.Enters h (some o.opaqueClass) (rootWalk h o).marks.marks [a] p

theorem enters_iff {a p : ObjectId} :
    Survey.Enters h (some o.opaqueClass) (rootWalk h o).marks.marks [a] p ↔
      h.Path (some o.opaqueClass) a p ∧ ¬ h.Rooted (some o.opaqueClass) p := by
  constructor
  · intro enters
    obtain ⟨seed, one, path⟩ := enters.path
    cases List.mem_singleton.1 one
    refine ⟨path, fun rooted => ?_⟩
    have marked := (contains_rootWalk enters.alive).2 rooted
    rw [enters.open_] at marked
    cases marked
  · rintro ⟨path, loose⟩
    exact (rooted_or_enters (fun _ => contains_rootWalk) path).resolve_left loose

/-- An exported object reaches the proxy in an imported slot, and the roots do not. -/
def Bears (c : ObjectClass) (h : Heap) (exports : Exports) (imports : Imports) (k : ExportKey)
    (j : ImportKey) : Prop :=
  ∃ a p, exports.entry? k = some (.live a) ∧ imports.proxy? h j = some p ∧
    h.Path (some c) a p ∧ ¬ h.Rooted (some c) p

theorem found_iff (apart : Apart h imports) {k : ExportKey} {j : ImportKey} :
    Found h exports imports o k j ↔ Bears o.opaqueClass h exports imports k j := by
  unfold Found Bears
  simp only [find?_proxySlots_iff apart, enters_iff]

/-- The imported slots behind the roots. -/
def rootSlots (h : Heap) (imports : Imports) (o : BuildOptions) : List ImportKey :=
  ((imports.liveProxies h).filter fun e =>
    (rootWalk h o).marks.marks.contains e.2.slot).map Prod.fst

theorem mem_rootSlots {j : ImportKey} : j ∈ rootSlots h imports o ↔
    ∃ p, imports.proxy? h j = some p ∧ h.Rooted (some o.opaqueClass) p := by
  simp only [rootSlots, List.mem_map, List.mem_filter, Prod.exists, exists_and_right,
    exists_eq_right, Imports.mem_liveProxies, ← Imports.proxy?_eq_some_iff]
  constructor
  · rintro ⟨p, found, marked⟩
    have alive := (Imports.proxy?_eq_some_iff.1 found).2
    exact ⟨p, found, (contains_rootWalk alive).1 marked⟩
  · rintro ⟨p, found, rooted⟩
    have alive := (Imports.proxy?_eq_some_iff.1 found).2
    exact ⟨p, found, (contains_rootWalk alive).2 rooted⟩

/-- A list that holds what the walk from an exported object finds, each slot once. -/
def FoundList (h : Heap) (exports : Exports) (imports : Imports) (o : BuildOptions)
    (k : ExportKey) (js : List ImportKey) : Prop :=
  js.Nodup ∧ ∀ j, j ∈ js ↔ Found h exports imports o k j

/-- The walks share a queue, which is empty before and after each of them. -/
theorem addExport_spec {d : Draft} (empty : d.queue.toList = []) {e : ExportKey × ObjectId}
    (member : e ∈ exports.liveObjects) :
    (d.addExport h o.opaqueClass (rootWalk h o).marks.marks (proxySlots h imports) e).queue.toList =
      [] ∧
    ∃ js, (d.addExport h o.opaqueClass (rootWalk h o).marks.marks (proxySlots h imports) e).graph =
      d.graph.insert e.1 js ∧ FoundList h exports imports o e.1 js := by
  obtain ⟨k, a⟩ := e
  have live := Exports.mem_liveObjects.1 member
  have fresh : Survey.Fresh { queue := d.queue, marks := { marks := .withRoom h.capacity } } :=
    Survey.fresh_withRoom empty h.capacity
  refine ⟨Walk.toList_queue_drain _, _, rfl, ?_, fun j => ?_⟩
  · -- a slot has one proxy, so that proxies met once give slots listed once
    apply (Survey.nodup_found_run fresh).filterMap
    intro p q j first second
    have same := (find?_proxySlots first).symm.trans (find?_proxySlots second)
    exact Option.some.inj same
  · rw [List.mem_filterMap]
    constructor
    · rintro ⟨p, found, key⟩
      exact ⟨a, p, live, key, (Survey.mem_found_run fresh).1 found⟩
    · rintro ⟨a', p, live', key, enters⟩
      rw [live] at live'
      cases live'
      exact ⟨p, (Survey.mem_found_run fresh).2 enters, key⟩

theorem entered_exact (h : Heap) (exports : Exports) (imports : Imports) (o : BuildOptions) :
    Entered (FoundList h exports imports o) (rootSlots h imports o)
      (exports.liveObjects.map Prod.fst) (exact h exports imports o).answer :=
  entered_foldl Draft.graph
    (Draft.addExport h o.opaqueClass (rootWalk h o).marks.marks (proxySlots h imports))
    (fun d => d.queue.toList = [])
    (d := { graph := { root := rootSlots h imports o }, queue := (rootWalk h o).queue })
    (fun _ _ member empty => addExport_spec empty member) (Walk.toList_queue_drain _)
    (entered_start (rootSlots h imports o))

theorem exact_spec (h : Heap) (exports : Exports) (imports : Imports) (o : BuildOptions) :
    (exact h exports imports o).answer.root = rootSlots h imports o ∧
      Lists (Found h exports imports o) (exports.liveObjects.map Prod.fst)
        (exact h exports imports o).answer := by
  have entered := entered_exact h exports imports o
  exact ⟨entered.root, entered.lists fun _ _ shape => shape.2⟩

theorem mem_root_exact {j : ImportKey} : j ∈ (exact h exports imports o).answer.root ↔
    ∃ p, imports.proxy? h j = some p ∧ h.Rooted (some o.opaqueClass) p := by
  rw [(exact_spec h exports imports o).1, mem_rootSlots]

theorem ascending_rootSlots (h : Heap) (imports : Imports) (o : BuildOptions) :
    Rows.Ascending (rootSlots h imports o) :=
  (Imports.ascending_liveProxies imports h).sublist (List.Sublist.map Prod.fst List.filter_sublist)

theorem shows_exact (h : Heap) (exports : Exports) (imports : Imports) (o : BuildOptions) :
    (exact h exports imports o).answer.Shows
      (fun j => ∃ p, imports.proxy? h j = some p ∧ h.Rooted (some o.opaqueClass) p)
      (Found h exports imports o) := by
  refine (entered_exact h exports imports o).shows (fun _ => mem_rootSlots)
    (ascending_rootSlots h imports o) exports.ascending_liveObjects ?_ fun _ _ _ shape => shape
  rintro k j ⟨a, p, live, -⟩
  exact Exports.mem_map_fst_liveObjects.2 ⟨a, live⟩

theorem named_exact (h : Heap) (exports : Exports) (imports : Imports) (o : BuildOptions) :
    Named h exports imports (exact h exports imports o).answer where
  root := fun j member => by
    obtain ⟨p, found, -⟩ := mem_root_exact.1 member
    exact ⟨p, found⟩
  edge := fun k js found => by
    obtain ⟨member, all⟩ := (exact_spec h exports imports o).2.sound k js found
    refine ⟨Exports.mem_map_fst_liveObjects.1 member, fun j member => ?_⟩
    obtain ⟨a, p, -, key, -⟩ := all j member
    exact ⟨p, find?_proxySlots key⟩

theorem covering_exact (apart : Apart h imports) (exports : Exports) (o : BuildOptions) :
    Covering o.opaqueClass h exports imports (exact h exports imports o).answer where
  root := fun j p found rooted => mem_root_exact.2 ⟨p, found, rooted⟩
  edge := fun k a j p live found path => by
    rcases rooted_or_enters (fun _ => contains_rootWalk) path with rooted | enters
    · exact .inl (mem_root_exact.2 ⟨p, found, rooted⟩)
    · refine .inr ((exact_spec h exports imports o).2.complete k j ?_ ?_)
      · exact Exports.mem_map_fst_liveObjects.2 ⟨a, live⟩
      · exact ⟨a, p, live, (find?_proxySlots_iff apart).2 found, enters⟩

theorem faithful_exact (h : Heap) (exports : Exports) (imports : Imports) (o : BuildOptions) :
    Faithful o.opaqueClass h exports imports (exact h exports imports o).answer where
  root := fun j member => mem_root_exact.1 member
  edge := fun k js found j member => by
    obtain ⟨-, all⟩ := (exact_spec h exports imports o).2.sound k js found
    obtain ⟨a, p, live, key, enters⟩ := all j member
    obtain ⟨seed, one, path⟩ := enters.path
    cases List.mem_singleton.1 one
    exact ⟨a, p, live, find?_proxySlots key, path⟩

theorem answer_build {mode : GraphMode} (room : demand mode h o = .ok ()) (exports : Exports)
    (imports : Imports) :
    (build mode h exports imports o).answer = .ok (ofMode mode h exports imports o).answer := by
  rw [build, room]

/-- The exact graph is built whenever there can be arrays for it. Its root is what the roots reach,
and its edges are what the exported objects reach beyond that. -/
theorem build_exact_shows (apart : Apart h imports) (exports : Exports)
    (room : demand .exact h o = .ok ()) :
    ∃ g, (build .exact h exports imports o).answer = .ok g ∧
      g.Shows (fun j => ∃ p, imports.proxy? h j = some p ∧ h.Rooted (some o.opaqueClass) p)
        (Bears o.opaqueClass h exports imports) ∧
      ∀ k js, g.successors? k = some js → ∀ j ∈ js, j ∉ g.root := by
  have shown := shows_exact h exports imports o
  have same : Found h exports imports o = Bears o.opaqueClass h exports imports := by
    funext k j
    exact propext (found_iff apart)
  rw [same] at shown
  refine ⟨_, answer_build room exports imports, shown, ?_⟩
  intro k js found j member root
  obtain ⟨a, p, -, proxy, -, loose⟩ := ((shown.successors k js found).2 j).1 member
  obtain ⟨q, proxy', rooted⟩ := (shown.root j).1 root
  rw [proxy] at proxy'
  cases proxy'
  exact loose rooted

/-- Two exported objects that refer to each other. The first has the proxy of slot 0, the second
has an exported root with the proxy of slot 1. -/
def knotHeap : Heap where
  cells := #[
    { occupant := some (.proxy ⟨0⟩) },
    { occupant := some (.proxy ⟨1⟩) },
    { occupant := some (.plain .ordinary [.ref ⟨0, 0⟩, .ref ⟨3, 0⟩]) },
    { occupant := some (.plain .ordinary [.ref ⟨2, 0⟩, .ref ⟨4, 0⟩]) },
    { occupant := some (.plain .ordinary [.ref ⟨1, 0⟩]) }]
  roots := #[some ⟨4, 0⟩]
  live := 5

def knotExports : Exports where
  rows := ⟨#[.live ⟨2, 0⟩, .live ⟨3, 0⟩, .live ⟨4, 0⟩]⟩

def knotImports : Imports where
  rows := ⟨#[.weak ⟨0, 0⟩, .weak ⟨1, 0⟩]⟩

def knotOptions : BuildOptions := { queueCapacity := 2 }

/-- What each object of the knot bears is slot 0. Slot 1 is in the root, so that nothing bears it. -/
theorem build_exact_shows_knot :
    demand .exact knotHeap knotOptions = .ok () ∧ Apart knotHeap knotImports ∧
    ∃ g, (build .exact knotHeap knotExports knotImports knotOptions).answer = .ok g ∧
      g.root = [⟨1⟩] ∧ g.successors? ⟨0⟩ = some [⟨0⟩] ∧ g.successors? ⟨1⟩ = some [⟨0⟩] ∧
      g.successors? ⟨2⟩ = none ∧
      (∃ p, knotImports.proxy? knotHeap ⟨1⟩ = some p ∧ knotHeap.Rooted (some .hidden) p) ∧
      (Bears .hidden knotHeap knotExports knotImports ⟨0⟩ ⟨0⟩ ∧
        Bears .hidden knotHeap knotExports knotImports ⟨1⟩ ⟨0⟩) ∧
      ∀ j, ¬ Bears .hidden knotHeap knotExports knotImports ⟨2⟩ j := by
  have apart : Apart knotHeap knotImports := apart_of_nodup (by decide)
  obtain ⟨g, built, shows, -⟩ := build_exact_shows (o := knotOptions) apart knotExports rfl
  have computed : (build .exact knotHeap knotExports knotImports knotOptions).answer.toOption.map
      (fun g => (g.root, g.successors? ⟨0⟩, g.successors? ⟨1⟩, g.successors? ⟨2⟩)) =
        some ([⟨1⟩], some [⟨0⟩], some [⟨0⟩], none) := by
    decide +kernel
  simp only [built, Except.toOption, Option.map_some, Option.some.injEq, Prod.mk.injEq] at computed
  obtain ⟨root, zero, one, two⟩ := computed
  refine ⟨rfl, apart, g, built, root, zero, one, two,
    (shows.root ⟨1⟩).1 (root ▸ List.mem_cons_self),
    ⟨shows.listed.1 ⟨[⟨0⟩], zero, List.mem_cons_self⟩,
      shows.listed.1 ⟨[⟨0⟩], one, List.mem_cons_self⟩⟩, fun j bears => ?_⟩
  obtain ⟨js, found, -⟩ := shows.listed.2 bears
  cases two.symm.trans found

end EdgeGraph

end TwinHeap
