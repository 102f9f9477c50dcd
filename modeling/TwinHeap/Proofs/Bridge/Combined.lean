import TwinHeap.Proofs.Bridge.Graphs
import TwinHeap.Proofs.Bridge.Referents
import TwinHeap.Proofs.Side.Holding

/-! Reachability across both heaps. A chain may cross from a proxy to the object it stands for any
number of times. -/
namespace TwinHeap

namespace EdgeGraph

/-- A builder of either mode misses nothing. -/
theorem covering_ofMode {h : Heap} {imports : Imports} (apart : Apart h imports) (mode : GraphMode)
    (exports : Exports) (o : BuildOptions) :
    Covering o.opaqueClass h exports imports (ofMode mode h exports imports o).answer := by
  cases mode with
  | exact => exact covering_exact apart exports o
  | approximate => exact covering_approximate h exports imports o

end EdgeGraph

namespace Bridge

variable {b : Bridge} {e : BridgeEnd} {p x : ObjectId} {k : ExportKey}

/-- The object that a slot of the far side stands for: the one it holds, or while it is detached the
one that the record of a proxy names it with. -/
def Offers (b : Bridge) (k : ExportKey) (o : ObjectId) : Prop :=
  b.far.exports.entry? k = some (.live o) ∨
    b.far.exports.entry? k = some .detached ∧ b.far.Recorded k o

/-- Reached from the roots of either heap. Hidden objects of the near side are not left, and neither
are proxies, except for what they stand for. -/
inductive Reached (b : Bridge) : BridgeEnd → ObjectId → Prop where
  | root {e : BridgeEnd} {x : ObjectId} (member : x ∈ (b.side e).heap.rootIds)
      (alive : (b.side e).heap.isAlive x = true) : Reached b e x
  | near {p x : ObjectId} (source : Reached b .near p)
      (leave : b.near.heap.classOf? p ≠ some .hidden) (child : x ∈ b.near.heap.children p)
      (alive : b.near.heap.isAlive x = true) : Reached b .near x
  | far {p x : ObjectId} {c : ObjectClass} {fields : List Value} (source : Reached b .far p)
      (plain : b.far.heap.get? p = some (.plain c fields)) (child : x ∈ b.far.heap.children p)
      (alive : b.far.heap.isAlive x = true) : Reached b .far x
  | out {p o : ObjectId} {j : ImportKey} (source : Reached b .near p)
      (proxy : b.near.imports.entry? j = some (.weak p)) (offered : b.Offers j.across o)
      (alive : b.far.heap.isAlive o = true) : Reached b .far o
  | back {p a : ObjectId} {i : ImportKey} (source : Reached b .far p)
      (proxy : b.far.imports.entry? i = some (.weak p))
      (live : b.near.exports.entry? i.across = some (.live a))
      (alive : b.near.heap.isAlive a = true) : Reached b .near a

theorem Reached.alive (reached : b.Reached e x) : (b.side e).heap.isAlive x = true := by
  cases reached with
  | root _ alive => exact alive
  | near _ _ _ alive => exact alive
  | far _ _ _ alive => exact alive
  | out _ _ _ alive => exact alive
  | back _ _ _ alive => exact alive

theorem mem_roots_incoming : k ∈ b.incoming.roots ↔ k.across ∈ b.outgoing.root :=
  Side.mem_map_across

theorem mem_edges_incoming {i : ImportKey} {ks : List ExportKey} :
    (i, ks) ∈ b.incoming.edges ↔
      ∃ js, b.outgoing.successors? i.across = some js ∧ ks = js.map ImportKey.across := by
  simp only [incoming, List.mem_map, Prod.exists, Prod.mk.injEq, EdgeGraph.mem_edges]
  constructor
  · rintro ⟨n, js, listed, rfl, rfl⟩
    exact ⟨js, listed, rfl⟩
  · rintro ⟨js, listed, rfl⟩
    exact ⟨i.across, js, listed, rfl, rfl⟩

/-- A proxy is never in two slots, since it knows the slot it was made for. -/
theorem apart_near (current : b.Current) : EdgeGraph.Apart b.near.heap b.near.imports := by
  intro i j p first second
  obtain ⟨entryI, alive⟩ := Imports.proxy?_eq_some_iff.1 first
  obtain ⟨entryJ, -⟩ := Imports.proxy?_eq_some_iff.1 second
  have keyI := (current .near).key i p entryI alive
  have keyJ := (current .near).key j p entryJ alive
  exact Option.some.inj (keyI.symm.trans keyJ)

theorem covering_outgoing (current : b.Current) :
    EdgeGraph.Covering .hidden b.near.heap b.near.exports b.near.imports b.outgoing :=
  EdgeGraph.covering_ofMode (apart_near current) b.collector.settings.graphMode b.near.exports
    b.collector.settings.buildOptions

end Bridge

end TwinHeap
