import TwinHeap.EdgeGraph
import TwinHeap.Marking.Walk
import TwinHeap.Table.Exports
import TwinHeap.Table.Imports

/-! The exact edge graph: one walk from the roots, then one walk from each exported object. What the
roots reach is not entered again, since `root` already accounts for it. -/
namespace TwinHeap

/-- The notice that closes the building of a graph. -/
def EdgeGraph.builtNotice (g : EdgeGraph) (mode : GraphMode) : Notice :=
  .graphBuilt mode.name g.rootCount g.edges.size g.edgeCount

namespace EdgeGraph

/-- A graph under construction and the queue that all walks share. -/
structure Draft where
  graph : EdgeGraph
  queue : Ring ObjectId

/-- Walks from one exported object and records the proxies met. -/
def Draft.addExport (h : Heap) (opaqueClass : ObjectClass) (rootMarks : SlotSet)
    (proxies : Assoc ObjectId ImportKey) (d : Draft) (e : ExportKey × ObjectId) : Draft :=
  let w := Walk.run (Survey.visitor h rootMarks) (some opaqueClass) [e.2]
    { queue := d.queue, marks := { marks := .withRoom h.capacity } }
  let successors := w.marks.found.filterMap proxies.find?
  { graph := d.graph.insert e.1 successors, queue := w.queue }

/-- Reports every edge there is and no other. Successors are in the order of discovery. -/
def exact (h : Heap) (exports : Exports) (imports : Imports) (o : BuildOptions) :
    Noted EdgeGraph :=
  let live := imports.liveProxies h
  let proxies := Assoc.ofList (live.map fun e => (e.2, e.1))
  let w := Walk.run (Survey.visitor h {}) (some o.opaqueClass) h.rootIds
    (Walk.start o.queueCapacity { marks := .withRoom h.capacity })
  let rootMarks := w.marks.marks
  let root := (live.filter fun e => rootMarks.contains e.2.slot).map Prod.fst
  let d := exports.liveObjects.foldl (Draft.addExport h o.opaqueClass rootMarks proxies)
    { graph := { root }, queue := w.queue }
  { answer := d.graph
    notices :=
      Ring.growths (max o.queueCapacity 2) d.queue.capacity ++ [d.graph.builtNotice .exact] }

end EdgeGraph

end TwinHeap
