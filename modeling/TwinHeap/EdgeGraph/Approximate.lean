import TwinHeap.EdgeGraph.Exact
import TwinHeap.Marking.BloomFilter

/-! The approximate edge graph: every object gathers a filter of the exported slots that reach it.
The roots contribute the sticky filter, so that a sticky object is one that they reach. A filter
never loses bits, so no edge is missed, while a crowded filter can add some. -/
namespace TwinHeap

namespace FilterTable

/-- Passes filters along references: an object met from outside gets `seed`, a child gets what its
parent has. Objects are new again whenever their filter grows. -/
def visit (seed : BloomFilter) (parent : Option ObjectId) (id : ObjectId) (t : FilterTable) :
    Bool × FilterTable :=
  match parent with
  | none => t.merge id.slot seed
  | some p => t.merge id.slot (t.get p.slot)

/-- The number of filter bits that are not set. -/
def room (h : Heap) (t : FilterTable) : Nat := t.clearBits h.capacity

theorem room_merge (h : Heap) (t : FilterTable) (f : BloomFilter) {id : ObjectId}
    (alive : h.isAlive id = true) :
    room h (t.merge id.slot f).2 + (t.merge id.slot f).1.toNat ≤ room h t := by
  unfold room
  cases hg : (t.merge id.slot f).1
  · exact t.clearBits_merge_le id.slot h.capacity f
  · have := clearBits_merge_lt (Heap.isAlive_slot alive) hg
    simp only [Bool.toNat_true]
    omega

theorem room_visit (h : Heap) (seed : BloomFilter) (parent : Option ObjectId) (id : ObjectId)
    (t : FilterTable) (alive : h.isAlive id = true) :
    room h (visit seed parent id t).2 + (visit seed parent id t).1.toNat ≤ room h t := by
  cases parent with
  | none => exact room_merge h t seed alive
  | some p => exact room_merge h t (t.get p.slot) alive

def visitor (h : Heap) (seed : BloomFilter) : Visitor h FilterTable :=
  { visit := visit seed, room := room h, room_visit := room_visit h seed }

/-- Spreads the sticky filter from the roots, and then the filters of the exported objects
together. -/
def spread (h : Heap) (exports : Exports) (o : BuildOptions) : Walk FilterTable :=
  let roots := Walk.run (visitor h .sticky) (some o.opaqueClass) h.rootIds
    (Walk.start o.queueCapacity (.withRoom h.capacity))
  let seeded := exports.liveObjects.foldl (fun w e =>
    let own := BloomFilter.singleton (UInt64.ofNat e.1.number) o.bloomSeed
    Walk.meet (visitor h own) (some o.opaqueClass) none w e.2) roots
  Walk.drain (visitor h .empty) (some o.opaqueClass) seeded

end FilterTable

namespace EdgeGraph

/-- Covers the exact graph. Successors are in the order of their slots. -/
def approximate (h : Heap) (exports : Exports) (imports : Imports) (o : BuildOptions) :
    Noted EdgeGraph :=
  let w := FilterTable.spread h exports o
  let filtered := (imports.liveProxies h).map fun e => (e.1, w.marks.get e.2.slot)
  let root := (filtered.filter fun e => e.2.isSticky).map Prod.fst
  let candidates := filtered.filter fun e => !e.2.isSticky && !e.2.isEmpty
  let graph := exports.liveObjects.foldl (fun g e =>
    let own := BloomFilter.singleton (UInt64.ofNat e.1.number) o.bloomSeed
    g.insert e.1 ((candidates.filter fun c => c.2.includes own).map Prod.fst))
    { root }
  { answer := graph
    notices :=
      Ring.growths (max o.queueCapacity 2) w.queue.capacity ++ [graph.builtNotice .approximate] }

/-- Asks for the arrays that a mode needs. A filter takes up eight bytes. -/
def demand (mode : GraphMode) (h : Heap) (o : BuildOptions) : Except Fault Unit :=
  match mode with
  | .exact => Ring.demand o.queueCapacity
  | .approximate =>
    (Capacity.reserve (o.room?.getD h.capacity) 8).bind fun _ => Ring.demand o.queueCapacity

/-- The graph that a mode asks for. -/
def ofMode (mode : GraphMode) (h : Heap) (exports : Exports) (imports : Imports)
    (o : BuildOptions) : Noted EdgeGraph :=
  match mode with
  | .exact => exact h exports imports o
  | .approximate => approximate h exports imports o

/-- Builds the graph that a mode asks for, if there can be arrays for it. -/
def build (mode : GraphMode) (h : Heap) (exports : Exports) (imports : Imports)
    (o : BuildOptions) : Noted (Except Fault EdgeGraph) :=
  match demand mode h o with
  | .error f => { answer := .error f }
  | .ok _ =>
    let built := ofMode mode h exports imports o
    { answer := .ok built.answer, notices := built.notices }

end EdgeGraph

end TwinHeap
