import TwinHeap.Marking.Walk

/-! The native collector of one heap: it keeps what the roots reach and empties every other cell. -/
namespace TwinHeap

/-- How many objects a collection kept and how many it removed. -/
structure Sweep where
  marked : Nat
  freed : Nat
  deriving DecidableEq

/-- An emptied cell moves on to its next generation. -/
def Cell.sweep (c : Cell) (marked : Bool) : Cell :=
  if c.occupant.isSome && !marked then { generation := c.generation + 1, occupant := none } else c

namespace Heap

/-- The slots reached from the roots and from `extra`. Objects of every class are looked into. -/
def marks (h : Heap) (extra : List ObjectId) : SlotSet :=
  (Walk.run (Survey.visitor h {}) none (h.rootIds ++ extra)
    (Walk.start 0 { marks := .withRoom h.capacity })).marks.marks

/-- The slots of the objects that are not in `marks`, in ascending order. -/
def unmarked (h : Heap) (marks : SlotSet) : List Nat :=
  h.cells.toList.zipIdx.filterMap fun (c, slot) =>
    if c.occupant.isSome && !marks.contains slot then some slot else none

/-- The number of objects that are in `marks`. -/
def survivors (h : Heap) (marks : SlotSet) : Nat :=
  h.cells.toList.zipIdx.countP fun (c, slot) => c.occupant.isSome && marks.contains slot

/-- Empties the cells of all objects outside `marks`. The last cell emptied is the first reused. -/
def sweep (h : Heap) (marks : SlotSet) : Sweep × Heap :=
  let dead := h.unmarked marks
  ({ marked := h.survivors marks, freed := dead.length },
    { h with
      cells := h.cells.mapIdx fun slot c => c.sweep (marks.contains slot)
      free := dead.reverse ++ h.free
      live := h.live - dead.length })

/-- Dead names in `extra` are ignored. -/
def collect (h : Heap) (extra : List ObjectId) : Outcome Heap Sweep :=
  let (result, swept) := h.sweep (h.marks extra)
  { state := swept, answer := result, notices := [.swept result.marked result.freed] }

end Heap

end TwinHeap
