import TwinHeap.Proofs.Bridge.CycleSafety
import TwinHeap.Proofs.Bridge.StrandedSlots

/-! A forced cycle with an exact graph frees everything that is not reachable across both heaps, cycles
through the bridge included. One release of dead references, one native collection of the near side
and another release then do the same for the near side and for both tables. What they do not get rid
of is a stranded slot, and what such a slot of the near side holds. -/
namespace TwinHeap.Bridge

variable {b : Bridge} {e : BridgeEnd} {p x : ObjectId} {k : ExportKey} {s s' : Side}

/-- A stranded slot of the near side leads to the object. -/
def Lingers (b : Bridge) (x : ObjectId) : Prop :=
  ∃ k a, b.Stranded .near k ∧ b.near.exports.entry? k = some (.live a) ∧ b.near.heap.Path none a x

section Faithful

variable (faithful : EdgeGraph.Faithful .hidden b.near.heap b.near.exports b.near.imports b.outgoing)

include faithful

end Faithful

section Forced

variable {s₁ s₃ : Side} {o : ObjectId}

end Forced

section Cleaned

variable {c : Bridge}

theorem Lingers.child (lingers : b.Lingers p) (child : x ∈ b.near.heap.children p)
    (alive : b.near.heap.isAlive x = true) : b.Lingers x := by
  obtain ⟨k, a, stranded, live, path⟩ := lingers
  refine ⟨k, a, stranded, live, .step path ?_ child alive⟩
  obtain ⟨o, found⟩ := Heap.isAlive_iff.1 path.alive_last
  simp [Heap.classOf?, found]

/-- A release of dead references leaves what lingers where it is. -/
theorem Lingers.held (lingers : c.Lingers x) :
    (c.near.tidied (c.far.deadKeys.map ImportKey.across)).Held x := by
  obtain ⟨k, a, stranded, live, path⟩ := lingers
  have kept : (c.near.tidied (c.far.deadKeys.map ImportKey.across)).exports.entry? k =
      some (.live a) := (Side.entry?_tidied_of_not_mem stranded.not_dead).trans live
  induction path with
  | here alive => exact Side.held_of_live kept alive
  | step _ _ child alive ih => exact ih.child child alive

end Cleaned

end TwinHeap.Bridge
