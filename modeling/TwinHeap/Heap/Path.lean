import TwinHeap.Heap

/-! What it means that one object reaches another, said without any walk. -/
namespace TwinHeap

/-- A chain of strong references from one live object to another. Every object on it but the last
is of another class than the opaque one, if there is one; an opaque object ends the chain. -/
inductive Heap.Path (h : Heap) (opaqueClass : Option ObjectClass) : ObjectId → ObjectId → Prop where
  | here {a : ObjectId} (alive : h.isAlive a = true) : Path h opaqueClass a a
  | step {a b c : ObjectId} (path : Path h opaqueClass a b) (clear : h.classOf? b ≠ opaqueClass)
      (child : c ∈ h.children b) (alive : h.isAlive c = true) : Path h opaqueClass a c

namespace Heap.Path

variable {h : Heap} {opaqueClass : Option ObjectClass} {a b c : ObjectId}

theorem alive_first (p : h.Path opaqueClass a b) : h.isAlive a = true := by
  induction p with
  | here alive => exact alive
  | step _ _ _ _ ih => exact ih

theorem alive_last (p : h.Path opaqueClass a b) : h.isAlive b = true := by
  cases p with
  | here alive => exact alive
  | step _ _ _ alive => exact alive

/-- Chains join where the first one may go on. -/
theorem trans (p : h.Path opaqueClass a b) (q : h.Path opaqueClass b c) : h.Path opaqueClass a c := by
  induction q with
  | here => exact p
  | step _ clear child alive ih => exact .step ih clear child alive

end Heap.Path

/-- Some live root reaches the object. -/
def Heap.Rooted (h : Heap) (opaqueClass : Option ObjectClass) (id : ObjectId) : Prop :=
  ∃ root ∈ h.rootIds, h.Path opaqueClass root id

theorem Heap.Rooted.trans {h : Heap} {opaqueClass : Option ObjectClass} {a b : ObjectId}
    (rooted : h.Rooted opaqueClass a) (path : h.Path opaqueClass a b) : h.Rooted opaqueClass b := by
  obtain ⟨root, member, first⟩ := rooted
  exact ⟨root, member, first.trans path⟩

end TwinHeap
