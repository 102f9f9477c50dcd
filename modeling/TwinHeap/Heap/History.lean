import TwinHeap.History

/-! Histories of a heap on its own. Unlike a program, its caller can make and alter objects of every
kind. -/
namespace TwinHeap

inductive HeapEvent where
  | mutate (m : Mutation)
  | alloc (o : Object)
  | overwrite (id : ObjectId) (o : Object)
  | collect (extra : List ObjectId)
  deriving DecidableEq

namespace Heap

/-- Gives a live object any content. -/
def overwrite (h : Heap) (id : ObjectId) (o : Object) : Heap :=
  if h.isAlive id then h.put id.slot o else h

/-- The state after one event, whatever it answers. -/
def update (h : Heap) : HeapEvent → Heap
  | .mutate m => h.mutate m
  | .alloc o => (h.alloc o).state
  | .overwrite id o => h.overwrite id o
  | .collect extra => (h.collect extra).state

def history : Heap → List HeapEvent → Heap
  | h, [] => h
  | h, event :: rest => history (h.update event) rest

theorem history_append (h : Heap) (first rest : List HeapEvent) :
    h.history (first ++ rest) = (h.history first).history rest := by
  induction first generalizing h with
  | nil => rfl
  | cons event first ih => exact ih (h.update event)

end Heap

end TwinHeap
