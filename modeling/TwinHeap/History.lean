import TwinHeap.Bridge

/-! Histories of a bridge: the programs at its ends work on their heaps and send values, and cycles
are run. The tables change only as a consequence. -/
namespace TwinHeap

/-- What a program does with its own heap. Proxies are not made this way. -/
inductive Mutation where
  | alloc (cls : ObjectClass) (fields : List Value)
  | allocWeak (target : ObjectId)
  | setField (id : ObjectId) (n : Nat) (v : Value)
  | pushField (id : ObjectId) (v : Value)
  | addRoot (id : ObjectId)
  | setRoot (r : RootHandle) (id : Option ObjectId)
  | removeRoot (r : RootHandle)
  deriving DecidableEq

/-- What is refused changes nothing. -/
def Heap.mutate (h : Heap) : Mutation → Heap
  | .alloc cls fields => (h.alloc (.plain cls fields)).state
  | .allocWeak target => (h.alloc (.weak target)).state
  | .setField id n v => (h.setField id n v).toOption.getD h
  | .pushField id v => (h.pushField id v).toOption.getD h
  | .addRoot id => (h.addRoot id).2
  | .setRoot r id => h.setRoot r id
  | .removeRoot r => h.removeRoot r

inductive BridgeEvent where
  | mutate (e : BridgeEnd) (m : Mutation)
  | nativeCollect (e : BridgeEnd)
  /-- Times are given by the caller and need not ascend. -/
  | send (e : BridgeEnd) (v : Value) (now : Nat)
  | collect
  | scavenge
  deriving DecidableEq

namespace Bridge

/-- The state after one event, whatever it answers. -/
def update (b : Bridge) : BridgeEvent → Bridge
  | .mutate e m =>
    let s := b.side e
    b.setSide { s with heap := s.heap.mutate m } e
  | .nativeCollect e => b.setSide (b.side e).nativeCollect.state e
  | .send e v now => (b.send e v now).state
  | .collect => b.collect.state
  | .scavenge => b.scavenge.state

def history : Bridge → List BridgeEvent → Bridge
  | b, [] => b
  | b, event :: rest => history (b.update event) rest

theorem history_append (b : Bridge) (first rest : List BridgeEvent) :
    b.history (first ++ rest) = (b.history first).history rest := by
  induction first generalizing b with
  | nil => rfl
  | cons event first ih => exact ih (b.update event)

end Bridge

end TwinHeap
