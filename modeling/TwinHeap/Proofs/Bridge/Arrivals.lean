import TwinHeap.Proofs.Bridge.Lasting
import TwinHeap.Proofs.Bridge.RootedSlots
import TwinHeap.Proofs.Side.Rooting

/-! What becomes of a value while the work that is due on its call is done. The value is a root of its
side for that time, so that neither the collectors nor the release of dead references take from it what
it needs to cross. -/
namespace TwinHeap

namespace Heap

variable {h h' : Heap} {x : ObjectId}

end Heap

namespace Side

variable {s : Side} {k : ImportKey} {x : ObjectId}

theorem remoteKey?_nativeCollect (alive : s.nativeCollect.state.heap.isAlive x = true) :
    s.heap.isAlive x = true ∧ s.nativeCollect.state.remoteKey? x = s.remoteKey? x := by
  have kept : s.nativeCollect.state.heap.get? x = s.heap.get? x := by
    have swept := Heap.get?_sweep (h := s.heap) (s.heap.marks (s.exports.liveObjects.map Prod.snd)) x
    refine swept.trans (if_pos ?_)
    by_contra unmarked
    rw [if_neg unmarked] at swept
    have gone : s.nativeCollect.state.heap.get? x = none := swept
    rw [Heap.isAlive, gone] at alive
    cases alive
  constructor
  · rw [Heap.isAlive, ← kept]
    exact alive
  · simp only [remoteKey?, Heap.proxy?, kept]

theorem remoteKey?_recast {s' : Side} (recast : s.heap.Recast s'.heap) (x : ObjectId) :
    s'.remoteKey? x = s.remoteKey? x := recast.key x

end Side

namespace Manager.Manages

variable {s s' : Side} {g : IncomingGraph} {forced : Bool} {x : ObjectId}

/-- What is alive after a run was alive before it, and proxies keep their slots. -/
theorem remoteKey? (manages : Manages s g forced s') (alive : s'.heap.isAlive x = true) :
    s.heap.isAlive x = true ∧ s'.remoteKey? x = s.remoteKey? x := by
  cases manages with
  | @repairFirst s₁ s₂ repairs _ severed =>
      have recast := repairs.heap.trans severed.heap
      exact ⟨(recast.isAlive x).symm.trans alive, Side.remoteKey?_recast recast x⟩
  | @severFirst s₁ _ severed repairs =>
      have swept : s₁.nativeCollect.state.heap.isAlive x = true :=
        (repairs.heap.isAlive x).symm.trans alive
      obtain ⟨before, key⟩ := Side.remoteKey?_nativeCollect swept
      refine ⟨(severed.heap.isAlive x).symm.trans before, ?_⟩
      exact (Side.remoteKey?_recast repairs.heap x).trans
        (key.trans (Side.remoteKey?_recast severed.heap x))

end Manager.Manages

namespace Bridge

variable {b : Bridge} {e : BridgeEnd} {v : Value} {o p x : ObjectId} {k : ExportKey} {now : Nat}

theorem lasting_rootable (forced : Bool) :
    Side.Lasting forced (fun _ _ => True) fun s => s.heap.Rootable where
  mutate := fun _ m _ rootable => Heap.rootable_mutate rootable m
  tidied := fun _ _ _ rootable => rootable
  encode := fun s v _ rootable => (s.keepsRoots_encode v).rootable rootable
  decode := fun s parcel _ _ rootable => (s.keepsRoots_decode parcel).rootable rootable
  nativeCollect := fun s _ rootable => s.keepsRoots_nativeCollect.rootable rootable
  manage := fun s m text _ _ rootable => (s.keepsRoots_collectText m forced text).rootable rootable

theorem rootable_history {settings : Settings} (fresh : Bridge.new settings = .ok b)
    (events : List BridgeEvent) : (b.history events).Everywhere fun s => s.heap.Rootable := by
  have empty : b.Everywhere fun s => s.heap.Rootable := by
    cases eq_opened fresh
    intro e n member
    cases e <;> cases member
  exact everywhere_history (lasting_rootable _) (sound_new fresh) rfl empty
    fun _ event _ _ => spares_of_forall (fun _ _ => trivial) event

section Work

/-- The bridge with the value rooted and dead references released, when a cycle may be run. -/
def pinned (b : Bridge) (e : BridgeEnd) (v : Value) (now : Nat) : Bridge :=
  (b.pin e v).2.cleared now

end Work

section Cross

end Cross

end Bridge

end TwinHeap
