import TwinHeap.Proofs.Bridge.Lasting
import TwinHeap.Proofs.Bridge.Referents
import TwinHeap.Proofs.Side.Filing

/-! The tables of a bridge are regular in every state. Each operation looks after one part of an export
table and relies on the others for the rest: a slot is restored without a look at the other slots, and
without a look at the lists. -/
namespace TwinHeap.Bridge

variable {b : Bridge}

theorem lasting_exclusive (forced : Bool) :
    Side.Lasting forced (fun _ _ => True) Side.Exclusive where
  mutate := fun _ m sound exclusive =>
    Side.exclusive_of_aged (Heap.aged_mutate sound.heap m) exclusive
  tidied := fun _ keys sound exclusive => Side.exclusive_tidied sound exclusive keys
  encode := fun _ v sound exclusive => Side.exclusive_encode sound exclusive v
  decode := fun _ parcel sound _ exclusive => Side.exclusive_decode sound exclusive parcel
  nativeCollect := fun _ sound exclusive => Side.exclusive_nativeCollect sound exclusive
  manage := fun _ m text sound bare exclusive =>
    Side.exclusive_collectText sound exclusive m forced text bare

theorem exclusive_new {settings : Settings} (fresh : Bridge.new settings = .ok b) :
    b.Everywhere Side.Exclusive := by
  have empty : Exports.Exclusive {} fun _ _ => False :=
    Exports.filed_empty.exclusive (fun _ => rfl) fun _ _ => id
  cases eq_opened fresh
  intro e
  cases e with
  | near => exact empty.mono fun _ _ ⟨_, _, _, proxy, _⟩ => nomatch proxy
  | far => exact empty.mono fun _ _ ⟨_, _, _, proxy, _⟩ => nomatch proxy

theorem exclusive_history {settings : Settings} (fresh : Bridge.new settings = .ok b)
    (events : List BridgeEvent) : (b.history events).Everywhere Side.Exclusive :=
  everywhere_history (lasting_exclusive _) (sound_new fresh) rfl (exclusive_new fresh)
    fun _ event _ _ => spares_of_forall (fun _ _ => trivial) event

/-- In every state of every history, on both sides: an object has its place in the slot that holds it
and in no other, the free slots are listed once, and proxies and import slots belong together. -/
theorem tables_regular {settings : Settings} {start : Bridge} {events : List BridgeEvent}
    (fresh : Bridge.new settings = .ok start) (unwrapped : start.Unwrapped events) (e : BridgeEnd) :
    ((start.history events).side e).Regular := by
  have sound := sound_history (sound_new fresh) events
  have current := current_history (sound_new fresh) (ascends_of_unwrapped fresh unwrapped)
    (current_new fresh)
  exact (exclusive_history fresh events e).regular (sound.side e) (current e)

/-- Slot 0 of the far side is severed and then released, so that it is in quarantine when its object is
sent again. -/
def quarantinedSlot : List BridgeEvent :=
  [.mutate .far (.alloc .ordinary []), .mutate .far (.addRoot ⟨0, 0⟩), .send .far (.ref ⟨0, 0⟩) 0,
    .mutate .far (.alloc .ordinary []), .mutate .far (.addRoot ⟨1, 0⟩), .send .far (.ref ⟨1, 0⟩) 0,
    .mutate .near (.addRoot ⟨1, 0⟩), .collect, .nativeCollect .near, .scavenge,
    .send .far (.ref ⟨0, 0⟩) 0]

theorem tables_regular_quarantined :
    ((opened byHand).history quarantinedSlot).far.exports.keyOf? ⟨0, 0⟩ = some ⟨2⟩ ∧
      (((opened byHand).history quarantinedSlot).far.exports.free ++
        ((opened byHand).history quarantinedSlot).far.exports.quarantine).count ⟨0⟩ = 1 := by
  have unwrapped : (opened byHand).Unwrapped quarantinedSlot := unwrapped_of_length (by decide) _
  have regular := @tables_regular byHand (opened byHand) quarantinedSlot (new_opened rfl) unwrapped .far
  exact ⟨(regular.place ⟨0, 0⟩ ⟨2⟩).2 (by decide +kernel),
    (regular.vacant ⟨0⟩).trans (if_pos (by decide +kernel))⟩

end TwinHeap.Bridge
