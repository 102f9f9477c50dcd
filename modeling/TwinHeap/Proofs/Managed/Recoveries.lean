import TwinHeap.Proofs.Bridge.Regularity
import TwinHeap.Proofs.Side.Collecting
import TwinHeap.Proofs.Side.Securing

/-! Repair is the inverse of severing while the proxy with the record lives. The slot that was severed may
be exported again, may come home, or may be restored by one record or by all of them, in any order. None
of this gives it to another object, and the object stays alive until the slot has it again. -/
namespace TwinHeap

/-- Only the entries of the table and of the records have to be looked at. -/
theorem Side.anchored_of_entries {s : Side} (sound : s.Sound)
    (live : ∀ e ∈ s.exports.liveObjects, s.heap.isAlive e.2 = true)
    (kept : ∀ e ∈ s.outstanding, s.heap.isAlive e.2 = true) : s.Anchored where
  firm := fun k o entry => live (k, o) (Exports.mem_liveObjects.2 entry)
  recorded := fun k x recorded =>
    kept (k, x) (mem_outstanding.2 ((recordedBy_liveProxies sound.enlisted).2 recorded))

/-- Work on one side in which no slot is released and no cycle is run. -/
def SideEvent.routine : SideEvent → Bool
  | .mutate _ | .nativeCollect | .share _ | .proxyFor _ | .encode _ | .decode _ | .handBack _
  | .repairProxy _ | .repairAll => true
  | .allocProxy _ | .sweep _ | .release _ | .scavenge | .manage .. | .manageText .. => false

namespace Managed

variable {b : Managed} {event : SideEvent} {events : List SideEvent} {p o : ObjectId} {k : ExportKey}

theorem passing_of_routine (routine : event.routine = true) : b.passing event = [] := by
  cases event with
  | manage forced g => cases routine
  | manageText forced text => cases routine
  | _ => rfl

theorem history_mem_trail (b : Managed) (events : List SideEvent) :
    (b.history events).side ∈ b.trail events := by
  induction events generalizing b with
  | nil => exact List.mem_singleton_self b.side
  | cons event events ih => exact List.mem_append_right _ (ih (b.update event))

theorem secured_update (secured : b.side.Secured p k o) (routine : event.routine = true)
    (still : (b.update event).side.heap.isAlive p = true) :
    (b.update event).side.Secured p k o := by
  cases event with
  | mutate m => exact secured.mutate m
  | nativeCollect => exact secured.nativeCollect still
  | share x => exact secured.share x
  | proxyFor n => exact secured.proxyFor n
  | encode v => exact secured.encode v
  | decode parcel => exact secured.decode parcel
  | handBack x => exact secured.handBack x
  | repairProxy x => exact secured.repairProxy x
  | repairAll => exact secured.repairAll
  | allocProxy n => cases routine
  | sweep extra => cases routine
  | release keys => cases routine
  | scavenge => cases routine
  | manage forced g => cases routine
  | manageText forced text => cases routine

/-- What is secured stays so, through any routine work that the proxy survives. -/
theorem secured_trail (secured : b.side.Secured p k o)
    (routine : ∀ event ∈ events, event.routine = true)
    (still : ∀ s ∈ b.trail events, s.heap.isAlive p = true) :
    ∀ s ∈ b.trail events, s.Secured p k o := by
  induction events generalizing b with
  | nil =>
      intro s member
      rw [List.mem_singleton.1 member]
      exact secured
  | cons event events ih =>
      obtain ⟨first, rest⟩ := List.forall_mem_cons.1 routine
      -- the proxy has to survive every event, as a sweep may be any of them
      have split : b.trail (event :: events) = b.side :: (b.update event).trail events := by
        rw [trail, passing_of_routine first]
        rfl
      rw [split, List.forall_mem_cons] at still ⊢
      have next : (b.update event).side ∈ (b.update event).trail events := by
        cases events <;> exact List.mem_cons_self
      exact ⟨secured, ih (secured_update secured first (still.2 _ next)) rest still.2⟩

end Managed

namespace Bridge

/-- A run of the manager severs what its graph does not ask for, and then the far side works without
releasing a slot. As long as the proxy lives that has the record, each object of the record is alive, is
exported as its slot, and is put back by a repair, and no other object has been in the slot. The proxy
is asked to live on every side on the way: its name could go to another object after 2^32 sweeps. -/
theorem repair_undoes_severing {settings : Settings} {start : Bridge} {events : List BridgeEvent}
    (fresh : Bridge.new settings = .ok start) (anchored : (start.history events).far.Anchored)
    {m : Manager} {g : EdgeGraph} {report : ManagerReport}
    (accepted : (m.collect (start.history events).far g).answer = .ok report)
    {p o : ObjectId} {k : ExportKey}
    (received : (m.collect (start.history events).far g).state.2.heap.RecordOf p k o)
    {later : List SideEvent} (routine : ∀ event ∈ later, event.routine = true)
    (still : ∀ s ∈ (Managed.ofPair (m.collect (start.history events).far g).state).trail later,
      s.heap.isAlive p = true) :
    let severed := Managed.ofPair (m.collect (start.history events).far g).state
    let s := (severed.history later).side
    s.heap.isAlive o = true ∧ (s.share o).answer = .ok k ∧ (∃ n, s.repairAll.answer = .ok n) ∧
      s.repairAll.state.exports.entry? k = some (.live o) ∧
      ∀ t ∈ severed.trail later, ∀ x, t.exports.entry? k = some (.live x) → x = o := by
  have sound : (start.history events).far.Sound :=
    (sound_history (sound_new fresh) events).side .far
  have exclusive : (start.history events).far.Exclusive := exclusive_history fresh events .far
  have secured : (Managed.ofPair (m.collect (start.history events).far g).state).side.Secured p k o :=
    Side.secured_collect sound exclusive anchored accepted received
  have all := Managed.secured_trail secured routine still
  have last := all _ (Managed.history_mem_trail _ later)
  obtain ⟨repaired, live⟩ := last.repairAll_spec
  refine ⟨last.alive, last.remembers.answer_share last.exclusive last.alive, repaired, live, ?_⟩
  intro t member x held
  exact (all t member).remembers.owns.eq_of_object? (Exports.object?_eq_some_iff.2 held)

/-- The far side has a proxy that is rooted and an object that is held by its slot only. -/
def guardedObject : List BridgeEvent :=
  [.mutate .near (.alloc .ordinary []), .send .near (.ref ⟨0, 0⟩) 0, .mutate .far (.addRoot ⟨0, 0⟩),
    .mutate .far (.alloc .ordinary []), .send .far (.ref ⟨1, 0⟩) 0]

/-- The slot is severed. A native collection spares the object, another object is exported, and the
severed slot comes home. -/
theorem repair_undoes_severing_guarded :
    let severed := Managed.ofPair (Manager.collect {} ((opened byHand).history guardedObject).far
      (EdgeGraph.insert {} ⟨0⟩ [⟨0⟩])).state
    let later : List SideEvent := [.nativeCollect, .mutate (.alloc .ordinary []), .share ⟨2, 0⟩,
      .decode (.returned ⟨0⟩), .encode (.ref ⟨0, 0⟩), .nativeCollect]
    severed.side.exports.entry? ⟨0⟩ = some .detached ∧
    (severed.history later).side.heap.isAlive ⟨1, 0⟩ = true ∧
    ((severed.history later).side.share ⟨1, 0⟩).answer = .ok ⟨0⟩ := by
  dsimp only
  have sound : ((opened byHand).history guardedObject).far.Sound :=
    (sound_history (sound_new (new_opened rfl)) guardedObject).side .far
  have anchored : ((opened byHand).history guardedObject).far.Anchored :=
    Side.anchored_of_entries sound (by decide +kernel) (by decide +kernel)
  have accepted : (Manager.collect {} ((opened byHand).history guardedObject).far
      (EdgeGraph.insert {} ⟨0⟩ [⟨0⟩])).answer = .ok
        { roots := 0, records := 1, unlinked := 1, repaired := 0, overridden := true
          phases := [.repair, .rootMark, .livenessCheck, .unlink, .installOverrides] } := by
    decide +kernel
  have received : (Manager.collect {} ((opened byHand).history guardedObject).far
      (EdgeGraph.insert {} ⟨0⟩ [⟨0⟩])).state.2.heap.RecordOf ⟨0, 0⟩ ⟨0⟩ ⟨1, 0⟩ :=
    ⟨{ key := ⟨0⟩, record := some { keys := [⟨0⟩], objects := [⟨1, 0⟩] } },
      { keys := [⟨0⟩], objects := [⟨1, 0⟩] }, by decide +kernel, rfl, List.mem_singleton_self _⟩
  have undone := @repair_undoes_severing byHand (opened byHand) guardedObject (new_opened rfl) anchored
    _ _ _ accepted _ _ _ received [.nativeCollect, .mutate (.alloc .ordinary []), .share ⟨2, 0⟩,
      .decode (.returned ⟨0⟩), .encode (.ref ⟨0, 0⟩), .nativeCollect]
    (by decide) (by decide +kernel)
  exact ⟨by decide +kernel, undone.1, undone.2.1⟩

end Bridge

end TwinHeap
