import TwinHeap.Proofs.Bridge.Arrivals
import TwinHeap.Proofs.Bridge.Regularity
import TwinHeap.Proofs.Side.Pending

/-! How long a slot that a cycle severed can be had back. The notes of a cycle last until the next one,
whatever crosses, unless a slot comes home that an older cycle severed. The far side then applies all
its records and drops the notes, and with them every severed slot that no record names. -/
namespace TwinHeap

namespace Bridge

variable {b : Bridge} {e : BridgeEnd} {v : Value} {k : ExportKey} {o : ObjectId} {now : Nat}
  {report : CycleReport}

section Cycle

/-- What a cycle that succeeds in the normal mode makes of the far side. -/
theorem carried_collect (sound : b.Sound) (unforced : b.collector.settings.forceNative = false)
    (answered : b.collect.answer = .ok report) :
    ∃ repair, b.far.planRepair b.far.liveProxies = .ok repair ∧
      b.collect.state.far =
        (b.manager.carryOut b.far b.incoming (.of b.far b.incoming repair)).state.2 := by
  obtain ⟨s₁, s₂, repairs, -⟩ := repairs_collect sound unforced answered
  obtain ⟨repair, planned⟩ := Side.planRepair_of_kept (sound.side .far)
    (repairs.kept (sound.side .far).enlisted) b.far.liveProxies
  have planned : b.far.planRepair b.far.liveProxies = .ok repair := planned
  refine ⟨repair, planned, ?_⟩
  rcases b.collect_cases with ⟨f, -, refused, -⟩ | ⟨-, far, -⟩
  · cases refused.symm.trans answered
  · rw [far, managed, Manager.collectText, EdgeGraph.ofText_toText (fitting_outgoing sound), unforced]
    simp only [Bool.false_eq_true, if_false, Manager.collect, ofGraph_outgoing sound, planned]

/-- A slot that a cycle severs is remembered. -/
theorem remembers_collect (sound : b.Sound) (exclusive : b.Everywhere Side.Exclusive)
    (unforced : b.collector.settings.forceNative = false) (answered : b.collect.answer = .ok report)
    (offered : b.Offers k o) (severed : b.collect.state.far.exports.entry? k = some .detached) :
    b.collect.state.far.Remembers k o := by
  have soundFar := sound.side .far
  have owned : b.far.Owns k o := by
    rcases offered with live | ⟨detached, recorded⟩
    · exact .inl live
    · exact .inr ⟨detached, fun x named => soundFar.agreed k x o detached named (.inr recorded)⟩
  obtain ⟨repair, planned, state⟩ := carried_collect sound unforced answered
  refine ⟨?_, fun _ => ?_⟩
  · rcases far_collect_cases sound with same | ⟨g, incoming, -, -, manages⟩
    · rw [same]
      exact owned
    · exact manages.owns soundFar owned
  · have loose : k ∉ b.incoming.roots := by
      intro member
      have live := ((entry_collect_of_root sound answered (mem_roots_incoming.1 member)).1 o).2 offered
      cases severed.symm.trans live
    have held : CollectionPlan.repaired? b.far repair k = some o := by
      unfold CollectionPlan.repaired?
      rcases offered with live | ⟨detached, recorded⟩
      · rw [Exports.object?_eq_some_iff.2 live]
      · have none : b.far.exports.object? k = none := by
          simp only [Exports.object?, detached]
        rw [none]
        exact ((Side.plans_of_planRepair planned).restores k o).2
          ⟨detached, (Side.recordedBy_liveProxies soundFar.enlisted).2 recorded⟩
    have below : k.number < b.far.exports.size := by
      rcases offered with live | ⟨detached, -⟩
      · exact Exports.lt_size_of_entry? live
      · exact Exports.lt_size_of_entry? detached
    rw [state]
    exact Side.note?_carryOut b.manager soundFar (exclusive .far) planned
      (CollectionPlan.mem_unlink_of.2 ⟨below, loose, held⟩)

end Cycle

/-- The slots of the far side that the event releases. -/
def releases (b : Bridge) : BridgeEvent → List ExportKey
  | .scavenge => b.near.deadKeys.map ImportKey.across
  | .send _ _ now =>
    if (b.schedule.call now).1.piggyback then b.near.deadKeys.map ImportKey.across else []
  | .mutate .. | .nativeCollect _ | .collect => []

/-- The event hands a slot home for which the far side applies all its records and drops its notes,
and `k` is severed and in none of them. -/
def Closes (b : Bridge) (k : ExportKey) : BridgeEvent → Prop
  | .send .near v now => ((b.pin .near v).2.onCall now).answer = .ok () ∧
      ∃ i, ((b.ready .near v now).near.encode v).answer = .ok (.returned i) ∧
        (b.ready .near v now).far.Closes i.across k
  | _ => False

/-- The slot is not released, and every cycle that is tried fails. -/
def Spared (b : Bridge) (k : ExportKey) (event : BridgeEvent) : Prop :=
  k ∉ b.releases event ∧
    ∀ next, b.cycleStart? event = some next → ∃ f, next.collect.answer = .error f

def Undisturbed (b : Bridge) (k : ExportKey) : List BridgeEvent → Prop
  | [] => True
  | event :: rest => b.Spared k event ∧ (b.update event).Undisturbed k rest

def ClosesWithin (b : Bridge) (k : ExportKey) : List BridgeEvent → Prop
  | [] => False
  | event :: rest => b.Closes k event ∨ (b.update event).ClosesWithin k rest

theorem far_idle (sound : b.Sound) (spared : b.Spared k .collect) :
    (b.update .collect).far = b.far := by
  obtain ⟨f, refused⟩ := spared.2 b rfl
  exact far_collect_of_error sound refused

section Work

variable {P : Side → Prop}

variable (stays : Side.Stays k P) (sound : b.Sound)

include stays sound

theorem far_mutate (e : BridgeEnd) (m : Mutation) (before : P b.far) :
    P (b.update (.mutate e m)).far := by
  cases e with
  | near => exact before
  | far => exact stays.aged b.far _ (Heap.aged_mutate (sound.side .far).heap m) before

theorem far_native (e : BridgeEnd) (before : P b.far) : P (b.update (.nativeCollect e)).far := by
  cases e with
  | near => exact before
  | far => exact stays.aged b.far _ (Side.aged_nativeCollect (sound.side .far)) before

theorem far_pin (e : BridgeEnd) (v : Value) (before : P b.far) : P (b.pin e v).2.far := by
  unfold pin
  cases v.object? with
  | none => exact before
  | some id => exact far_mutate stays sound e (.addRoot id) before

theorem far_unpin (e : BridgeEnd) (handle : Option RootHandle) (before : P b.far) :
    P (b.unpin e handle).far := by
  cases handle with
  | none => exact before
  | some r => exact far_mutate stays sound e (.removeRoot r) before

theorem far_scavenge (kept : k ∉ b.near.deadKeys.map ImportKey.across) (before : P b.far) :
    P b.scavenge.state.far := by
  have far : b.scavenge.state.far = b.far.tidied _ := b.side_scavenge .far
  rw [far]
  exact stays.tidied b.far _ (sound.side .far) kept before

theorem far_cleared (kept : (b.schedule.call now).1.piggyback = true →
    k ∉ b.near.deadKeys.map ImportKey.across) (before : P b.far) : P (b.cleared now).far := by
  unfold cleared
  dsimp only
  split
  · rename_i piggyback
    have booked : Sound { b with schedule := (b.schedule.call now).2 } := sound_book sound _ rfl
    exact far_scavenge stays booked (kept piggyback) before
  · exact before

omit stays sound in
theorem schedule_pin (b : Bridge) (e : BridgeEnd) (v : Value) :
    (b.pin e v).2.schedule = b.schedule := by
  unfold pin
  cases v.object? with
  | none => rfl
  | some id => cases e <;> rfl

omit stays sound in
theorem deadKeys_pin (b : Bridge) (e : BridgeEnd) (v : Value) :
    (b.pin e v).2.near.deadKeys = b.near.deadKeys := by
  unfold pin
  cases v.object? with
  | none => rfl
  | some id =>
      cases e with
      | far => rfl
      | near =>
          show b.near.imports.deadKeys (b.near.heap.addRoot id).2 = b.near.imports.deadKeys b.near.heap
          unfold Heap.addRoot
          split <;> rfl

/-- The work that is due on a call leaves the slot alone, apart from a cycle that succeeds. -/
theorem far_called (spared : b.Spared k (.send e v now)) (before : P b.far) :
    P ((b.pin e v).2.onCall now).state.far := by
  obtain ⟨kept, idle⟩ := spared
  have pinned := sound_calm (b.calm_pin e v) sound
  have cleared : P ((b.pin e v).2.cleared now).far := by
    refine far_cleared stays pinned (fun piggyback => ?_) (far_pin stays sound e v before)
    rw [schedule_pin] at piggyback
    rw [deadKeys_pin]
    simp only [releases, if_pos piggyback] at kept
    exact kept
  rw [far_onCall]
  split
  · rename_i due
    obtain ⟨f, refused⟩ := idle _ (if_pos due)
    rw [far_collect_of_error (sound_calm (calm_cleared _ now) pinned) refused]
    exact cleared
  · exact cleared

end Work

section Steps

theorem far_cross_far (b : Bridge) (v : Value) :
    (b.cross .far v).state.far = (b.far.encode v).state := by
  unfold cross
  dsimp only
  split <;> rfl

theorem far_cross_near (b : Bridge) (v : Value) : (b.cross .near v).state.far =
    match (b.near.encode v).answer with
    | .ok parcel => (b.far.decode parcel).state
    | .error _ => b.far := by
  unfold cross
  dsimp only
  split <;> rename_i answer <;> rw [show (b.near.encode v).answer = _ from answer] <;> rfl

/-- A value that crosses costs a slot what the notes say of it, or nothing happens to the slot. -/
theorem remembers_cross (sound : b.Sound) (exclusive : b.far.Exclusive)
    (remembers : b.far.Remembers k o) (e : BridgeEnd) (v : Value) :
    let closed := e = .near ∧ ∃ i, (b.near.encode v).answer = .ok (.returned i) ∧
      b.far.Closes i.across k
    closed ∧ (b.cross e v).state.far.Lost k ∨ ¬ closed ∧ (b.cross e v).state.far.Remembers k o := by
  dsimp only
  cases e with
  | far =>
      rw [far_cross_far]
      exact .inr ⟨fun closed => (nomatch closed.1), remembers.encode (sound.side .far) exclusive v⟩
  | near =>
      rw [far_cross_near]
      cases answer : (b.near.encode v).answer with
      | error f => exact .inr ⟨fun ⟨_, _, same, _⟩ => (nomatch same), remembers⟩
      | ok parcel =>
          rcases remembers.decode (sound.side .far) parcel with ⟨⟨i, rfl, closes⟩, lost⟩ |
              ⟨spared, kept⟩
          · exact .inl ⟨⟨rfl, i, rfl, closes⟩, lost⟩
          · refine .inr ⟨?_, kept⟩
            rintro ⟨-, i, same, closes⟩
            exact spared i (Except.ok.inj same) closes

theorem lost_cross (sound : b.Sound) (lost : b.far.Lost k) (e : BridgeEnd) (v : Value) :
    (b.cross e v).state.far.Lost k := by
  cases e with
  | far =>
      rw [far_cross_far]
      exact lost.encode (sound.side .far) v
  | near =>
      rw [far_cross_near]
      cases (b.near.encode v).answer with
      | error f => exact lost
      | ok parcel => exact lost.decode (sound.side .far) parcel

/-- The rest of a send, once the work is done that is due. -/
theorem remembers_send (sound : b.Sound) (exclusive : b.Everywhere Side.Exclusive)
    (called : ((b.pin e v).2.onCall now).state.far.Remembers k o) :
    b.Closes k (.send e v now) ∧ (b.send e v now).state.far.Lost k ∨
      ¬ b.Closes k (.send e v now) ∧ (b.send e v now).state.far.Remembers k o := by
  have ready : (b.ready e v now).far.Remembers k o :=
    far_unpin (Side.stays_remembers k o) (sound_called sound e v now) e (b.pin e v).1 called
  have exclusiveReady := everywhere_ready (lasting_exclusive _) sound rfl exclusive e v now
  rcases b.send_cases e v now with ⟨f, refused, -, state⟩ | ⟨worked, state, -⟩
  · have spared : ¬ b.Closes k (.send e v now) := by
      intro closes
      cases e with
      | far => exact closes
      | near => cases refused.symm.trans closes.1
    rcases state with state | state
    · rw [state]
      exact .inr ⟨spared, ready⟩
    · rw [state]
      exact .inr ⟨spared, called⟩
  · have closed : b.Closes k (.send e v now) ↔ e = .near ∧
        ∃ i, ((b.ready e v now).near.encode v).answer = .ok (.returned i) ∧
          (b.ready e v now).far.Closes i.across k := by
      cases e with
      | far => exact ⟨False.elim, fun both => (nomatch both.1)⟩
      | near => exact ⟨fun closes => ⟨rfl, closes.2⟩, fun both => ⟨worked, both.2⟩⟩
    rw [state, closed]
    exact remembers_cross (sound_ready sound e v now) (exclusiveReady .far) ready e v

theorem lost_send (sound : b.Sound) (called : ((b.pin e v).2.onCall now).state.far.Lost k) :
    (b.send e v now).state.far.Lost k := by
  have ready : (b.ready e v now).far.Lost k :=
    far_unpin (Side.stays_lost k) (sound_called sound e v now) e (b.pin e v).1 called
  rcases b.send_cases e v now with ⟨f, -, -, state | state⟩ | ⟨-, state, -⟩
  · rw [state]
    exact ready
  · rw [state]
    exact called
  · rw [state]
    exact lost_cross (sound_ready sound e v now) ready e v

theorem remembers_update {event : BridgeEvent} (sound : b.Sound)
    (exclusive : b.Everywhere Side.Exclusive) (spared : b.Spared k event)
    (remembers : b.far.Remembers k o) :
    b.Closes k event ∧ (b.update event).far.Lost k ∨
      ¬ b.Closes k event ∧ (b.update event).far.Remembers k o := by
  have stays := Side.stays_remembers k o
  cases event with
  | mutate e m => exact .inr ⟨id, far_mutate stays sound e m remembers⟩
  | nativeCollect e => exact .inr ⟨id, far_native stays sound e remembers⟩
  | collect => exact .inr ⟨id, (far_idle sound spared).symm ▸ remembers⟩
  | scavenge => exact .inr ⟨id, far_scavenge stays sound spared.1 remembers⟩
  | send e v now =>
      exact remembers_send sound exclusive (far_called stays sound spared remembers)

theorem lost_update {event : BridgeEvent} (sound : b.Sound) (spared : b.Spared k event)
    (lost : b.far.Lost k) : (b.update event).far.Lost k := by
  have stays := Side.stays_lost k
  cases event with
  | mutate e m => exact far_mutate stays sound e m lost
  | nativeCollect e => exact far_native stays sound e lost
  | collect => exact (far_idle sound spared).symm ▸ lost
  | scavenge => exact far_scavenge stays sound spared.1 lost
  | send e v now => exact lost_send sound (far_called stays sound spared lost)

end Steps

section Runs

variable {events : List BridgeEvent}

/-- What is lost stays lost until a cycle succeeds. -/
theorem lost_history (sound : b.Sound) (undisturbed : b.Undisturbed k events)
    (lost : b.far.Lost k) : (b.history events).far.Lost k := by
  induction events generalizing b with
  | nil => exact lost
  | cons event events ih =>
      obtain ⟨spared, rest⟩ := undisturbed
      exact ih (sound_update sound event) rest (lost_update sound spared lost)

theorem exclusive_update (sound : b.Sound) (exclusive : b.Everywhere Side.Exclusive)
    (event : BridgeEvent) : (b.update event).Everywhere Side.Exclusive :=
  everywhere_update (lasting_exclusive _) sound rfl exclusive
    (spares_of_forall (fun _ _ => trivial) event)

/-- A slot is remembered until the notes are dropped that it needs. -/
theorem remembers_history (sound : b.Sound) (exclusive : b.Everywhere Side.Exclusive)
    (undisturbed : b.Undisturbed k events) (remembers : b.far.Remembers k o) :
    b.ClosesWithin k events ∧ (b.history events).far.Lost k ∨
      ¬ b.ClosesWithin k events ∧ (b.history events).far.Remembers k o := by
  induction events generalizing b with
  | nil => exact .inr ⟨id, remembers⟩
  | cons event events ih =>
      obtain ⟨spared, rest⟩ := undisturbed
      have next := sound_update sound event
      rcases remembers_update sound exclusive spared remembers with ⟨closes, lost⟩ | ⟨unclosed, kept⟩
      · have gone := lost_history next rest lost
        exact .inl ⟨.inl closes, gone⟩
      · rcases ih next (exclusive_update sound exclusive event) rest kept with ⟨closes, lost⟩ |
            ⟨spared, kept⟩
        · exact .inl ⟨.inr closes, lost⟩
        · exact .inr ⟨fun either => either.elim unclosed spared, kept⟩

/-- The event of a cycle goes on after it. -/
theorem remembers_begun {cycling : Bridge} {event : BridgeEvent} (sound : b.Sound)
    (exclusive : b.Everywhere Side.Exclusive) (begins : b.cycleStart? event = some cycling)
    (remembers : cycling.collect.state.far.Remembers k o) :
    b.Closes k event ∧ (b.update event).far.Lost k ∨
      ¬ b.Closes k event ∧ (b.update event).far.Remembers k o := by
  cases event with
  | mutate e m => cases begins
  | nativeCollect e => cases begins
  | scavenge => cases begins
  | collect =>
      cases begins
      exact .inr ⟨id, remembers⟩
  | send e v now =>
      obtain ⟨due, same⟩ := Option.ite_none_right_eq_some.1 begins
      cases same
      refine remembers_send sound exclusive ?_
      rw [far_onCall, if_pos due]
      exact remembers

/-- The cycle of an event starts from regular tables. -/
theorem exclusive_cycleStart {cycling : Bridge} {event : BridgeEvent} (sound : b.Sound)
    (exclusive : b.Everywhere Side.Exclusive) (begins : b.cycleStart? event = some cycling) :
    cycling.Everywhere Side.Exclusive := by
  cases event with
  | mutate e m => cases begins
  | nativeCollect e => cases begins
  | scavenge => cases begins
  | collect =>
      cases begins
      exact exclusive
  | send e v now =>
      have lasting := lasting_exclusive false
      cases (Option.ite_none_right_eq_some.1 begins).2
      exact everywhere_cleared lasting (sound_calm (b.calm_pin e v) sound)
        (everywhere_pin lasting sound exclusive e v) now

/-- After a cycle that severed a slot of an object, and until the next one that succeeds, the slot comes
home as the object and the object is shared as the slot, as long as the slot is not released. The one
exception is a slot that comes home severed without a note of this cycle. If the far side can apply its
records for it, every severed slot that is in none of them is lost. -/
theorem unlink_window {settings : Settings} {start cycling : Bridge} {past later : List BridgeEvent}
    {event : BridgeEvent} (fresh : Bridge.new settings = .ok start)
    (unforced : settings.forceNative = false)
    (begins : (start.history past).cycleStart? event = some cycling)
    (answered : cycling.collect.answer = .ok report) (offered : cycling.Offers k o)
    (severed : cycling.collect.state.far.exports.entry? k = some .detached)
    (undisturbed : ((start.history past).update event).Undisturbed k later) :
    let far := (start.history (past ++ event :: later)).far
    let closed := (start.history past).ClosesWithin k (event :: later)
    ((far.decode (.returned k.across)).answer = .ok (.ref o) ↔ ¬ closed) ∧
    (far.heap.isAlive o = true → ((far.share o).answer = .ok k ↔ ¬ closed)) := by
  have sound := sound_history (sound_new fresh) past
  have exclusive := exclusive_history fresh past
  have soundCycle := sound_cycleStart sound begins
  have same := (settings_history start past).trans (settings_new fresh)
  have mode := mode_calm (calm_cycleStart begins) ((congrArg Settings.forceNative same).trans unforced)
  have remembers := remembers_collect soundCycle (exclusive_cycleStart sound exclusive begins) mode
    answered offered severed
  have next := sound_update sound event
  have soundEnd := sound_history (sound_new fresh) (past ++ event :: later) |>.side .far
  have exclusiveEnd := exclusive_history fresh (past ++ event :: later) .far
  have reached : (start.history (past ++ event :: later)) =
      ((start.history past).update event).history later := start.history_append past (event :: later)
  have fate : (start.history past).ClosesWithin k (event :: later) ∧
        (start.history (past ++ event :: later)).far.Lost k ∨
      ¬ (start.history past).ClosesWithin k (event :: later) ∧
        (start.history (past ++ event :: later)).far.Remembers k o := by
    rw [reached]
    rcases remembers_begun sound exclusive begins remembers with ⟨closes, lost⟩ | ⟨unclosed, kept⟩
    · exact .inl ⟨.inl closes, lost_history next undisturbed lost⟩
    · rcases remembers_history next (exclusive_update sound exclusive event) undisturbed kept with
          ⟨closes, lost⟩ | ⟨spared, kept⟩
      · exact .inl ⟨.inr closes, lost⟩
      · exact .inr ⟨fun either => either.elim unclosed spared, kept⟩
  dsimp only
  rcases fate with ⟨closed, lost⟩ | ⟨unclosed, kept⟩
  · constructor
    · exact iff_of_false (lost.answer_decode_ne soundEnd (.ref o)) (not_not_intro closed)
    · exact fun _ => iff_of_false (lost.answer_share_ne soundEnd o) (not_not_intro closed)
  · constructor
    · exact iff_of_true (kept.answer_decode soundEnd) unclosed
    · exact fun alive => iff_of_true (kept.answer_share exclusiveEnd alive) unclosed

theorem spared_of_idle {event : BridgeEvent} (kept : k ∉ b.releases event)
    (idle : b.cycleStart? event = none) : b.Spared k event :=
  ⟨kept, fun _ begins => nomatch idle.symm.trans begins⟩

/-- An object of the far side is sent, its slot is severed, and a native collection and a release of
dead references follow. -/
def severedThenSwept : List BridgeEvent :=
  [.mutate .far (.alloc .ordinary []), .mutate .far (.addRoot ⟨0, 0⟩), .send .far (.ref ⟨0, 0⟩) 0,
    .collect, .nativeCollect .far, .scavenge]

theorem unlink_window_swept :
    ((opened byHand).history (severedThenSwept.take 4)).far.exports.entry? ⟨0⟩ = some .detached ∧
    (((opened byHand).history severedThenSwept).far.decode (.returned ⟨0⟩)).answer =
      .ok (.ref ⟨0, 0⟩) ∧
    (((opened byHand).history severedThenSwept).far.share ⟨0, 0⟩).answer = .ok ⟨0⟩ := by
  have severed : ((opened byHand).history (severedThenSwept.take 4)).far.exports.entry? ⟨0⟩ =
      some .detached := by decide +kernel
  have window := @unlink_window ⟨0⟩ ⟨0, 0⟩
    { cycle := 1, mode := .exact, entries := 1, roots := 0, edges := 0, records := 0, unlinked := 1,
      repaired := 0, live := 0, detached := 1, native := none }
    byHand (opened byHand) _ (severedThenSwept.take 3) [.nativeCollect .far, .scavenge] .collect
    (new_opened rfl) rfl rfl (by decide +kernel) (.inl (by decide +kernel)) severed
    ⟨spared_of_idle (List.not_mem_nil) rfl, spared_of_idle (by decide +kernel) rfl, trivial⟩
  have unclosed : ¬ ((opened byHand).history (severedThenSwept.take 3)).ClosesWithin ⟨0⟩
      [.collect, .nativeCollect .far, .scavenge] :=
    fun closed => closed.elim id fun closed => closed.elim id fun closed => closed.elim id id
  exact ⟨severed, window.1.2 unclosed, (window.2 (by decide +kernel)).2 unclosed⟩

/-- Two slots are severed, by a cycle each, and then the proxy of the first one is sent home. -/
def olderSlotHome : List BridgeEvent :=
  [.mutate .far (.alloc .ordinary []), .mutate .far (.addRoot ⟨0, 0⟩), .send .far (.ref ⟨0, 0⟩) 0,
    .collect, .mutate .far (.alloc .ordinary []), .mutate .far (.addRoot ⟨1, 0⟩),
    .send .far (.ref ⟨1, 0⟩) 0, .collect, .send .near (.ref ⟨0, 0⟩) 0]

/-- The second slot is lost with the first one. -/
theorem older_slot_closes_window :
    let cycling := (opened byHand).history (olderSlotHome.take 7)
    let far := ((opened byHand).history olderSlotHome).far
    (∃ report, cycling.collect.answer = .ok report) ∧ cycling.Offers ⟨1⟩ ⟨1, 0⟩ ∧
    cycling.collect.state.far.exports.entry? ⟨1⟩ = some .detached ∧
    cycling.collect.state.Undisturbed ⟨1⟩ [.send .near (.ref ⟨0, 0⟩) 0] ∧
    far.heap.isAlive ⟨1, 0⟩ = true ∧
    (far.decode (.returned ⟨1⟩)).answer = .error (.handle (.notLive "remote" ⟨1⟩)) ∧
    (far.share ⟨1, 0⟩).answer = .ok ⟨2⟩ := by
  let report : CycleReport :=
    { cycle := 2, mode := .exact, entries := 1, roots := 0, edges := 0, records := 0, unlinked := 1,
      repaired := 0, live := 0, detached := 2, native := none }
  refine ⟨⟨report, ?_⟩, .inl ?_, ?_, ⟨spared_of_idle ?_ ?_, trivial⟩, ?_, ?_, ?_⟩
  · decide +kernel
  · decide +kernel
  · decide +kernel
  · decide +kernel
  · exact if_neg (by decide +kernel)
  · decide +kernel
  · decide +kernel
  · decide +kernel

end Runs

end Bridge

end TwinHeap
