import TwinHeap.Proofs.Bridge.Lasting
import TwinHeap.Proofs.Side.Anchoring

/-! When the live slots of a bridge dangle. A severed slot that comes home is filled from the notes of
the last unlinking, which do not hold their objects; whether the object is still alive is not asked, as
it is when an object is exported. -/
namespace TwinHeap.Bridge

variable {b : Bridge} {e : BridgeEnd} {v : Value} {x : ObjectId} {now : Nat}

theorem lasting_anchored (forced : Bool) : Side.Lasting forced Side.Harmless Side.Anchored where
  mutate := fun _ m sound anchored => Side.anchored_mutate sound anchored m
  tidied := fun _ keys _ anchored => Side.anchored_tidied anchored keys
  encode := fun _ v sound anchored => Side.anchored_encode sound anchored v
  decode := fun _ _ sound harmless anchored => Side.anchored_decode sound anchored harmless
  nativeCollect := fun _ sound anchored => Side.anchored_nativeCollect sound anchored
  manage := fun _ m text sound bare anchored =>
    Side.anchored_collectText sound anchored m forced text bare

theorem anchored_new {settings : Settings} (fresh : Bridge.new settings = .ok b) :
    b.Everywhere Side.Anchored := by
  cases eq_opened fresh
  intro e
  cases e with
  | near => exact ⟨fun _ _ live => (nomatch live), fun _ _ ⟨_, _, _, proxy, _⟩ => nomatch proxy⟩
  | far => exact ⟨fun _ _ live => (nomatch live), fun _ _ ⟨_, _, _, proxy, _⟩ => nomatch proxy⟩

/-- In the forced mode there are no notes between two events. -/
theorem lasting_forgotten : Side.Lasting true (fun _ _ => True) Side.Forgotten where
  mutate := fun _ _ _ forgotten => forgotten
  tidied := fun _ keys sound forgotten => Side.forgotten_tidied sound forgotten keys
  encode := fun _ v sound forgotten => Side.forgotten_encode sound forgotten v
  decode := fun _ parcel sound _ forgotten => Side.forgotten_decode sound forgotten parcel
  nativeCollect := fun _ _ forgotten => forgotten
  manage := fun _ m text sound bare forgotten =>
    Side.forgotten_collectForced sound forgotten m text (bare rfl)

theorem forgotten_new {settings : Settings} (fresh : Bridge.new settings = .ok b) :
    b.Everywhere Side.Forgotten := by
  cases eq_opened fresh
  intro e
  cases e with
  | near => exact fun _ => rfl
  | far => exact fun _ => rfl

/-- The event sends a proxy home to a severed slot whose object has been collected. -/
def Revives (b : Bridge) : BridgeEvent → Prop
  | .send e v now =>
    ((b.pin e v).2.onCall now).answer = .ok () ∧ ∃ k,
      (((b.ready e v now).side e).encode v).answer = .ok (.returned k) ∧
        ((b.ready e v now).side e.other).Revives k.across
  | _ => False

theorem spares_of_not_revives {event : BridgeEvent} (none : ¬ b.Revives event) :
    b.Spares Side.Harmless event := by
  cases event with
  | mutate e m => trivial
  | nativeCollect e => trivial
  | collect => trivial
  | scavenge => trivial
  | send e v now =>
      intro worked parcel encoded k returned revives
      exact none ⟨worked, k, returned ▸ encoded, revives⟩

/-- A value that has crossed was decoded at the other end. -/
theorem cross_eq_ok {w : Value} (answered : (b.cross e v).answer = .ok w) :
    ∃ parcel, ((b.side e).encode v).answer = .ok parcel ∧
      ((b.side e.other).decode parcel).answer = .ok w ∧
      (b.cross e v).state.side e.other = ((b.side e.other).decode parcel).state := by
  unfold cross at answered ⊢
  dsimp only at answered ⊢
  split at answered
  · cases answered
  · rename_i parcel encoded
    rw [side_setSide_other] at answered
    refine ⟨parcel, encoded, answered, ?_⟩
    simp only [side_setSide_same, side_setSide_other]

/-- A reference that a send answers with is alive where it arrives, if the slots there are firm. -/
theorem isAlive_of_send (sound : b.Sound)
    (firm : ((b.update (.send e v now)).side e.other).Firm)
    (answered : (b.send e v now).answer = .ok (.ref x)) :
    ((b.update (.send e v now)).side e.other).heap.isAlive x = true := by
  rcases b.send_cases e v now with ⟨f, -, refused, -⟩ | ⟨-, state, answer⟩
  · cases refused.symm.trans answered
  · obtain ⟨parcel, -, decoded, there⟩ := cross_eq_ok (answer.symm.trans answered)
    have side := (congrArg (fun b => side b e.other) state).trans there
    rw [show ((b.update (.send e v now)).side e.other) = _ from side] at firm ⊢
    exact Side.isAlive_of_decode ((sound_ready sound e v now).side e.other) firm decoded

/-- A send that revives an object answers with it, and leaves it dead in a live slot. -/
theorem send_of_revives (revives : b.Revives (.send e v now)) :
    ∃ k o, (b.send e v now).answer = .ok (.ref o) ∧
      ((b.update (.send e v now)).side e.other).exports.entry? k = some (.live o) ∧
      ((b.update (.send e v now)).side e.other).heap.isAlive o = false := by
  obtain ⟨worked, k, encoded, revives⟩ := revives
  obtain ⟨o, answer, live, gone⟩ := Side.decode_of_revives revives
  rcases b.send_cases e v now with ⟨f, refused, -⟩ | ⟨-, state, sent⟩
  · cases refused.symm.trans worked
  · have crossed : ((b.ready e v now).cross e v).answer = .ok (.ref o) := by
      unfold cross
      dsimp only
      rw [encoded]
      dsimp only
      rw [side_setSide_other]
      exact answer
    obtain ⟨parcel, same, -, there⟩ := cross_eq_ok crossed
    cases encoded.symm.trans same
    have side : (b.update (.send e v now)).side e.other = _ :=
      (congrArg (fun b => Bridge.side b e.other) state).trans there
    refine ⟨k.across, o, sent.trans crossed, ?_, ?_⟩
    · rw [side]
      exact live
    · rw [side]
      exact gone

/-- While no event revives an object, all live slots are firm. -/
theorem anchored_history {settings : Settings} {start : Bridge} {events : List BridgeEvent}
    (fresh : Bridge.new settings = .ok start)
    (none : ∀ past event later, past ++ event :: later = events →
      ¬ (start.history past).Revives event) : (start.history events).Everywhere Side.Anchored :=
  everywhere_history (lasting_anchored _) (sound_new fresh) rfl (anchored_new fresh)
    fun past event later split => spares_of_not_revives (none past event later split)

theorem not_revives_of_forced {settings : Settings} {start : Bridge}
    (fresh : Bridge.new settings = .ok start) (forced : settings.forceNative = true)
    (events : List BridgeEvent) (event : BridgeEvent) :
    ¬ (start.history events).Revives event := by
  have mode : ∀ past, (start.history past).collector.settings.forceNative = true := fun past => by
    rw [settings_history, settings_new fresh, forced]
  have sound := sound_history (sound_new fresh) events
  have forgotten : (start.history events).Everywhere Side.Forgotten :=
    everywhere_history lasting_forgotten (sound_new fresh) (mode []) (forgotten_new fresh)
      fun _ event _ _ => spares_of_forall (fun _ _ => trivial) event
  cases event with
  | mutate e m => exact id
  | nativeCollect e => exact id
  | collect => exact id
  | scavenge => exact id
  | send e v now =>
      rintro ⟨-, k, -, revives⟩
      have ready := everywhere_ready lasting_forgotten sound (mode events) forgotten e v now
      exact (ready e.other).not_revives k.across revives

/-- The live slots of both sides hold live objects in every state of a history exactly if no event of
it sends a proxy home to a severed slot whose object has been collected. A history without such an
event answers with live references only. Such an event answers with a dead one, and there is none in
the forced mode. -/
theorem live_slots_alive {settings : Settings} {start : Bridge} {events : List BridgeEvent}
    (fresh : Bridge.new settings = .ok start) :
    ((∀ past later, past ++ later = events → ∀ e, ((start.history past).side e).Firm) ↔
      ∀ past event later, past ++ event :: later = events →
        ¬ (start.history past).Revives event) ∧
    ((∀ past event later, past ++ event :: later = events →
        ¬ (start.history past).Revives event) →
      ∀ past e v now later x, past ++ .send e v now :: later = events →
        ((start.history past).send e v now).answer = .ok (.ref x) →
          (((start.history past).update (.send e v now)).side e.other).heap.isAlive x = true) ∧
    (∀ e v now, (start.history events).Revives (.send e v now) → ∃ o,
      ((start.history events).send e v now).answer = .ok (.ref o) ∧
        (((start.history events).update (.send e v now)).side e.other).heap.isAlive o = false) ∧
    (settings.forceNative = true → ∀ event, ¬ (start.history events).Revives event) := by
  have sound : ∀ past, (start.history past).Sound := sound_history (sound_new fresh)
  refine ⟨⟨?_, ?_⟩, ?_, ?_, fun forced => not_revives_of_forced fresh forced events⟩
  · intro all past event later split revives
    cases event with
    | mutate e m => exact revives
    | nativeCollect e => exact revives
    | collect => exact revives
    | scavenge => exact revives
    | send e v now =>
        obtain ⟨k, o, -, live, gone⟩ := send_of_revives revives
        have firm := all (past ++ [.send e v now]) later (by simpa using split) e.other
        rw [history_append] at firm
        exact nomatch (firm k o live).symm.trans gone
  · intro none past later split e
    refine (anchored_history fresh (fun first event rest same => ?_) e).firm
    refine none first event (rest ++ later) ?_
    rw [← split, ← same, List.append_assoc, List.cons_append]
  · intro none past e v now later x split answered
    refine isAlive_of_send (sound past) ?_ answered
    have all : (start.history (past ++ [.send e v now])).Everywhere Side.Anchored := by
      refine anchored_history fresh fun first event rest same => ?_
      refine none first event (rest ++ later) ?_
      rw [← split, ← List.singleton_append (l := later), ← List.append_assoc, ← same,
        List.append_assoc, List.cons_append]
    rw [history_append] at all
    exact (all e.other).firm
  · intro e v now revives
    obtain ⟨-, o, answered, -, gone⟩ := send_of_revives revives
    exact ⟨o, answered, gone⟩

/-- An object of the far side that is held by nothing but its slot. A cycle severs the slot, and the
object is collected. -/
def collectedObject : List BridgeEvent :=
  [.mutate .far (.alloc .ordinary []), .send .far (.ref ⟨0, 0⟩) 0, .collect, .nativeCollect .far]

theorem live_slots_alive_collected :
    ∃ o, (((opened byHand).history collectedObject).send .near (.ref ⟨0, 0⟩) 0).answer =
        .ok (.ref o) ∧
      (((opened byHand).history collectedObject).update
        (.send .near (.ref ⟨0, 0⟩) 0)).far.heap.isAlive o = false := by
  have all := @live_slots_alive byHand (opened byHand) collectedObject (new_opened rfl)
  refine all.2.2.1 .near (.ref ⟨0, 0⟩) 0 ⟨by decide +kernel, ⟨0⟩, by decide +kernel, ⟨0, 0⟩, ?_, ?_⟩
  · decide +kernel
  · decide +kernel

/-- The proxy is sent home: the slot is live again, with an object that is gone. -/
theorem collected_object_sent :
    let sent : BridgeEvent := .send .near (.ref ⟨0, 0⟩) 0
    ((opened byHand).history (collectedObject ++ [sent])).far.exports.entry? ⟨0⟩ =
        some (.live ⟨0, 0⟩) ∧
      ((opened byHand).history (collectedObject ++ [sent])).far.heap.isAlive ⟨0, 0⟩ = false ∧
      (((opened byHand).history collectedObject).send .near (.ref ⟨0, 0⟩) 0).answer =
        .ok (.ref ⟨0, 0⟩) := by
  refine ⟨?_, ?_, ?_⟩
  · decide +kernel
  · decide +kernel
  · decide +kernel

end TwinHeap.Bridge
