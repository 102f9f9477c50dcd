import TwinHeap.Proofs.Bridge.Generations
import TwinHeap.Proofs.Bridge.Graphs
import TwinHeap.Proofs.Bridge.Referents

/-! A proxy stands for the object it was made for as long as it lives, whatever happens to the slots
of either table meanwhile. -/
namespace TwinHeap.Bridge

variable {b : Bridge} {e : BridgeEnd} {o p : ObjectId} {k : ExportKey}

/-- The bridge on which the cycle of an event is run, if the event runs one. -/
def cycleStart? (b : Bridge) : BridgeEvent → Option Bridge
  | .collect => some b
  | .send e v now =>
    if (b.pin e v).2.cycleDue now then some ((b.pin e v).2.cleared now) else none
  | .mutate .. | .nativeCollect _ | .scavenge => none

theorem calm_cycleStart {start : Bridge} {event : BridgeEvent}
    (begins : b.cycleStart? event = some start) : Calm b start := by
  cases event with
  | mutate e m => cases begins
  | nativeCollect e => cases begins
  | scavenge => cases begins
  | collect =>
      cases begins
      exact .refl b
  | send e v now =>
      cases (Option.ite_none_right_eq_some.1 begins).2
      exact (b.calm_pin e v).trans (calm_cleared _ now)

theorem sound_cycleStart {start : Bridge} {event : BridgeEvent} (sound : b.Sound)
    (begins : b.cycleStart? event = some start) : start.Sound :=
  sound_calm (calm_cycleStart begins) sound

/-- The slots of a graph are always there. -/
theorem graph_accepted (sound : b.Sound) (f : GraphFault) : b.collect.answer ≠ .error (.graph f) := by
  intro refused
  rcases collect_eq_error sound refused with short | ⟨k, same⟩
  · rcases demand_eq_error short with ⟨text, same⟩ | ⟨n, same, -⟩ <;> cases same
  · cases same

theorem stands_of_send {now : Nat} (sound : b.Sound) (current : b.Current)
    (rises : Rises b (b.update (.send e (.ref o) now)))
    (plain : (b.side e).heap.proxy? o = none)
    (sent : (b.send e (.ref o) now).answer = .ok (.ref p)) :
    ∃ k, Stands (b.update (.send e (.ref o) now)) e p k o := by
  rcases b.send_cases e (.ref o) now with ⟨f, -, refused, -⟩ | ⟨-, state, answer⟩
  · rw [refused] at sent
    cases sent
  · obtain ⟨b₁, b₂, before, turn, after⟩ := b.ready_split e (.ref o) now
    have crossing : Calm b₂ (b.update (.send e (.ref o) now)) := by
      rw [update, state]
      exact after.trans (.cross _ e (.ref o))
    have sound₁ := sound_calm before sound
    have sound₂ := sound_turn turn sound₁
    have current₁ := current_calm before sound current
    have current₂ := current_turn turn sound₁ (rises_turn before turn crossing sound rises) current₁
    rw [update, state]
    exact stands_of_cross (sound_calm after sound₂) (current_calm after sound₂ current₂)
      (plain_ready sound e (.ref o) now plain) (answer ▸ sent)

/-- A proxy that stands for an object comes home as that object. -/
theorem Stands.send {now : Nat} {v : Value} (stands : Stands b e p k o) (sound : b.Sound)
    (rises : Rises b (b.update (.send e.other (.ref p) now)))
    (answered : (b.send e.other (.ref p) now).answer = .ok v) : v = .ref o := by
  rcases b.send_cases e.other (.ref p) now with ⟨f, -, refused, -⟩ | ⟨-, state, answer⟩
  · rw [refused] at answered
    cases answered
  · obtain ⟨b₁, b₂, before, turn, after⟩ := b.ready_split e.other (.ref p) now
    have crossing : Calm b₂ (b.update (.send e.other (.ref p) now)) := by
      rw [update, state]
      exact after.trans (.cross _ e.other (.ref p))
    have sound₁ := sound_calm before sound
    have sound₂ := sound_turn turn sound₁
    have turned := honours_turn turn sound₁ (rises_turn before turn crossing sound rises) e
    have honours := (honours_calm before sound e).trans (turned.trans (honours_calm after sound₂ e))
    exact (honours.stands stands).cross (sound_calm after sound₂) (answer ▸ answered)

/-- Sending the object `o` from `e` hands out the proxy `p`. -/
structure SendsAs (b : Bridge) (e : BridgeEnd) (o p : ObjectId) (now : Nat) : Prop where
  plain : (b.side e).heap.proxy? o = none
  answer : (b.send e (.ref o) now).answer = .ok (.ref p)

theorem stands_of_sendsAs {start : Bridge} {past later : List BridgeEvent} {now : Nat}
    (sound : start.Sound) (current : start.Current)
    (sends : (start.history past).SendsAs e o p now)
    (ascends : Ascends start (past ++ .send e (.ref o) now :: later)) :
    ∃ k, Stands (start.history (past ++ .send e (.ref o) now :: later)) e p k o := by
  obtain ⟨ascendsPast, rises, ascendsLater⟩ := ascends_append.1 ascends
  have soundPast := sound_history sound past
  have currentPast := current_history sound ascendsPast current
  obtain ⟨k, handed⟩ := stands_of_send soundPast currentPast rises sends.plain sends.answer
  refine ⟨k, ?_⟩
  rw [history_append]
  exact (honours_history (sound_update soundPast _) ascendsLater e).stands handed

/-- Once an object was sent as a proxy, the proxy keeps its slot while it is alive, the slot is not
given up, and sending the proxy back gives that object or a refusal. No cycle of a history finds a
slot of the graph missing. -/
theorem referential_integrity {settings : Settings} {start : Bridge} {events : List BridgeEvent}
    (fresh : Bridge.new settings = .ok start) (unwrapped : start.Unwrapped events) :
    (∀ past later e o p now, past ++ .send e (.ref o) now :: later = events →
      (start.history past).SendsAs e o p now →
      (((start.history events).side e.other).heap.isAlive p = true →
        ∃ k entry, ((start.history events).side e.other).remoteKey? p = some k ∧
          ((start.history events).side e.other).imports.entry? k = some (.weak p) ∧
          ((start.history events).side e).exports.entry? k.across = some entry ∧ entry ≠ .free) ∧
      ∀ time v, start.Unwrapped (events ++ [.send e.other (.ref p) time]) →
        ((start.history events).send e.other (.ref p) time).answer = .ok v → v = .ref o) ∧
    ∀ past event later cycling f, past ++ event :: later = events →
      (start.history past).cycleStart? event = some cycling →
      cycling.collect.answer ≠ .error (.graph f) := by
  have sound := sound_new fresh
  constructor
  · rintro past later e o p now rfl sends
    obtain ⟨k, stands⟩ := stands_of_sendsAs sound (current_new fresh) sends
      (ascends_of_unwrapped fresh unwrapped)
    refine ⟨fun alive => ?_, fun time v bound answered => ?_⟩
    · obtain ⟨key, listed, owns⟩ := stands.held alive
      rcases owns.used with detached | ⟨x, live⟩
      · exact ⟨k.across, _, key, listed, detached, fun free => nomatch free⟩
      · exact ⟨k.across, _, key, listed, live, fun free => nomatch free⟩
    · have ascends := (ascends_append.1 (ascends_of_unwrapped fresh bound)).2
      exact stands.send (sound_history sound _) ascends.1 answered
  · rintro past event later cycling f rfl begins
    exact graph_accepted (sound_cycleStart (sound_history sound past) begins) f

/-- An object is allocated on the far side and rooted there. Once it was sent, its proxy is rooted too
and dead references are released. -/
def rootedOnBoth : List BridgeEvent :=
  [.mutate .far (.alloc .ordinary []), .mutate .far (.addRoot ⟨0, 0⟩), .send .far (.ref ⟨0, 0⟩) 0,
    .mutate .near (.addRoot ⟨0, 0⟩), .scavenge]

theorem referential_integrity_after_scavenge :
    ∃ k entry, ((opened {}).history rootedOnBoth).near.remoteKey? ⟨0, 0⟩ = some k ∧
      ((opened {}).history rootedOnBoth).near.imports.entry? k = some (.weak ⟨0, 0⟩) ∧
      ((opened {}).history rootedOnBoth).far.exports.entry? k.across = some entry ∧
      entry ≠ .free := by
  have unwrapped : (opened {}).Unwrapped rootedOnBoth := unwrapped_of_length (by decide) _
  have kept := (referential_integrity (new_opened rfl) unwrapped).1 (rootedOnBoth.take 2)
    (rootedOnBoth.drop 3) .far ⟨0, 0⟩ ⟨0, 0⟩ 0 rfl ⟨by decide +kernel, by decide +kernel⟩
  exact kept.1 (by decide +kernel)

end TwinHeap.Bridge
