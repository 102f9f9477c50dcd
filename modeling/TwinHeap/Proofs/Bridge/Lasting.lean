import TwinHeap.Proofs.Bridge.Soundness

/-! Properties of a single side. What every step of a side keeps holds of both sides of a bridge along
every history. It can be left open what a parcel does, for histories that do not deliver it. -/
namespace TwinHeap

/-- Every step of a side keeps `P` when the manager runs in the mode `forced`, except that a parcel has
to be `Spared` to arrive. -/
structure Side.Lasting (forced : Bool) (Spared : Side → Parcel → Prop) (P : Side → Prop) : Prop where
  mutate : ∀ s m, s.Sound → P s → P { s with heap := s.heap.mutate m }
  tidied : ∀ s keys, s.Sound → P s → P (s.tidied keys)
  encode : ∀ s v, s.Sound → P s → P (s.encode v).state
  decode : ∀ s parcel, s.Sound → Spared s parcel → P s → P (s.decode parcel).state
  nativeCollect : ∀ s, s.Sound → P s → P s.nativeCollect.state
  manage : ∀ s m text, s.Sound → (forced = true → s.Unrecorded) → P s →
    P (Manager.collectText m s forced text).state.2

namespace Bridge

variable {forced : Bool} {Spared : Side → Parcel → Prop} {P : Side → Prop} {b : Bridge}
  {e : BridgeEnd} {v : Value}

/-- Both sides have the property. -/
def Everywhere (P : Side → Prop) (b : Bridge) : Prop := ∀ e, P (b.side e)

theorem Everywhere.setSide (every : b.Everywhere P) {s : Side} (new : P s) (e : BridgeEnd) :
    (b.setSide s e).Everywhere P := by
  intro x
  rcases eq_or_eq_other e x with rfl | rfl
  · rwa [side_setSide_same]
  · rw [side_setSide_other]
    exact every e.other

/-- A parcel that the event delivers is spared. Only a send delivers one, if the work that is due lets
it. -/
def Spares (Spared : Side → Parcel → Prop) (b : Bridge) : BridgeEvent → Prop
  | .send e v now =>
    ((b.pin e v).2.onCall now).answer = .ok () → ∀ parcel,
      (((b.ready e v now).side e).encode v).answer = .ok parcel →
        Spared ((b.ready e v now).side e.other) parcel
  | _ => True

theorem spares_of_forall (all : ∀ s parcel, Spared s parcel) (event : BridgeEvent) :
    b.Spares Spared event := by
  cases event with
  | send e v now => exact fun _ parcel _ => all _ parcel
  | mutate e m => trivial
  | nativeCollect e => trivial
  | collect => trivial
  | scavenge => trivial

section Steps

variable (lasting : Side.Lasting forced Spared P) (sound : b.Sound)
  (mode : b.collector.settings.forceNative = forced) (every : b.Everywhere P)

section Moves

include lasting sound every

theorem everywhere_mutate (e : BridgeEnd) (m : Mutation) :
    (b.update (.mutate e m)).Everywhere P :=
  every.setSide (lasting.mutate (b.side e) m (sound.side e) (every e)) e

theorem everywhere_native (e : BridgeEnd) : (b.update (.nativeCollect e)).Everywhere P :=
  every.setSide (lasting.nativeCollect (b.side e) (sound.side e) (every e)) e

theorem everywhere_pin (e : BridgeEnd) (v : Value) : (b.pin e v).2.Everywhere P := by
  unfold pin
  cases v.object? with
  | none => exact every
  | some id => exact everywhere_mutate lasting sound every e (.addRoot id)

theorem everywhere_unpin (e : BridgeEnd) (handle : Option RootHandle) :
    (b.unpin e handle).Everywhere P := by
  cases handle with
  | none => exact every
  | some r => exact everywhere_mutate lasting sound every e (.removeRoot r)

theorem everywhere_scavenge : b.scavenge.state.Everywhere P := by
  intro e
  rw [side_scavenge]
  exact lasting.tidied (b.side e) _ (sound.side e) (every e)

theorem everywhere_cleared (now : Nat) : (b.cleared now).Everywhere P := by
  have booked : Sound { b with schedule := (b.schedule.call now).2 } := sound_book sound _ rfl
  unfold cleared
  dsimp only
  split
  · refine everywhere_scavenge lasting booked fun e => ?_
    cases e with
    | near => exact every .near
    | far => exact every .far
  · intro e
    cases e with
    | near => exact every .near
    | far => exact every .far

theorem everywhere_cross
    (spared : ∀ parcel, ((b.side e).encode v).answer = .ok parcel → Spared (b.side e.other) parcel) :
    (b.cross e v).state.Everywhere P := by
  have left := every.setSide (lasting.encode (b.side e) v (sound.side e) (every e)) e
  unfold cross
  dsimp only
  split
  · exact left
  · rename_i parcel answer
    rw [side_setSide_other]
    exact left.setSide (lasting.decode (b.side e.other) parcel (sound.side e.other)
      (spared parcel answer) (every e.other)) e.other

end Moves

include lasting sound mode every

theorem everywhere_collect : b.collect.state.Everywhere P := by
  intro e
  cases e with
  | near => exact every .near
  | far =>
      show P b.collect.state.far
      rcases b.collect_cases with ⟨f, -, -, same⟩ | ⟨-, far, -⟩
      · rw [same]
        exact every .far
      · have bare : forced = true → b.far.Unrecorded := fun on =>
          sound.bare .far (.inr (mode.trans on))
        rw [far, managed, mode]
        exact lasting.manage b.far b.manager _ (sound.side .far) bare (every .far)

theorem everywhere_onCall (now : Nat) : (b.onCall now).state.Everywhere P := by
  have cleared := everywhere_cleared lasting sound every now
  have cycled := everywhere_collect lasting (sound_calm (b.calm_cleared now) sound)
    (mode_calm (b.calm_cleared now) mode) cleared
  rw [(b.onCall_eq now).1]
  split
  · split
    · intro e
      cases e with
      | near => exact cycled .near
      | far => exact cycled .far
    · exact cycled
  · exact cleared

theorem everywhere_called (e : BridgeEnd) (v : Value) (now : Nat) :
    ((b.pin e v).2.onCall now).state.Everywhere P :=
  everywhere_onCall lasting (sound_calm (b.calm_pin e v) sound) (mode_calm (b.calm_pin e v) mode)
    (everywhere_pin lasting sound every e v) now

theorem everywhere_ready (e : BridgeEnd) (v : Value) (now : Nat) :
    (b.ready e v now).Everywhere P := by
  exact everywhere_unpin lasting (sound_called sound e v now)
    (everywhere_called lasting sound mode every e v now) e _

theorem everywhere_update {event : BridgeEvent} (spares : b.Spares Spared event) :
    (b.update event).Everywhere P := by
  cases event with
  | mutate e m => exact everywhere_mutate lasting sound every e m
  | nativeCollect e => exact everywhere_native lasting sound every e
  | collect => exact everywhere_collect lasting sound mode every
  | scavenge => exact everywhere_scavenge lasting sound every
  | send e v now =>
      have ready := everywhere_ready lasting sound mode every e v now
      rcases b.send_cases e v now with ⟨f, -, -, state | state⟩ | ⟨worked, state, -⟩
      · exact (congrArg (Everywhere P) state).mpr ready
      · exact (congrArg (Everywhere P) state).mpr
          (everywhere_called lasting sound mode every e v now)
      · exact (congrArg (Everywhere P) state).mpr
          (everywhere_cross lasting (sound_ready sound e v now) ready (spares worked))

/-- A property that lasts holds in every state of a history whose parcels are spared. -/
theorem everywhere_history {events : List BridgeEvent}
    (spares : ∀ past event later, past ++ event :: later = events →
      (b.history past).Spares Spared event) : (b.history events).Everywhere P := by
  induction events generalizing b with
  | nil => exact every
  | cons event events ih =>
      have first := everywhere_update lasting sound mode every (spares [] event events rfl)
      refine ih (sound_update sound event) (mode_update mode event) first ?_
      intro past x later split
      exact spares (event :: past) x later (congrArg (List.cons event) split)

end Steps

end Bridge

end TwinHeap
