import TwinHeap.Proofs.Bridge.Soundness

/-! Names are reused only after a cell has lost 2^32 objects. In a history in which no cell does, the
generations of every cell ascend. -/
namespace TwinHeap.Bridge

variable {b b' : Bridge}

/-- How many events of a history empty a cell. No event empties a cell twice. -/
def sweeps (e : BridgeEnd) (slot : Nat) : Bridge → List BridgeEvent → Nat
  | _, [] => 0
  | b, event :: rest =>
    (if ((b.update event).side e).heap.age slot = (b.side e).heap.age slot then 0 else 1) +
      sweeps e slot (b.update event) rest

/-- No cell of either heap is emptied 2^32 times. -/
def Unwrapped (b : Bridge) (events : List BridgeEvent) : Prop :=
  ∀ e slot, sweeps e slot b events < UInt32.size

theorem sweeps_le (e : BridgeEnd) (slot : Nat) (b : Bridge) (events : List BridgeEvent) :
    sweeps e slot b events ≤ events.length := by
  induction events generalizing b with
  | nil => exact Nat.le_refl 0
  | cons event events ih =>
      have later := ih (b.update event)
      rw [sweeps, List.length_cons]
      split <;> omega

/-- A history of fewer events is too short for it. -/
theorem unwrapped_of_length {events : List BridgeEvent} (short : events.length < UInt32.size)
    (b : Bridge) : Unwrapped b events :=
  fun e slot => Nat.lt_of_le_of_lt (sweeps_le e slot b events) short

theorem age_program (b : Bridge) (x : BridgeEnd) (m : Mutation) (e : BridgeEnd) (slot : Nat) :
    ((b.update (.mutate x m)).side e).heap.age slot = (b.side e).heap.age slot := by
  rcases eq_or_eq_other x e with rfl | rfl
  · rw [update, side_setSide_same]
    exact Heap.age_mutate m slot
  · rw [update, side_setSide_other]

/-- No cell has gone round. -/
def Rises (b b' : Bridge) : Prop := ∀ e, (b.side e).heap.Rising (b'.side e).heap

/-- No cell goes round in any event. -/
def Ascends : Bridge → List BridgeEvent → Prop
  | _, [] => True
  | b, event :: rest => Rises b (b.update event) ∧ Ascends (b.update event) rest

theorem age_calm (calm : Calm b b') (sound : b.Sound) (e : BridgeEnd) (slot : Nat) :
    (b'.side e).heap.age slot = (b.side e).heap.age slot := by
  induction calm with
  | refl => rfl
  | trans first next ihFirst ihNext =>
      exact (ihNext (sound_calm first sound)).trans (ihFirst sound)
  | book b schedule collector same => cases e <;> rfl
  | mutate b x m => exact age_program b x m e slot
  | tidy b => cases e <;> rfl
  | cross b x v =>
      rcases cross_cases sound x v with ⟨s, r, left, right, state, -⟩ |
          ⟨o, k, exports, r, made, -, -, -, -, -, -, receives, -, state⟩
      · rcases eq_or_eq_other x e with rfl | rfl
        · rw [state, side_setSide_first]
          exact left.heap.age slot
        · rw [state, side_setSide_same]
          exact right.heap.age slot
      · rcases eq_or_eq_other x e with rfl | rfl
        · rw [state, side_setSide_first]
        · rw [state, side_setSide_same]
          exact receives.age slot

theorem age_turn (turn : Turn b b') (sound : b.Sound) (e : BridgeEnd) (slot : Nat) :
    (b'.side e).heap.age slot = (b.side e).heap.age slot ∨
      (b'.side e).heap.age slot = (b.side e).heap.age slot + 1 := by
  cases turn with
  | none => exact .inl rfl
  | native x =>
      rcases eq_or_eq_other x e with rfl | rfl
      · rw [update, side_setSide_same]
        exact Heap.age_sweep _ slot
      · rw [update, side_setSide_other]
        exact .inl rfl
  | cycle =>
      cases e
      · exact .inl rfl
      · show b.collect.state.far.heap.age slot = _ ∨ b.collect.state.far.heap.age slot = _
        rcases far_collect_cases sound with same | ⟨g, incoming, -, -, manages⟩
        · rw [same]
          exact .inl rfl
        · cases forced : b.collector.settings.forceNative with
          | false =>
              rw [forced] at manages
              exact .inl (manages.recast.age slot)
          | true =>
              rw [forced] at manages
              cases manages with
              | @severFirst s _ severed repairs =>
                  have swept := s.age_nativeCollect slot
                  rw [severed.heap.age] at swept
                  rw [repairs.heap.age]
                  exact swept

theorem age_update (sound : b.Sound) (event : BridgeEvent) (e : BridgeEnd) (slot : Nat) :
    ((b.update event).side e).heap.age slot = (b.side e).heap.age slot ∨
      ((b.update event).side e).heap.age slot = (b.side e).heap.age slot + 1 := by
  obtain ⟨b₁, b₂, before, turn, after⟩ := b.update_split event
  have soundFirst := sound_calm before sound
  rw [age_calm after (sound_turn turn soundFirst), ← age_calm before sound]
  exact age_turn turn soundFirst e slot

/-- An event that makes generations ascend does so in its run of a collector. -/
theorem rises_turn {b₁ b₂ : Bridge} (before : Calm b b₁) (turn : Turn b₁ b₂) (after : Calm b₂ b')
    (sound : b.Sound) (rises : Rises b b') : Rises b₁ b₂ := by
  intro e slot
  have soundFirst := sound_calm before sound
  have up := rises e slot
  rw [age_calm after (sound_turn turn soundFirst)] at up
  rwa [age_calm before sound]

theorem age_new {settings : Settings} (fresh : Bridge.new settings = .ok b) (e : BridgeEnd)
    (slot : Nat) : (b.side e).heap.age slot = 0 := by
  cases eq_opened fresh
  cases e <;> rfl

/-- Where a cell stands after `count` sweeps, the next `sweeps` take it no further than the limit. -/
theorem ascends_of_age {events : List BridgeEvent} (sound : b.Sound) (count : BridgeEnd → Nat → Nat)
    (age : ∀ e slot, ((b.side e).heap.age slot).toNat = count e slot)
    (bound : ∀ e slot, count e slot + sweeps e slot b events < UInt32.size) : Ascends b events := by
  induction events generalizing b count with
  | nil => trivial
  | cons event rest ih =>
      have step : ∀ e slot, ((b.side e).heap.age slot).toNat +
          (if ((b.update event).side e).heap.age slot = (b.side e).heap.age slot then 0 else 1) =
            (((b.update event).side e).heap.age slot).toNat := by
        intro e slot
        have room := bound e slot
        rw [sweeps, ← age e slot] at room
        rcases age_update sound event e slot with same | next
        · rw [if_pos same, same]
          rfl
        · by_cases same : ((b.update event).side e).heap.age slot = (b.side e).heap.age slot
          · rw [if_pos same, same]
            rfl
          · rw [if_neg same] at room ⊢
            rw [next, UInt32.toNat_add, UInt32.toNat_one]
            have size : UInt32.size = 2 ^ 32 := rfl
            rw [Nat.mod_eq_of_lt (by omega)]
      refine ⟨fun e slot => ?_, ?_⟩
      · rw [UInt32.le_iff_toNat_le, ← step e slot]
        exact Nat.le_add_right _ _
      · apply ih (sound_update sound event) _ (fun e slot => (step e slot).symm)
        intro e slot
        have room := bound e slot
        rw [sweeps, ← age e slot] at room
        rw [Nat.add_assoc]
        exact room

theorem ascends_of_unwrapped {settings : Settings} {events : List BridgeEvent}
    (fresh : Bridge.new settings = .ok b) (unwrapped : Unwrapped b events) : Ascends b events := by
  refine ascends_of_age (sound_new fresh) (fun _ _ => 0) ?_ ?_
  · intro e slot
    rw [age_new fresh]
    rfl
  · intro e slot
    rw [Nat.zero_add]
    exact unwrapped e slot

theorem ascends_append {first rest : List BridgeEvent} :
    Ascends b (first ++ rest) ↔ Ascends b first ∧ Ascends (b.history first) rest := by
  induction first generalizing b with
  | nil => exact ⟨fun all => ⟨trivial, all⟩, And.right⟩
  | cons event first ih =>
      show Rises b (b.update event) ∧ Ascends (b.update event) (first ++ rest) ↔
        (Rises b (b.update event) ∧ Ascends (b.update event) first) ∧
          Ascends ((b.update event).history first) rest
      rw [ih, and_assoc]

end TwinHeap.Bridge
