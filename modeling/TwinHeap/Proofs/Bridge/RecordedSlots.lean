import TwinHeap.Proofs.Bridge.Graphs
import TwinHeap.Proofs.Side.Respect

/-! Which slots the records of the far side may rely on. A slot that a record names is quarantined if
it is released while it is detached, but not if it is released while it holds its object. So a slot
that was given back and then released can go to another object while a record still names it. -/
namespace TwinHeap

namespace Bridge

variable {b : Bridge} {e : BridgeEnd} {v : Value} {k : Nat}

/-- The near side has no records. -/
theorem kept_side (sound : b.Sound) (kept : b.far.Kept) (e : BridgeEnd) : (b.side e).Kept := by
  cases e with
  | near => exact (sound.bare .near (.inl rfl)).kept
  | far => exact kept

section Moves

theorem kept_mutate (sound : b.Sound) (kept : b.far.Kept) (e : BridgeEnd) (m : Mutation) :
    (b.update (.mutate e m)).far.Kept := by
  cases e with
  | near => exact kept
  | far => exact Side.kept_of_aged (Heap.aged_mutate (sound.side .far).heap m) kept

theorem kept_native (sound : b.Sound) (kept : b.far.Kept) (e : BridgeEnd) :
    (b.update (.nativeCollect e)).far.Kept := by
  cases e with
  | near => exact kept
  | far => exact Side.kept_nativeCollect (sound.side .far) kept

theorem kept_pin (sound : b.Sound) (kept : b.far.Kept) (e : BridgeEnd) (v : Value) :
    (b.pin e v).2.far.Kept := by
  unfold pin
  cases v.object? with
  | none => exact kept
  | some id => exact kept_mutate sound kept e (.addRoot id)

theorem kept_unpin (sound : b.Sound) (kept : b.far.Kept) (e : BridgeEnd)
    (handle : Option RootHandle) : (b.unpin e handle).far.Kept := by
  cases handle with
  | none => exact kept
  | some r => exact kept_mutate sound kept e (.removeRoot r)

theorem kept_scavenge (kept : b.far.Kept) : b.scavenge.state.far.Kept := by
  have far : b.scavenge.state.far = b.far.tidied _ := b.side_scavenge .far
  rw [far]
  exact Side.kept_tidied kept _

theorem kept_cleared (kept : b.far.Kept) (now : Nat) : (b.cleared now).far.Kept := by
  unfold cleared
  dsimp only
  split
  · exact kept_scavenge kept
  · exact kept

/-- A cycle in the normal mode that is not refused leaves nothing at odds. -/
theorem kept_collect (sound : b.Sound) (normal : b.collector.settings.forceNative = false)
    (kept : b.far.Kept) : b.collect.state.far.Kept := by
  rcases cycle_cases sound with ⟨f, -, -, same⟩ | ⟨f, -, -, -, -, same⟩ | ⟨-, -, manages⟩
  · exact same ▸ kept
  · exact same ▸ kept
  · obtain ⟨s₁, s₂, -, severed, state⟩ := (normal ▸ manages).of_normal
    rw [state]
    exact fun k x y recorded live => severed.kept k x y recorded live

theorem collect_ne_brokenSlot (sound : b.Sound) (kept : b.far.Kept) :
    b.collect.answer ≠ .error (.brokenSlot k) := by
  intro refused
  rcases cycle_cases sound with ⟨f, short, answer, -⟩ | ⟨f, -, -, clash, -⟩ |
      ⟨-, ⟨report, answer⟩, -⟩
  · rw [refused] at answer
    cases answer
    rcases demand_eq_error short with ⟨text, same⟩ | ⟨n, same, -⟩ <;> cases same
  · exact Side.not_clashes (sound.side .far) kept b.far.liveProxies f clash
  · rw [refused] at answer
    cases answer

theorem kept_onCall (sound : b.Sound) (normal : b.collector.settings.forceNative = false)
    (kept : b.far.Kept) (now : Nat) : (b.onCall now).state.far.Kept := by
  have soundCleared := sound_calm (b.calm_cleared now) sound
  have normalCleared := mode_calm (b.calm_cleared now) normal
  have cycled := kept_collect soundCleared normalCleared (kept_cleared kept now)
  rw [(b.onCall_eq now).1]
  split
  · split <;> exact cycled
  · exact kept_cleared kept now

theorem onCall_ne_brokenSlot (sound : b.Sound) (kept : b.far.Kept) (now : Nat) :
    (b.onCall now).answer ≠ .error (.brokenSlot k) := by
  have soundCleared := sound_calm (b.calm_cleared now) sound
  have never := collect_ne_brokenSlot (k := k) soundCleared (kept_cleared kept now)
  rw [(b.onCall_eq now).2]
  split
  · split
    · exact fun same => nomatch same
    · rename_i f answer
      split
      · intro same
        cases same
        exact never answer
      · exact fun same => nomatch same
  · exact fun same => nomatch same

theorem kept_ready (sound : b.Sound) (normal : b.collector.settings.forceNative = false)
    (kept : b.far.Kept) (e : BridgeEnd) (v : Value) (now : Nat) :
    (b.ready e v now).far.Kept := by
  have soundPin := sound_calm (b.calm_pin e v) sound
  have normalPin := mode_calm (b.calm_pin e v) normal
  obtain ⟨b₁, b₂, before, turn, after⟩ := (b.pin e v).2.onCall_split now
  have soundCall := sound_calm after (sound_turn turn (sound_calm before soundPin))
  exact kept_unpin soundCall (kept_onCall soundPin normalPin (kept_pin sound kept e v) now) e _

end Moves

section Crossing

/-- An object that gets a slot travels as its number. -/
theorem answer_encode_of_share {o : ObjectId} {k : ExportKey}
    (plain : (b.side e).heap.proxy? o = none) (alive : (b.side e).heap.isAlive o = true)
    (shared : ((b.side e).exports.share o).answer = .ok k) :
    ((b.side e).encode (.ref o)).answer = .ok (.exported k) := by
  simp only [Side.encode, Side.share, plain, alive, Option.isSome_none, Bool.false_eq_true,
    if_false, if_true, Outcome.into, shared, Except.map]

/-- A crossing puts a slot at odds with the records only by handing a free one out. -/
theorem not_kept_cross_iff (sound : b.Sound) (kept : b.far.Kept) (e : BridgeEnd) (v : Value) :
    ¬ (b.cross e v).state.far.Kept ↔ ∃ o, e = .far ∧ v = .ref o ∧ b.far.HandsOut o := by
  rcases cross_cases sound e v with ⟨s, r, mendsS, mendsR, state, refused⟩ |
      ⟨o, k, exports, r, made, rfl, plain, alive, shared, rfl, fills, receives, -, state⟩
  · have after : (b.cross e v).state.far.Kept := by
      rw [state]
      cases e with
      | near => exact mendsR.kept (sound.side .far) kept
      | far => exact mendsS.kept (sound.side .far) kept
    refine ⟨fun broken => (broken after).elim, ?_⟩
    rintro ⟨o, rfl, rfl, plain, alive, k, -, shared, -⟩
    obtain ⟨f, answer, -⟩ := refused o rfl plain
    exact nomatch answer.symm.trans (answer_encode_of_share (e := .far) plain alive shared)
  · rw [state]
    cases e with
    | near =>
        have after := receives.kept (sound.side .far).heap kept
        refine ⟨fun broken => (broken after).elim, ?_⟩
        rintro ⟨_, here, -⟩
        cases here
    | far =>
        apply (Side.not_kept_share_iff (sound.side .far) kept plain alive shared).trans
        constructor
        · exact fun hands => ⟨o, rfl, rfl, hands⟩
        · rintro ⟨_, -, same, hands⟩
          cases same
          exact hands

theorem cross_ne_brokenSlot (sound : b.Sound) (kept : b.far.Kept) (e : BridgeEnd) (v : Value) :
    (b.cross e v).answer ≠ .error (.brokenSlot k) := by
  have every := kept_side sound kept
  have clear : ∀ x ps, ¬ (b.side x).Clashes ps (.brokenSlot k) := fun x ps =>
    Side.not_clashes (sound.side x) (every x) ps _
  unfold cross
  dsimp only
  cases answer : ((b.side e).encode v).answer with
  | error f =>
      dsimp only
      intro same
      cases same
      rcases Side.encode_eq_error answer with ⟨p, clash⟩ | ⟨cause, same⟩ | ⟨n, same⟩
      · exact clear e [p] clash
      · cases same
      · cases same
  | ok parcel =>
      dsimp only
      rw [side_setSide_other]
      intro same
      rcases Side.decode_eq_error same with clash | ⟨cause, same⟩ | same
      · exact clear e.other _ clash
      · cases same
      · cases same

end Crossing

section Events

/-- The event hands out a slot of the far side that a record still names. -/
def HandsOut (b : Bridge) : BridgeEvent → Prop
  | .send .far (.ref o) now =>
    ((b.pin .far (.ref o)).2.onCall now).answer = .ok () ∧
      (b.ready .far (.ref o) now).far.HandsOut o
  | _ => False

theorem send_ne_brokenSlot (sound : b.Sound) (normal : b.collector.settings.forceNative = false)
    (kept : b.far.Kept) (e : BridgeEnd) (v : Value) (now : Nat) :
    (b.send e v now).answer ≠ .error (.brokenSlot k) := by
  have soundPin := sound_calm (b.calm_pin e v) sound
  rcases b.send_cases e v now with ⟨f, worked, answer, -⟩ | ⟨-, -, answer⟩
  · rw [answer]
    intro same
    cases same
    exact onCall_ne_brokenSlot soundPin (kept_pin sound kept e v) now worked
  · rw [answer]
    exact cross_ne_brokenSlot (sound_ready sound e v now) (kept_ready sound normal kept e v now) e v

theorem not_kept_send_iff (sound : b.Sound) (normal : b.collector.settings.forceNative = false)
    (kept : b.far.Kept) (e : BridgeEnd) (v : Value) (now : Nat) :
    ¬ (b.update (.send e v now)).far.Kept ↔ b.HandsOut (.send e v now) := by
  have ready := kept_ready sound normal kept e v now
  have soundPin := sound_calm (b.calm_pin e v) sound
  have normalPin := mode_calm (b.calm_pin e v) normal
  have called := kept_onCall soundPin normalPin (kept_pin sound kept e v) now
  rcases b.send_cases e v now with ⟨f, worked, -, state⟩ | ⟨worked, state, -⟩
  · have after : (b.update (.send e v now)).far.Kept := by
      rcases state with state | state
      · exact (congrArg (fun b => b.far.Kept) state).mpr ready
      · exact (congrArg (fun b => b.far.Kept) state).mpr called
    refine ⟨fun broken => (broken after).elim, fun hands => ?_⟩
    unfold HandsOut at hands
    split at hands
    · rename_i same
      cases same
      exact nomatch worked.symm.trans hands.1
    · exact hands.elim
  · rw [update, state, not_kept_cross_iff (sound_ready sound e v now) ready]
    constructor
    · rintro ⟨o, rfl, rfl, hands⟩
      exact ⟨worked, hands⟩
    · intro hands
      unfold HandsOut at hands
      split at hands
      · rename_i same
        cases same
        exact ⟨_, rfl, rfl, hands.2⟩
      · exact hands.elim

/-- What an event puts at odds is a slot that it hands out. -/
theorem not_kept_update_iff (sound : b.Sound) (normal : b.collector.settings.forceNative = false)
    (kept : b.far.Kept) (event : BridgeEvent) :
    ¬ (b.update event).far.Kept ↔ b.HandsOut event := by
  have harmless : (b.update event).far.Kept → ¬ b.HandsOut event →
      (¬ (b.update event).far.Kept ↔ b.HandsOut event) := fun after none =>
    ⟨fun broken => (broken after).elim, fun hands => (none hands).elim⟩
  cases event with
  | mutate e m => exact harmless (kept_mutate sound kept e m) id
  | nativeCollect e => exact harmless (kept_native sound kept e) id
  | collect => exact harmless (kept_collect sound normal kept) id
  | scavenge => exact harmless (kept_scavenge kept) id
  | send e v now => exact not_kept_send_iff sound normal kept e v now

section Tabled

theorem tabled_calm {b' : Bridge} (calm : Calm b b') (sound : b.Sound) (tabled : b.far.Tabled) :
    b'.far.Tabled := by
  induction calm with
  | refl => exact tabled
  | trans first next ihFirst ihNext => exact ihNext (sound_calm first sound) (ihFirst sound tabled)
  | book b schedule collector same => exact tabled
  | mutate b e m =>
      cases e with
      | near => exact tabled
      | far =>
          have aged := Heap.aged_mutate (sound.side .far).heap m
          exact Side.tabled_of_recorded tabled (Side.recorded_of_aged aged) (Nat.le_refl _)
  | tidy b =>
      have size := (Exports.ordered_releaseAll (sound.side .far).ordered
        (b.near.deadKeys.map ImportKey.across)).2.1
      exact Side.tabled_of_recorded tabled (fun _ _ recorded => recorded) (Nat.le_of_eq size.symm)
  | cross b e v =>
      rcases cross_cases sound e v with ⟨s, r, mendsS, mendsR, state, -⟩ |
          ⟨o, k, exports, r, made, -, -, -, -, -, fills, receives, -, state⟩
      · rw [state]
        cases e with
        | near => exact mendsR.tabled (sound.side .far) tabled
        | far => exact mendsS.tabled (sound.side .far) tabled
      · rw [state]
        cases e with
        | near =>
            have recorded := receives.recorded (sound.side .far).heap
            exact Side.tabled_of_recorded tabled recorded
              (Nat.le_of_eq (congrArg Exports.size receives.exports.symm))
        | far =>
            have size : b.far.exports.size ≤ exports.size := by
              rw [fills.size]
              exact Nat.le_max_left _ _
            exact Side.tabled_of_recorded tabled (fun _ _ recorded => recorded) size

theorem tabled_turn {b' : Bridge} (turn : Turn b b') (sound : b.Sound) (tabled : b.far.Tabled) :
    b'.far.Tabled := by
  cases turn with
  | none => exact tabled
  | native e =>
      cases e with
      | near => exact tabled
      | far =>
          have aged := Side.aged_nativeCollect (sound.side .far)
          exact Side.tabled_of_recorded tabled (Side.recorded_of_aged aged) (Nat.le_refl _)
  | cycle =>
      rcases cycle_cases sound with ⟨f, -, -, same⟩ | ⟨f, -, -, -, -, same⟩ | ⟨-, -, manages⟩
      · exact same ▸ tabled
      · exact same ▸ tabled
      · cases mode : b.collector.settings.forceNative with
        | true =>
            have bare : b.collect.state.far.Unrecorded :=
              (sound_collect sound).bare .far (.inr (b.settings_collect ▸ mode))
            rintro k x ⟨p, recorded⟩
            exact (bare.not_recordOf recorded).elim
        | false =>
            obtain ⟨s₁, s₂, repairs, severed, state⟩ := (mode ▸ manages).of_normal
            show b.collect.state.far.Tabled
            rw [state]
            exact severed.tabled (repairs.mends.sound (sound.side .far))

theorem tabled_history (sound : b.Sound) (tabled : b.far.Tabled) (events : List BridgeEvent) :
    (b.history events).far.Tabled := by
  induction events generalizing b with
  | nil => exact tabled
  | cons event events ih =>
      obtain ⟨b₁, b₂, before, turn, after⟩ := b.update_split event
      have sound₁ := sound_calm before sound
      have tabled₁ := tabled_turn turn sound₁ (tabled_calm before sound tabled)
      exact ih (sound_update sound event) (tabled_calm after (sound_turn turn sound₁) tabled₁)

theorem tabled_ready (sound : b.Sound) (tabled : b.far.Tabled) (e : BridgeEnd) (v : Value)
    (now : Nat) : (b.ready e v now).far.Tabled := by
  obtain ⟨b₁, b₂, before, turn, after⟩ := b.ready_split e v now
  have sound₁ := sound_calm before sound
  have tabled₁ := tabled_turn turn sound₁ (tabled_calm before sound tabled)
  exact tabled_calm after (sound_turn turn sound₁) tabled₁

end Tabled

/-- As long as no event hands out a recorded slot, no state is at odds with the records. -/
theorem kept_history {events : List BridgeEvent} (sound : b.Sound)
    (normal : b.collector.settings.forceNative = false) (kept : b.far.Kept)
    (none : ∀ past event later, past ++ event :: later = events →
      ¬ (b.history past).HandsOut event) : (b.history events).far.Kept := by
  induction events generalizing b with
  | nil => exact kept
  | cons event events ih =>
      have first : (b.update event).far.Kept := Classical.byContradiction fun broken =>
        none [] event events rfl ((not_kept_update_iff sound normal kept event).1 broken)
      apply ih (sound_update sound event) (mode_update normal event) first
      rintro past x later rfl
      exact none (event :: past) x later rfl

section Releases

/-- A slot of the far side holds what a record names it with, while its proxy on the near side is
gone. -/
def Abandons (b : Bridge) : Prop :=
  ∃ k x, b.far.Recorded k x ∧ b.far.exports.entry? k = some (.live x) ∧ k.across ∈ b.near.deadKeys

/-- The event releases such a slot. -/
def Releases (b : Bridge) : BridgeEvent → Prop
  | .scavenge => b.Abandons
  | .send e v now => ((b.pin e v).2.schedule.call now).1.piggyback = true ∧ (b.pin e v).2.Abandons
  | .mutate .. | .nativeCollect _ | .collect => False

theorem reserved_mutate (sound : b.Sound) (reserved : b.far.Reserved) (e : BridgeEnd) (m : Mutation) :
    (b.update (.mutate e m)).far.Reserved := by
  cases e with
  | near => exact reserved
  | far =>
      have aged := Heap.aged_mutate (sound.side .far).heap m
      exact Side.reserved_of_recorded reserved (Side.recorded_of_aged aged) fun _ member => member

theorem reserved_native (sound : b.Sound) (reserved : b.far.Reserved) (e : BridgeEnd) :
    (b.update (.nativeCollect e)).far.Reserved := by
  cases e with
  | near => exact reserved
  | far =>
      have aged := Side.aged_nativeCollect (sound.side .far)
      exact Side.reserved_of_recorded reserved (Side.recorded_of_aged aged) fun _ member => member

theorem reserved_pin (sound : b.Sound) (reserved : b.far.Reserved) (e : BridgeEnd) (v : Value) :
    (b.pin e v).2.far.Reserved := by
  unfold pin
  cases v.object? with
  | none => exact reserved
  | some id => exact reserved_mutate sound reserved e (.addRoot id)

theorem reserved_unpin (sound : b.Sound) (reserved : b.far.Reserved) (e : BridgeEnd)
    (handle : Option RootHandle) : (b.unpin e handle).far.Reserved := by
  cases handle with
  | none => exact reserved
  | some r => exact reserved_mutate sound reserved e (.removeRoot r)

theorem reserved_scavenge (kept : b.far.Kept) (reserved : b.far.Reserved) (spared : ¬ b.Abandons) :
    b.scavenge.state.far.Reserved := by
  have far : b.scavenge.state.far = b.far.tidied _ := b.side_scavenge .far
  rw [far]
  exact Side.reserved_tidied kept reserved fun k x recorded live listed =>
    spared ⟨k, x, recorded, live, Side.mem_map_across.1 listed⟩

/-- A cycle that is carried out leaves no recorded slot free. -/
theorem reserved_collect (sound : b.Sound) (normal : b.collector.settings.forceNative = false)
    (reserved : b.far.Reserved) : b.collect.state.far.Reserved := by
  rcases cycle_cases sound with ⟨f, -, -, same⟩ | ⟨f, -, -, -, -, same⟩ | ⟨-, -, manages⟩
  · exact same ▸ reserved
  · exact same ▸ reserved
  · obtain ⟨s₁, s₂, repairs, severed, state⟩ := (normal ▸ manages).of_normal
    rw [state]
    exact severed.reserved (repairs.mends.sound (sound.side .far))

theorem reserved_cleared {now : Nat} (kept : b.far.Kept) (reserved : b.far.Reserved)
    (spared : (b.schedule.call now).1.piggyback = true → ¬ b.Abandons) :
    (b.cleared now).far.Reserved := by
  unfold cleared
  dsimp only
  split
  · rename_i due
    exact reserved_scavenge (b := { b with schedule := (b.schedule.call now).2 }) kept reserved
      (spared due)
  · exact reserved

theorem reserved_onCall {now : Nat} (sound : b.Sound)
    (normal : b.collector.settings.forceNative = false) (kept : b.far.Kept)
    (reserved : b.far.Reserved)
    (spared : (b.schedule.call now).1.piggyback = true → ¬ b.Abandons) :
    (b.onCall now).state.far.Reserved := by
  have cleared := reserved_cleared kept reserved spared
  have soundCleared := sound_calm (b.calm_cleared now) sound
  have normalCleared := mode_calm (b.calm_cleared now) normal
  have cycled := reserved_collect soundCleared normalCleared cleared
  rw [(b.onCall_eq now).1]
  split
  · split <;> exact cycled
  · exact cleared

theorem reserved_cross (sound : b.Sound) (reserved : b.far.Reserved) (e : BridgeEnd) (v : Value) :
    (b.cross e v).state.far.Reserved := by
  unfold cross
  dsimp only
  cases answer : ((b.side e).encode v).answer with
  | error f =>
      cases e with
      | near => exact reserved
      | far => exact Side.reserved_encode reserved v
  | ok parcel =>
      cases e with
      | near => exact Side.reserved_decode (sound.side .far) reserved parcel
      | far => exact Side.reserved_encode reserved v

/-- Unless an event releases a slot that holds what a record names it with, it hands no recorded slot
out and frees none. -/
theorem reserved_update (sound : b.Sound) (normal : b.collector.settings.forceNative = false)
    (tabled : b.far.Tabled) (kept : b.far.Kept) (reserved : b.far.Reserved) {event : BridgeEvent}
    (spared : ¬ b.Releases event) :
    (b.update event).far.Reserved ∧ ¬ b.HandsOut event := by
  cases event with
  | mutate e m => exact ⟨reserved_mutate sound reserved e m, id⟩
  | nativeCollect e => exact ⟨reserved_native sound reserved e, id⟩
  | collect => exact ⟨reserved_collect sound normal reserved, id⟩
  | scavenge => exact ⟨reserved_scavenge kept reserved spared, id⟩
  | send e v now =>
      have soundPin := sound_calm (b.calm_pin e v) sound
      have normalPin := mode_calm (b.calm_pin e v) normal
      have called := reserved_onCall soundPin normalPin (kept_pin sound kept e v)
        (reserved_pin sound reserved e v) fun due abandons => spared ⟨due, abandons⟩
      obtain ⟨b₁, b₂, before, turn, after⟩ := (b.pin e v).2.onCall_split now
      have soundCall := sound_calm after (sound_turn turn (sound_calm before soundPin))
      have ready : (b.ready e v now).far.Reserved := reserved_unpin soundCall called e _
      have soundReady := sound_ready sound e v now
      constructor
      · rcases b.send_cases e v now with ⟨f, -, -, state | state⟩ | ⟨-, state, -⟩
        · exact (congrArg (fun b => b.far.Reserved) state).mpr ready
        · exact (congrArg (fun b => b.far.Reserved) state).mpr called
        · exact (congrArg (fun b => b.far.Reserved) state).mpr (reserved_cross soundReady ready e v)
      · intro hands
        unfold HandsOut at hands
        split at hands
        · rename_i same
          cases same
          refine Side.not_handsOut (soundReady.side .far) ?_ ready _ hands.2
          exact tabled_ready sound tabled _ _ _
        · exact hands.elim

/-- In a history without such releases every state agrees with the records. -/
theorem kept_of_spared {events : List BridgeEvent} (sound : b.Sound)
    (normal : b.collector.settings.forceNative = false) (tabled : b.far.Tabled)
    (kept : b.far.Kept) (reserved : b.far.Reserved)
    (spared : ∀ past event later, past ++ event :: later = events →
      ¬ (b.history past).Releases event) : (b.history events).far.Kept := by
  induction events generalizing b with
  | nil => exact kept
  | cons event events ih =>
      obtain ⟨free, none⟩ := reserved_update sound normal tabled kept reserved
        (spared [] event events rfl)
      have first : (b.update event).far.Kept := Classical.byContradiction fun broken =>
        none ((not_kept_update_iff sound normal kept event).1 broken)
      refine ih (sound_update sound event) (mode_update normal event)
        (tabled_history sound tabled [event]) first free ?_
      rintro past x later rfl
      exact spared (event :: past) x later rfl

end Releases

/-- A state at odds with the records makes the next cycle fail. -/
theorem collect_of_not_kept (sound : b.Sound) (normal : b.collector.settings.forceNative = false)
    (broken : ¬ b.far.Kept) (room : b.demand = .ok ()) :
    ∃ k, b.collect.answer = .error (.brokenSlot k) := by
  rcases cycle_cases sound with ⟨f, short, -⟩ | ⟨f, -, -, clash, answer, -⟩ | ⟨-, -, manages⟩
  · exact nomatch room.symm.trans short
  · obtain ⟨k, x, y, -, -, rfl, -⟩ := Side.clash_of_planRepair clash
    exact ⟨k.number, answer⟩
  · obtain ⟨s₁, s₂, repairs, -⟩ := (normal ▸ manages).of_normal
    refine (broken fun k x y recorded live => ?_).elim
    exact repairs.agree k x y ((Side.recordedBy_liveProxies (sound.side .far).enlisted).2 recorded) live

end Events

/-- In the normal mode every state of a history respects the records exactly if no send of it gives an
object a free slot that a record still names. It takes the release of a recorded slot that holds its
object to make one free. While the records are respected, no cycle, no send and no repair meets a
broken slot. In a state in which they are not, a cycle does. -/
theorem records_respected {settings : Settings} {start : Bridge} {events : List BridgeEvent}
    (fresh : Bridge.new settings = .ok start) (normal : settings.forceNative = false) :
    let b := start.history events
    ((∀ past later, past ++ later = events → (start.history past).far.Respects) ↔
      ∀ past event later, past ++ event :: later = events →
        ¬ (start.history past).HandsOut event) ∧
    ((∀ past event later, past ++ event :: later = events →
      ¬ (start.history past).Releases event) →
        ∀ past later, past ++ later = events → (start.history past).far.Respects) ∧
    (b.far.Respects → ∀ k, b.collect.answer ≠ .error (.brokenSlot k) ∧
      (∀ e v now, (b.send e v now).answer ≠ .error (.brokenSlot k)) ∧
      ∀ e, (∀ p, ((b.side e).repairProxy p).answer ≠ .error (.brokenSlot k)) ∧
        (b.side e).repairAll.answer ≠ .error (.brokenSlot k)) ∧
    (¬ b.far.Respects → b.demand = .ok () → ∃ k, b.collect.answer = .error (.brokenSlot k)) := by
  have sound : ∀ past, (start.history past).Sound := sound_history (sound_new fresh)
  have mode : ∀ past, (start.history past).collector.settings.forceNative = false := by
    intro past
    rw [settings_history, settings_new fresh]
    exact normal
  have empty : start.far.Unrecorded := by
    cases eq_opened fresh
    exact fun p q proxy => nomatch proxy
  have tabled : start.far.Tabled := by
    rintro k x ⟨p, recorded⟩
    exact (empty.not_recordOf recorded).elim
  have same : ∀ past, (start.history past).far.Respects ↔ (start.history past).far.Kept :=
    fun past => Side.respects_iff (tabled_history (sound_new fresh) tabled past)
  refine ⟨⟨?_, ?_⟩, ?_, ?_, ?_⟩
  · rintro all past event later rfl hands
    have before := (same past).1 (all past (event :: later) rfl)
    have after : ((start.history past).update event).far.Kept := by
      have next := (same (past ++ [event])).1 (all (past ++ [event]) later (by simp))
      rwa [history_append] at next
    exact (not_kept_update_iff (sound past) (mode past) before event).2 hands after
  · rintro none past later rfl
    refine (same past).2 (kept_history (sound []) (mode []) empty.kept ?_)
    rintro first event rest rfl
    exact none first event (rest ++ later) (by simp)
  · rintro spared past later rfl
    refine (same past).2 (kept_of_spared (sound []) (mode []) tabled empty.kept empty.reserved ?_)
    rintro first event rest rfl
    exact spared first event (rest ++ later) (by simp)
  · intro respects k
    have kept := (same events).1 respects
    exact ⟨collect_ne_brokenSlot (sound events) kept,
      send_ne_brokenSlot (sound events) (mode events) kept, fun e =>
        Side.repair_ne_error ((sound events).side e) (kept_side (sound events) kept e) _⟩
  · intro broken room
    exact collect_of_not_kept (sound events) (mode events) (fun kept => broken ((same events).2 kept))
      room

/-- A cycle severs slot 0 of the far side, and the record of a proxy names it. Its object is exported
again, so that it is live when it is released, and another object gets it. -/
def reusedSlot : List BridgeEvent :=
  [.mutate .far (.alloc .ordinary []), .mutate .far (.addRoot ⟨0, 0⟩), .send .far (.ref ⟨0, 0⟩) 0,
    .mutate .near (.alloc .ordinary [.ref ⟨0, 0⟩]), .send .near (.ref ⟨1, 0⟩) 0,
    .mutate .far (.addRoot ⟨1, 0⟩), .collect, .send .far (.ref ⟨0, 0⟩) 0,
    .mutate .near (.setField ⟨1, 0⟩ 0 .nil), .nativeCollect .near, .scavenge,
    .mutate .far (.alloc .ordinary []), .send .far (.ref ⟨2, 0⟩) 0]

theorem records_respected_reused :
    ¬ ((opened byHand).history reusedSlot).far.Respects ∧
      ¬ ∀ past event later, past ++ event :: later = reusedSlot →
        ¬ ((opened byHand).history past).HandsOut event := by
  have all := @records_respected byHand (opened byHand) reusedSlot (new_opened rfl) rfl
  have broken : ¬ ((opened byHand).history reusedSlot).far.Respects := fun respects =>
    (all.2.2.1 respects 0).1 (by decide +kernel)
  exact ⟨broken, fun none => broken (all.1.2 none reusedSlot [] (List.append_nil _))⟩

/-- The slot is live with another object than the record of a proxy has for it, and the next cycle
fails. -/
theorem reused_slot_recorded :
    ((opened byHand).history reusedSlot).far.Recorded ⟨0⟩ ⟨0, 0⟩ ∧
      ((opened byHand).history reusedSlot).far.exports.entry? ⟨0⟩ = some (.live ⟨2, 0⟩) ∧
      ((opened byHand).history reusedSlot).collect.answer = .error (.brokenSlot 0) := by
  refine ⟨⟨⟨1, 0⟩, { key := ⟨0⟩, record := some { keys := [⟨0⟩], objects := [⟨0, 0⟩] } }, _, ?_, rfl,
    List.mem_cons_self⟩, ?_, ?_⟩
  · decide +kernel
  · decide +kernel
  · decide +kernel

end Bridge

end TwinHeap
