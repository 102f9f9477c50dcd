import TwinHeap.Proofs.Bridge.Moves

/-! What holds of a bridge in every state of every history, also when generations go round. -/
namespace TwinHeap.Bridge

variable {b b' : Bridge} {e : BridgeEnd}

/-- No proxy of this end ever has a record between two events. -/
def Bare (b : Bridge) (e : BridgeEnd) : Prop :=
  e = .near ∨ b.collector.settings.forceNative = true

structure Sound (b : Bridge) : Prop where
  side : ∀ e, (b.side e).Sound
  coupled : ∀ e, (b.side e).Coupled (b.side e.other)
  bare : ∀ e, b.Bare e → (b.side e).Unrecorded

/-- Both sides of a bridge are exchanged. -/
theorem sound_replace {s r : Side} (hs : s.Sound) (hr : r.Sound)
    (there : s.Coupled r) (back : r.Coupled s) (bareS : b.Bare e → s.Unrecorded)
    (bareR : b.Bare e.other → r.Unrecorded) : ((b.setSide s e).setSide r e.other).Sound := by
  have first := side_setSide_first b s r e
  have second := side_setSide_same (b.setSide s e) r e.other
  refine ⟨fun x => ?_, fun x => ?_, fun x bare => ?_⟩
  · rcases eq_or_eq_other e x with rfl | rfl
    · rwa [first]
    · rwa [second]
  · rcases eq_or_eq_other e x with rfl | rfl
    · rwa [first, second]
    · rwa [second, other_other, first]
  · rw [Bare, collector_setSide, collector_setSide] at bare
    rcases eq_or_eq_other e x with rfl | rfl
    · rw [first]
      exact bareS bare
    · rw [second]
      exact bareR bare

/-- One side of a bridge is exchanged, and its tables keep the slots that are in use. -/
theorem Sound.replace_one (sound : b.Sound) {s : Side} (hs : s.Sound)
    (steady : (b.side e).Steady s) (bareS : b.Bare e → s.Unrecorded) : (b.setSide s e).Sound := by
  have kept : (b.setSide s e).setSide (b.side e.other) e.other = b.setSide s e := by
    rw [← side_setSide_other b s e, setSide_side]
  rw [← kept]
  refine sound_replace hs (sound.side e.other) ((sound.coupled e).steady_owner steady) ?_ bareS
    (sound.bare e.other)
  have back := sound.coupled e.other
  rw [other_other] at back
  exact back.steady_holder steady.imports

theorem sound_book (sound : b.Sound) (schedule : Schedule) {collector : Collector}
    (same : collector.settings = b.collector.settings) :
    Sound { b with schedule, collector } where
  side := fun e => by
    cases e
    · exact sound.side .near
    · exact sound.side .far
  coupled := fun e => by
    cases e
    · exact sound.coupled .near
    · exact sound.coupled .far
  bare := fun e bare => by
    rw [Bare, same] at bare
    cases e
    · exact sound.bare .near bare
    · exact sound.bare .far bare

theorem sound_new {settings : Settings} (fresh : Bridge.new settings = .ok b) : b.Sound := by
  cases eq_opened fresh
  have empty : ∀ name, Side.Sound { name } := fun name =>
    ⟨Heap.wellFormed_empty, Exports.ordered_empty, fun p q proxy => (nomatch proxy),
      fun k x y detached => (nomatch detached)⟩
  have bare : ∀ name, Side.Unrecorded { name } := fun name p q proxy => (nomatch proxy)
  have apart : ∀ one two, Side.Coupled { name := one } { name := two } := fun one two => by
    refine ⟨rfl, fun k p weak => ?_⟩
    cases weak
  refine ⟨fun e => ?_, fun e => ?_, fun e _ => ?_⟩
  · cases e <;> exact empty _
  · cases e <;> exact apart _ _
  · cases e <;> exact bare _

/-- A value that crosses mends slots on both sides, unless it is an object that is exported. That one
has its slot also if there is no room for a proxy on the other side. -/
theorem cross_cases (sound : b.Sound) (e : BridgeEnd) (v : Value) :
    (∃ s r, (b.side e).Mends s ∧ (b.side e.other).Mends r ∧
      (b.cross e v).state = (b.setSide s e).setSide r e.other ∧
      ∀ o, v = .ref o → (b.side e).heap.proxy? o = none →
        ∃ f, ((b.side e).encode v).answer = .error f ∧ (b.cross e v).answer = .error f) ∨
    ∃ o k exports r made, v = .ref o ∧ (b.side e).heap.proxy? o = none ∧
      (b.side e).heap.isAlive o = true ∧ ((b.side e).exports.share o).answer = .ok k ∧
      exports = ((b.side e).exports.share o).state ∧ (b.side e).exports.Fills k o exports ∧
      (b.side e.other).Receives k.across made r ∧ (b.cross e v).answer = made.map .ref ∧
      (b.cross e v).state = (b.setSide { b.side e with exports } e).setSide r e.other := by
  unfold cross
  dsimp only
  rcases (b.side e).encode_cases (sound.side e).ordered v with ⟨mends, other⟩ |
      ⟨o, k, exports, rfl, plain, alive, shared, answer, state, after, fills⟩
  · refine .inl ⟨((b.side e).encode v).state, ?_⟩
    cases answer : ((b.side e).encode v).answer with
    | error f =>
        refine ⟨b.side e.other, mends, .refl _, ?_, fun _ _ _ => ⟨f, rfl, rfl⟩⟩
        dsimp only
        rw [← side_setSide_other b ((b.side e).encode v).state e, setSide_side]
    | ok parcel =>
        have nonExport : ∀ k, parcel ≠ .exported k := by
          rintro k rfl
          exact other k answer
        have back := Side.mends_decode (b.side e.other) (sound.side e.other).ordered nonExport
        dsimp only
        rw [side_setSide_other]
        refine ⟨_, mends, back, rfl, ?_⟩
        rintro o rfl plain
        rcases Side.encode_eq_ok answer with ⟨k, rfl⟩ | ⟨same, -⟩ | ⟨n, same, -⟩ | ⟨p, k, same, key, -⟩
        · exact (nonExport k rfl).elim
        · cases same
        · cases same
        · cases same
          simp [Side.remoteKey?, plain] at key
  · have received := (b.side e.other).receives_proxyFor k.across
    rw [answer, state]
    dsimp only
    rw [side_setSide_other]
    exact .inr ⟨o, k, exports, _, _, rfl, plain, alive, shared, after, fills, received, rfl, rfl⟩

theorem sound_cross (sound : b.Sound) (e : BridgeEnd) (v : Value) :
    (b.cross e v).state.Sound := by
  have back := sound.coupled e.other
  rw [other_other] at back
  rcases cross_cases sound e v with ⟨s, r, left, right, state, -⟩ |
      ⟨o, k, exports, r, made, -, -, -, shared, rfl, fills, receives, -, state⟩
  · rw [state]
    have steadyS := left.steady (sound.side e).ordered
    have steadyR := right.steady (sound.side e.other).ordered
    refine sound_replace (left.sound (sound.side e)) (right.sound (sound.side e.other)) ?_ ?_
      (fun bare => left.unrecorded (sound.bare e bare))
      fun bare => right.unrecorded (sound.bare e.other bare)
    · exact ((sound.coupled e).steady_owner steadyS).steady_holder right.imports
    · exact (back.steady_owner steadyR).steady_holder left.imports
  · rw [state]
    have hw := (sound.side e.other).heap
    refine sound_replace (Side.sound_of_fills fills (sound.side e))
      (receives.sound (sound.side e.other)) ((sound.coupled e).export fills receives) ?_
      (fun bare => sound.bare e bare) fun bare => receives.unrecorded hw (sound.bare e.other bare)
    exact ⟨receives.exports ▸ back.size, fun n p weak => receives.exports ▸ back.used n p weak⟩

theorem sound_mutate (sound : b.Sound) (e : BridgeEnd) (m : Mutation) :
    (b.update (.mutate e m)).Sound := by
  have aged := Heap.aged_mutate (sound.side e).heap m
  exact sound.replace_one (Side.sound_of_aged aged (sound.side e)) ⟨rfl, rfl, fun _ => .rfl⟩
    fun bare => Side.unrecorded_of_aged aged (sound.bare e bare)

theorem sound_tidy (sound : b.Sound) : Sound
    { b with
      near := b.near.tidied (b.far.deadKeys.map ImportKey.across)
      far := b.far.tidied (b.near.deadKeys.map ImportKey.across) } where
  side := fun e => by
    cases e
    · exact Side.sound_tidied (sound.side .near) _
    · exact Side.sound_tidied (sound.side .far) _
  coupled := fun e => by
    cases e
    · exact (sound.coupled .near).tidied _
    · exact (sound.coupled .far).tidied _
  bare := fun e bare => by
    cases e
    · exact sound.bare .near bare
    · exact sound.bare .far bare

theorem sound_calm (calm : Calm b b') (sound : b.Sound) : b'.Sound := by
  induction calm with
  | refl => exact sound
  | trans _ _ first next => exact next (first sound)
  | book b schedule collector same => exact sound_book sound schedule same
  | mutate b e m => exact sound_mutate sound e m
  | tidy b => exact sound_tidy sound
  | cross b e v => exact sound_cross sound e v

theorem sound_native (sound : b.Sound) (e : BridgeEnd) : (b.update (.nativeCollect e)).Sound :=
  sound.replace_one (Side.sound_nativeCollect (sound.side e)) (Side.steady_nativeCollect _)
    fun bare => Side.unrecorded_of_aged (Side.aged_nativeCollect (sound.side e)) (sound.bare e bare)

/-- A cycle leaves the far side alone, or the manager has worked on it. -/
theorem far_collect_cases (sound : b.Sound) :
    b.collect.state.far = b.far ∨
    ∃ g incoming, EdgeGraph.ofText b.outgoing.toText = .ok g ∧
      IncomingGraph.ofGraph g b.far = .ok incoming ∧
      Manager.Manages b.far incoming b.collector.settings.forceNative b.collect.state.far := by
  rcases b.collect_cases with ⟨f, -, -, same⟩ | ⟨-, far, -⟩
  · exact .inl same
  · rcases b.manager.collectText_cases b.collector.settings.forceNative b.outgoing.toText
        (sound.side .far) (fun forced => sound.bare .far (.inr forced)) with
        ⟨f, -, -, state⟩ | ⟨g, incoming, read, fits, -, manages⟩
    · left
      rw [far, managed]
      exact congrArg Prod.snd state
    · refine .inr ⟨g, incoming, read, fits, ?_⟩
      rw [far]
      exact manages

theorem sound_collect (sound : b.Sound) : b.collect.state.Sound := by
  have state : b.collect.state =
      { b.setSide b.collect.state.far .far with
        schedule := b.schedule
        collector := b.collect.state.collector
        manager := b.collect.state.manager } := rfl
  have replaced : (b.setSide b.collect.state.far .far).Sound := by
    rcases far_collect_cases sound with same | ⟨g, incoming, -, -, manages⟩
    · rw [same]
      exact (setSide_side b .far).symm ▸ sound
    · refine sound.replace_one (e := .far) (manages.sound (sound.side .far))
        (manages.steady (sound.side .far)) ?_
      rintro (near | forced)
      · cases near
      · rw [forced] at manages
        exact manages.unrecorded (sound.side .far)
  rw [state]
  have booked := sound_book replaced b.schedule b.settings_collect
  exact ⟨booked.side, booked.coupled, booked.bare⟩

theorem sound_turn (turn : Turn b b') (sound : b.Sound) : b'.Sound := by
  cases turn with
  | none => exact sound
  | native e => exact sound_native sound e
  | cycle => exact sound_collect sound

theorem sound_ready (sound : b.Sound) (e : BridgeEnd) (v : Value) (now : Nat) :
    (b.ready e v now).Sound := by
  obtain ⟨b₁, b₂, before, turn, after⟩ := b.ready_split e v now
  exact sound_calm after (sound_turn turn (sound_calm before sound))

theorem sound_called (sound : b.Sound) (e : BridgeEnd) (v : Value) (now : Nat) :
    ((b.pin e v).2.onCall now).state.Sound := by
  obtain ⟨b₁, b₂, before, turn, after⟩ := (b.pin e v).2.onCall_split now
  exact sound_calm after (sound_turn turn (sound_calm ((b.calm_pin e v).trans before) sound))

theorem sound_update (sound : b.Sound) (event : BridgeEvent) : (b.update event).Sound := by
  obtain ⟨b₁, b₂, before, turn, after⟩ := b.update_split event
  exact sound_calm after (sound_turn turn (sound_calm before sound))

theorem sound_history (sound : b.Sound) (events : List BridgeEvent) : (b.history events).Sound := by
  induction events generalizing b with
  | nil => exact sound
  | cons event events ih => exact ih (sound_update sound event)

section Settings

theorem settings_calm (calm : Calm b b') : b'.collector.settings = b.collector.settings := by
  induction calm with
  | refl => rfl
  | trans _ _ first next => exact next.trans first
  | book b schedule collector same => exact same
  | mutate b e m => exact congrArg Collector.settings (collector_setSide b _ e)
  | tidy b => rfl
  | cross b e v =>
      unfold cross
      dsimp only
      split <;> simp only [collector_setSide]

theorem settings_turn (turn : Turn b b') : b'.collector.settings = b.collector.settings := by
  cases turn with
  | none => rfl
  | native e => exact congrArg Collector.settings (collector_setSide b _ e)
  | cycle => exact b.settings_collect

theorem settings_history (b : Bridge) (events : List BridgeEvent) :
    (b.history events).collector.settings = b.collector.settings := by
  induction events generalizing b with
  | nil => rfl
  | cons event events ih =>
      obtain ⟨b₁, b₂, before, turn, after⟩ := b.update_split event
      exact (ih (b.update event)).trans
        ((settings_calm after).trans ((settings_turn turn).trans (settings_calm before)))

theorem mode_calm {forced : Bool} (calm : Calm b b')
    (mode : b.collector.settings.forceNative = forced) :
    b'.collector.settings.forceNative = forced :=
  (congrArg Settings.forceNative (settings_calm calm)).trans mode

theorem mode_update {forced : Bool} (mode : b.collector.settings.forceNative = forced)
    (event : BridgeEvent) : (b.update event).collector.settings.forceNative = forced :=
  (congrArg Settings.forceNative (settings_history b [event])).trans mode

theorem settings_new {settings : Settings} (fresh : Bridge.new settings = .ok b) :
    b.collector.settings = settings := by
  cases eq_opened fresh
  rfl

end Settings

end TwinHeap.Bridge
