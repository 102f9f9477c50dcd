import TwinHeap.Proofs.Bridge.Generations

/-! A proxy goes on to stand for the object that it was made for, as long as it is alive. Its slot can
be severed and restored in between, but it is not given to another object. -/
namespace TwinHeap

namespace Side

/-- Known names keep what they have in the import table, as long as they are alive. -/
structure Carries (s s' : Side) : Prop where
  onward : s.heap.Onward s'.heap
  entry : ∀ k p, s.imports.entry? k = some (.weak p) → s.heap.Known p →
    s'.heap.isAlive p = true → s'.imports.entry? k = some (.weak p)

variable {s s' s'' : Side}

theorem carries_of_onward (onward : s.heap.Onward s'.heap) (same : s'.imports = s.imports) :
    s.Carries s' :=
  ⟨onward, fun _ _ entry _ _ => same ▸ entry⟩

theorem Carries.trans (first : s.Carries s') (next : s'.Carries s'') : s.Carries s'' where
  onward := first.onward.trans next.onward
  entry := fun k p entry known alive => by
    have known' := first.onward.known p known
    have alive' := next.onward.alive p known' alive
    exact next.entry k p (first.entry k p entry known alive') known' alive

theorem Receives.carries {k : ImportKey} {made : Except Fault ObjectId}
    (receives : s.Receives k made s') (hw : s.heap.WellFormed) : s.Carries s' where
  onward := receives.onward hw
  entry := fun _ x entry known alive =>
    receives.entry entry ((receives.onward hw).alive x known alive)

theorem carries_tidied (s : Side) (keys : List ExportKey) : s.Carries (s.tidied keys) where
  onward := .refl s.heap
  entry := fun _ _ entry _ alive => Imports.entry?_scavenge_weak.2 ⟨entry, alive⟩

end Side

namespace Bridge

variable {b b' b'' : Bridge} {e : BridgeEnd}

/-- The side of `e` keeps its slots for the objects that live proxies of the other side name. -/
structure Honours (b b' : Bridge) (e : BridgeEnd) : Prop where
  carries : (b.side e.other).Carries (b'.side e.other)
  owns : ∀ k o p, (b.side e.other).imports.entry? k.across = some (.weak p) →
    (b.side e.other).heap.Known p → (b'.side e.other).heap.isAlive p = true →
    (b.side e).Owns k o → (b'.side e).Owns k o

theorem Honours.refl (b : Bridge) (e : BridgeEnd) : Honours b b e where
  carries := Side.carries_of_onward (.refl _) rfl
  owns := fun _ _ _ _ _ _ owns => owns

theorem Honours.trans (first : Honours b b' e) (next : Honours b' b'' e) : Honours b b'' e where
  carries := first.carries.trans next.carries
  owns := fun k o p entry known alive owns => by
    have known' := first.carries.onward.known p known
    have alive' := next.carries.onward.alive p known' alive
    exact next.owns k o p (first.carries.entry k.across p entry known alive') known' alive
      (first.owns k o p entry known alive' owns)

/-- No slot has been released. -/
theorem honours_of_owns (carries : (b.side e.other).Carries (b'.side e.other))
    (owns : ∀ k o, (b.side e).Owns k o → (b'.side e).Owns k o) : Honours b b' e where
  carries := carries
  owns := fun k o _ _ _ _ => owns k o

/-- Only the holder has changed. -/
theorem honours_of_holder (carries : (b.side e.other).Carries (b'.side e.other))
    (same : b'.side e = b.side e) : Honours b b' e :=
  honours_of_owns carries fun _ _ owns => same ▸ owns

/-- Only the owner has changed. -/
theorem honours_of_owner (same : b'.side e.other = b.side e.other)
    (owns : ∀ k o, (b.side e).Owns k o → (b'.side e).Owns k o) : Honours b b' e :=
  honours_of_owns (same ▸ Side.carries_of_onward (.refl _) rfl) owns

theorem honours_mutate (sound : b.Sound) (e x : BridgeEnd) (m : Mutation) :
    Honours b (b.update (.mutate x m)) e := by
  have hw := (sound.side x).heap
  rcases eq_or_eq_other e x with rfl | rfl
  · refine honours_of_owner (side_setSide_other b _ x) fun k o owns => ?_
    rw [update, side_setSide_same]
    exact Side.owns_of_aged (Heap.aged_mutate hw m) owns
  · refine honours_of_holder ?_ (side_setSide_of_other b _ e)
    rw [update, side_setSide_same]
    exact Side.carries_of_onward (Heap.onward_mutate hw m) rfl

theorem honours_tidy (sound : b.Sound) (e : BridgeEnd) : Honours b
    { b with
      near := b.near.tidied (b.far.deadKeys.map ImportKey.across)
      far := b.far.tidied (b.near.deadKeys.map ImportKey.across) } e := by
  have general : ∀ {owner holder : Side} {k : ExportKey} {o p : ObjectId}, owner.Sound →
      holder.imports.entry? k.across = some (.weak p) → holder.heap.isAlive p = true →
      owner.Owns k o → (owner.tidied (holder.deadKeys.map ImportKey.across)).Owns k o := by
    intro owner holder k o p sound entry alive owns
    refine Side.owns_tidied sound (fun listed => ?_) owns
    obtain ⟨x, found, dead⟩ := Imports.mem_deadKeys.1 (Side.mem_map_across.1 listed)
    rw [entry] at found
    cases found
    rw [alive] at dead
    cases dead
  cases e with
  | near =>
      refine ⟨Side.carries_tidied b.far _, fun k o p entry _ alive owns => ?_⟩
      exact general (sound.side .near) entry alive owns
  | far =>
      refine ⟨Side.carries_tidied b.near _, fun k o p entry _ alive owns => ?_⟩
      exact general (sound.side .far) entry alive owns

theorem honours_cross (sound : b.Sound) (e x : BridgeEnd) (v : Value) :
    Honours b (b.cross x v).state e := by
  rcases cross_cases sound x v with ⟨s, r, left, right, state, -⟩ |
      ⟨o, k, exports, r, made, -, -, -, shared, rfl, fills, receives, -, state⟩
  · rw [state]
    rcases eq_or_eq_other x e with rfl | rfl
    · refine honours_of_owns ?_ fun k o owns => ?_
      · rw [side_setSide_same]
        exact Side.carries_of_onward right.heap.onward right.imports
      · rw [side_setSide_first]
        exact left.owns owns
    · refine honours_of_owns ?_ fun k o owns => ?_
      · rw [other_other, side_setSide_first]
        exact Side.carries_of_onward left.heap.onward left.imports
      · rw [side_setSide_same]
        exact right.owns owns
  · have source := (Exports.fills_share (sound.side x).ordered shared).2
    have hw := (sound.side x.other).heap
    rw [state]
    rcases eq_or_eq_other x e with rfl | rfl
    · refine honours_of_owns ?_ fun k o owns => ?_
      · rw [side_setSide_same]
        exact receives.carries hw
      · rw [side_setSide_first]
        exact Side.owns_of_fills fills source owns
    · refine honours_of_owns ?_ fun k o owns => ?_
      · rw [other_other, side_setSide_first]
        exact Side.carries_of_onward (.refl _) rfl
      · rw [side_setSide_same]
        exact receives.owns hw owns

theorem honours_calm (calm : Calm b b') (sound : b.Sound) (e : BridgeEnd) : Honours b b' e := by
  induction calm with
  | refl b => exact .refl b e
  | trans first next ihFirst ihNext =>
      exact (ihFirst sound).trans (ihNext (sound_calm first sound))
  | book b schedule collector same =>
      cases e
      · exact honours_of_owner rfl fun _ _ owns => owns
      · exact honours_of_owner rfl fun _ _ owns => owns
  | mutate b x m => exact honours_mutate sound e x m
  | tidy b => exact honours_tidy sound e
  | cross b x v => exact honours_cross sound e x v

theorem honours_turn (turn : Turn b b') (sound : b.Sound) (rises : Rises b b') (e : BridgeEnd) :
    Honours b b' e := by
  cases turn with
  | none => exact .refl b e
  | native x =>
      rcases eq_or_eq_other e x with rfl | rfl
      · refine honours_of_owner (side_setSide_other b _ x) fun k o owns => ?_
        rw [update, side_setSide_same]
        exact Side.owns_nativeCollect (sound.side x) owns
      · refine honours_of_holder ?_ (side_setSide_of_other b _ e)
        have up := rises e.other
        rw [update, side_setSide_same] at up ⊢
        exact Side.carries_of_onward (Heap.onward_sweep up) rfl
  | cycle =>
      have up : b.far.heap.Rising b.collect.state.far.heap := rises .far
      rcases far_collect_cases sound with same | ⟨g, incoming, -, -, manages⟩
      · cases e
        · exact honours_of_holder
            (show b.far.Carries b.collect.state.far from
              same.symm ▸ Side.carries_of_onward (.refl _) rfl) rfl
        · exact honours_of_owner rfl fun k o owns =>
            (show b.collect.state.far.Owns k o from same.symm ▸ owns)
      · cases e
        · exact honours_of_holder (Side.carries_of_onward (manages.onward up)
            (manages.steady (sound.side .far)).imports) rfl
        · exact honours_of_owner rfl fun k o owns => manages.owns (sound.side .far) owns

theorem honours_update (sound : b.Sound) (event : BridgeEvent) (rises : Rises b (b.update event))
    (e : BridgeEnd) : Honours b (b.update event) e := by
  obtain ⟨b₁, b₂, before, turn, after⟩ := b.update_split event
  have soundFirst := sound_calm before sound
  have risesTurn := rises_turn before turn after sound rises
  exact (honours_calm before sound e).trans
    ((honours_turn turn soundFirst risesTurn e).trans
      (honours_calm after (sound_turn turn soundFirst) e))

theorem honours_history {events : List BridgeEvent} (sound : b.Sound) (ascends : Ascends b events)
    (e : BridgeEnd) : Honours b (b.history events) e := by
  induction events generalizing b with
  | nil => exact .refl b e
  | cons event events ih =>
      exact (honours_update sound event ascends.1 e).trans
        (ih (sound_update sound event) ascends.2)

section Current

/-- The import tables of both sides are current. -/
def Current (b : Bridge) : Prop := ∀ e, (b.side e).Current

theorem current_calm (calm : Calm b b') (sound : b.Sound) (current : b.Current) : b'.Current := by
  induction calm with
  | refl => exact current
  | trans first next ihFirst ihNext =>
      exact ihNext (sound_calm first sound) (ihFirst sound current)
  | book b schedule collector same =>
      intro e
      cases e
      · exact current .near
      · exact current .far
  | mutate b x m =>
      intro e
      rcases eq_or_eq_other x e with rfl | rfl
      · rw [update, side_setSide_same]
        exact Side.current_of_onward (current e) (Heap.onward_mutate (sound.side e).heap m) rfl
      · rw [update, side_setSide_other]
        exact current x.other
  | tidy b =>
      intro e
      cases e
      · exact Side.current_tidied (current .near) _
      · exact Side.current_tidied (current .far) _
  | cross b x v =>
      intro e
      rcases cross_cases sound x v with ⟨s, r, left, right, state, -⟩ |
          ⟨o, k, exports, r, made, -, -, -, -, rfl, -, receives, -, state⟩
      · rcases eq_or_eq_other x e with rfl | rfl
        · rw [state, side_setSide_first]
          exact Side.current_of_onward (current e) left.heap.onward left.imports
        · rw [state, side_setSide_same]
          exact Side.current_of_onward (current x.other) right.heap.onward right.imports
      · rcases eq_or_eq_other x e with rfl | rfl
        · rw [state, side_setSide_first]
          exact Side.current_of_onward (current e) (.refl _) rfl
        · rw [state, side_setSide_same]
          exact receives.current (sound.side x.other).heap (current x.other)

theorem current_turn (turn : Turn b b') (sound : b.Sound) (rises : Rises b b')
    (current : b.Current) : b'.Current := by
  intro e
  cases turn with
  | none => exact current e
  | native x =>
      rcases eq_or_eq_other x e with rfl | rfl
      · have up := rises e
        rw [update, side_setSide_same] at up ⊢
        exact Side.current_of_onward (current e) (Heap.onward_sweep up) rfl
      · rw [update, side_setSide_other]
        exact current x.other
  | cycle =>
      have up : b.far.heap.Rising b.collect.state.far.heap := rises .far
      cases e
      · exact current .near
      · show b.collect.state.far.Current
        rcases far_collect_cases sound with same | ⟨g, incoming, -, -, manages⟩
        · rw [same]
          exact current .far
        · exact Side.current_of_onward (current .far) (manages.onward up)
            (manages.steady (sound.side .far)).imports

theorem current_update (sound : b.Sound) (event : BridgeEvent) (rises : Rises b (b.update event))
    (current : b.Current) : (b.update event).Current := by
  obtain ⟨b₁, b₂, before, turn, after⟩ := b.update_split event
  have soundFirst := sound_calm before sound
  have risesTurn := rises_turn before turn after sound rises
  exact current_calm after (sound_turn turn soundFirst)
    (current_turn turn soundFirst risesTurn (current_calm before sound current))

theorem current_history {events : List BridgeEvent} (sound : b.Sound) (ascends : Ascends b events)
    (current : b.Current) : (b.history events).Current := by
  induction events generalizing b with
  | nil => exact current
  | cons event events ih =>
      exact ih (sound_update sound event) ascends.2 (current_update sound event ascends.1 current)

theorem current_new {settings : Settings} (fresh : Bridge.new settings = .ok b) : b.Current := by
  intro e
  cases eq_opened fresh
  cases e <;> exact ⟨fun _ _ entry => (nomatch entry), fun _ _ entry => (nomatch entry)⟩

end Current

section Stands

/-- As long as it is alive, `p` is the proxy in the slot `k`, which belongs to the object `o` of the
side of `e`. -/
structure Stands (b : Bridge) (e : BridgeEnd) (p : ObjectId) (k : ExportKey) (o : ObjectId) :
    Prop where
  known : (b.side e.other).heap.Known p
  held : (b.side e.other).heap.isAlive p = true →
    (b.side e.other).remoteKey? p = some k.across ∧
      (b.side e.other).imports.entry? k.across = some (.weak p) ∧ (b.side e).Owns k o

variable {p o : ObjectId} {k : ExportKey} {v : Value}

theorem Honours.stands (honours : Honours b b' e) (stands : Stands b e p k o) :
    Stands b' e p k o where
  known := honours.carries.onward.known p stands.known
  held := fun alive => by
    have before := honours.carries.onward.alive p stands.known alive
    obtain ⟨key, entry, owns⟩ := stands.held before
    exact ⟨(honours.carries.onward.key p stands.known alive).trans key,
      honours.carries.entry k.across p entry stands.known alive,
      honours.owns k o p entry stands.known alive owns⟩

/-- The object that a proxy stands for is what comes out when the proxy crosses. -/
theorem Stands.cross (stands : Stands b e p k o) (sound : b.Sound)
    (answered : (b.cross e.other (.ref p)).answer = .ok v) : v = .ref o := by
  unfold Bridge.cross at answered
  dsimp only at answered
  cases encoded : ((b.side e.other).encode (.ref p)).answer with
  | error f =>
      rw [encoded] at answered
      cases answered
  | ok parcel =>
      rw [encoded] at answered
      dsimp only at answered
      rw [other_other, side_setSide_of_other] at answered
      have alive : (b.side e.other).heap.isAlive p = true := by
        cases living : (b.side e.other).heap.isAlive p with
        | true => rfl
        | false =>
            have none : (b.side e.other).heap.proxy? p = none := by
              cases proxy : (b.side e.other).heap.proxy? p with
              | none => rfl
              | some q =>
                  rw [Heap.isAlive_of_proxy? proxy] at living
                  cases living
            simp [Side.encode, none, Side.share, living, Except.map] at encoded
      obtain ⟨key, -, owns⟩ := stands.held alive
      rcases Side.encode_eq_ok encoded with ⟨n, rfl⟩ | ⟨same, -⟩ | ⟨n, same, -⟩ | ⟨x, j, same, found, rfl⟩
      · -- A proxy is never exported.
        rcases (b.side e.other).encode_cases (sound.side e.other).ordered (.ref p) with
            ⟨-, none⟩ | ⟨x, m, exports, same, plain, -⟩
        · exact (none n encoded).elim
        · cases same
          simp [Side.remoteKey?, plain] at key
      · cases same
      · cases same
      · cases same
        rw [key] at found
        cases found
        obtain ⟨x, holds, rfl⟩ := Side.decode_returned_eq_ok answered
        have mends : (b.side e).Mends ((b.side e).decode (.returned k.across)).state :=
          Side.mends_decode (b.side e) (sound.side e).ordered fun n same => by cases same
        exact congrArg Value.ref ((mends.owns owns).eq_of_object? holds)

/-- A proxy that a crossing hands out stands for the object that was sent. -/
theorem stands_of_cross (sound : b.Sound) (current : b.Current)
    (plain : (b.side e).heap.proxy? o = none)
    (answered : (b.cross e (.ref o)).answer = .ok (.ref p)) :
    ∃ k, Stands (b.cross e (.ref o)).state e p k o := by
  rcases cross_cases sound e (.ref o) with ⟨s, r, -, -, -, refused⟩ |
      ⟨x, k, exports, r, made, same, -, -, -, -, fills, receives, answer, state⟩
  · obtain ⟨f, -, answer⟩ := refused o rfl plain
    exact nomatch answer.symm.trans answered
  · cases same
    obtain rfl : made = .ok p := by
      cases made with
      | error f => exact nomatch answer.symm.trans answered
      | ok q =>
          cases answer.symm.trans answered
          rfl
    have hw := (sound.side e.other).heap
    have first : (b.cross e (.ref o)).state.side e = { b.side e with exports } := by
      rw [state, side_setSide_first]
    have second : (b.cross e (.ref o)).state.side e.other = r := by
      rw [state, side_setSide_same]
    refine ⟨k, ?_, fun alive => ⟨?_, ?_, ?_⟩⟩
    · rw [second]
      exact Heap.known_of_isAlive (receives.alive hw p rfl)
    · rw [second]
      exact receives.key hw (current e.other).key p rfl
    · rw [second]
      exact receives.placed p rfl
    · rw [first]
      exact .inl ((fills.entry k).trans (if_pos rfl))

theorem proxy?_pin (b : Bridge) (e x : BridgeEnd) (v : Value) :
    ((b.pin x v).2.side e).heap.proxy? o = (b.side e).heap.proxy? o := by
  unfold pin
  cases v.object? with
  | none => rfl
  | some id =>
      dsimp only
      rcases eq_or_eq_other x e with rfl | rfl
      · rw [side_setSide_same]
        simp only [Heap.proxy?, Heap.get?_of_cells_eq (Heap.cells_addRoot id)]
      · rw [side_setSide_other]

theorem proxy?_unpin (b : Bridge) (e x : BridgeEnd) (handle : Option RootHandle) :
    ((b.unpin x handle).side e).heap.proxy? o = (b.side e).heap.proxy? o := by
  cases handle with
  | none => rfl
  | some r =>
      unfold unpin
      rcases eq_or_eq_other x e with rfl | rfl
      · rw [side_setSide_same]
        simp only [Heap.proxy?, Heap.get?_of_cells_eq (Heap.cells_removeRoot r)]
      · rw [side_setSide_other]

theorem heap_cleared (b : Bridge) (now : Nat) (e : BridgeEnd) :
    ((b.cleared now).side e).heap = (b.side e).heap := by
  unfold cleared
  dsimp only
  split
  · rw [side_scavenge]
    cases e <;> rfl
  · cases e <;> rfl

/-- An object that is no proxy is none when it crosses. -/
theorem plain_ready (sound : b.Sound) (e : BridgeEnd) (v : Value) (now : Nat)
    (plain : (b.side e).heap.proxy? o = none) :
    ((b.ready e v now).side e).heap.proxy? o = none := by
  unfold ready
  rw [proxy?_unpin, (onCall_eq _ now).1]
  have soundPin := sound_calm (b.calm_pin e v) sound
  have soundCleared := sound_calm (calm_cleared (b.pin e v).2 now) soundPin
  have before : (((b.pin e v).2.cleared now).side e).heap.proxy? o = none := by
    rw [heap_cleared, proxy?_pin, plain]
  have cycled : (((b.pin e v).2.cleared now).collect.state.side e).heap.proxy? o = none := by
    cases e with
    | near => exact before
    | far =>
        show ((b.pin .far v).2.cleared now).collect.state.far.heap.proxy? o = none
        rcases far_collect_cases soundCleared with same | ⟨g, incoming, -, -, manages⟩
        · rw [same]
          exact before
        · exact manages.plain (soundCleared.side .far) before
  split
  · split
    · cases e <;> exact cycled
    · exact cycled
  · exact before

end Stands

end Bridge

end TwinHeap
