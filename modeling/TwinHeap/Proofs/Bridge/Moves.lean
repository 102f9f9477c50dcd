import TwinHeap.History
import TwinHeap.Proofs.Side.Coupling
import TwinHeap.Proofs.Side.Managing

/-! Every event is a few moves that run no collector, with at most one run of a collector among
them. What holds along a history is proved move by move. -/
namespace TwinHeap.Bridge

deriving instance DecidableEq for Except

variable {b b' b'' : Bridge}

@[simp] theorem side_setSide_same (b : Bridge) (s : Side) (e : BridgeEnd) :
    (b.setSide s e).side e = s := by
  cases e <;> rfl

@[simp] theorem side_setSide_other (b : Bridge) (s : Side) (e : BridgeEnd) :
    (b.setSide s e).side e.other = b.side e.other := by
  cases e <;> rfl

@[simp] theorem other_other (e : BridgeEnd) : e.other.other = e := by
  cases e <;> rfl

@[simp] theorem setSide_side (b : Bridge) (e : BridgeEnd) : b.setSide (b.side e) e = b := by
  cases e <;> rfl

theorem eq_or_eq_other (e x : BridgeEnd) : x = e ∨ x = e.other := by
  cases e <;> cases x <;> simp [BridgeEnd.other]

@[simp] theorem side_setSide_of_other (b : Bridge) (s : Side) (e : BridgeEnd) :
    (b.setSide s e.other).side e = b.side e := by
  cases e <;> rfl

/-- Both sides are exchanged, that of `e` first. -/
@[simp] theorem side_setSide_first (b : Bridge) (s r : Side) (e : BridgeEnd) :
    ((b.setSide s e).setSide r e.other).side e = s := by
  cases e <;> rfl

@[simp] theorem collector_setSide (b : Bridge) (s : Side) (e : BridgeEnd) :
    (b.setSide s e).collector = b.collector := by
  cases e <;> rfl

/-- A bridge before any event. -/
def opened (settings : Settings) : Bridge where
  schedule := .ofSettings settings
  collector := { settings, journal := { settings := if settings.verbose then .verbose else {} } }

theorem new_opened {settings : Settings} (valid : settings.check = .ok ()) :
    Bridge.new settings = .ok (opened settings) := by
  simp only [Bridge.new, Collector.new, Collector.withJournal, valid]
  rfl

theorem eq_opened {settings : Settings} (fresh : Bridge.new settings = .ok b) :
    b = opened settings := by
  unfold Bridge.new Collector.new Collector.withJournal at fresh
  split at fresh
  · cases fresh
  · cases fresh
    rfl

/-- Settings for short histories, with cycles run by hand. -/
def byHand : Settings := { cycleInterval := 0, queueCapacity := 2 }

/-- A change that comes about without a run of a collector. -/
inductive Calm : Bridge → Bridge → Prop where
  | refl (b : Bridge) : Calm b b
  | trans {b b' b'' : Bridge} (first : Calm b b') (next : Calm b' b'') : Calm b b''
  | book (b : Bridge) (schedule : Schedule) (collector : Collector)
      (same : collector.settings = b.collector.settings) : Calm b { b with schedule, collector }
  | mutate (b : Bridge) (e : BridgeEnd) (m : Mutation) : Calm b (b.update (.mutate e m))
  | tidy (b : Bridge) : Calm b
      { b with
        near := b.near.tidied (b.far.deadKeys.map ImportKey.across)
        far := b.far.tidied (b.near.deadKeys.map ImportKey.across) }
  | cross (b : Bridge) (e : BridgeEnd) (v : Value) : Calm b (b.cross e v).state

/-- At most one run of a collector. -/
inductive Turn (b : Bridge) : Bridge → Prop where
  | none : Turn b b
  | native (e : BridgeEnd) : Turn b (b.update (.nativeCollect e))
  | cycle : Turn b b.collect.state

section Collector

theorem settings_record (c : Collector) (es : List Event) :
    (c.record es).state.settings = c.settings := rfl

theorem settings_recordReleased (c : Collector) (side : String) (count : Nat) :
    (c.recordReleased side count).state.settings = c.settings := by
  unfold Collector.recordReleased
  split <;> rfl

theorem settings_fail (c : Collector) (f : Fault) : (c.fail f).state.settings = c.settings := by
  unfold Collector.fail
  split <;> rfl

@[simp] theorem answer_fail (c : Collector) (f : Fault) : (c.fail f).answer = .error f := by
  unfold Collector.fail
  split <;> rfl

theorem settings_close (c : Collector) (g : EdgeGraph) (far : Side)
    (result : Except Fault ManagerReport) : (c.close g far result).state.settings = c.settings := by
  cases result with
  | error f => exact settings_fail c f
  | ok r => rfl

/-- The graph of the near side that a cycle sends across. -/
def outgoing (b : Bridge) : EdgeGraph :=
  (EdgeGraph.ofMode b.collector.settings.graphMode b.near.heap b.near.exports b.near.imports
    b.collector.settings.buildOptions).answer

/-- The arrays that a cycle needs to build its graph. -/
def demand (b : Bridge) : Except Fault Unit :=
  EdgeGraph.demand b.collector.settings.graphMode b.near.heap b.collector.settings.buildOptions

/-- What the manager makes of the graph. -/
def managed (b : Bridge) : Outcome (Manager × Side) (Except Fault ManagerReport) :=
  b.manager.collectText b.far b.collector.settings.forceNative b.outgoing.toText

/-- A cycle comes to nothing for lack of room, or else it goes as the manager has it. -/
theorem collect_cases (b : Bridge) :
    (∃ f, b.demand = .error f ∧ b.collect.answer = .error f ∧ b.collect.state.far = b.far) ∨
    b.demand = .ok () ∧ b.collect.state.far = b.managed.state.2 ∧
      ((∃ f, b.managed.answer = .error f ∧ b.collect.answer = .error f) ∨
        ∃ r report, b.managed.answer = .ok r ∧ b.collect.answer = .ok report) := by
  unfold collect Collector.collect Collector.buildGraph Side.buildGraph EdgeGraph.build
  have same : EdgeGraph.demand b.collector.settings.graphMode b.near.heap
      b.collector.settings.buildOptions = b.demand := rfl
  dsimp only [settings_record]
  rw [same]
  cases needed : b.demand with
  | error f =>
      refine .inl ⟨f, rfl, ?_, rfl⟩
      exact answer_fail _ f
  | ok _ =>
      refine .inr ⟨rfl, rfl, ?_⟩
      cases answer : b.managed.answer with
      | error f =>
          refine .inl ⟨f, rfl, ?_⟩
          show (Collector.close _ _ _ b.managed.answer).answer = _
          rw [answer]
          exact answer_fail _ f
      | ok r =>
          right
          show ∃ r' report, _ ∧ (Collector.close _ _ _ b.managed.answer).answer = _
          rw [answer]
          exact ⟨r, _, rfl, rfl⟩

theorem settings_collect (b : Bridge) :
    b.collect.state.collector.settings = b.collector.settings := by
  unfold collect Collector.collect
  dsimp only [Outcome.into]
  split
  · rename_i f built
    dsimp only
    rw [settings_fail]
    rfl
  · rename_i g built
    dsimp only
    rw [settings_close]
    rfl

end Collector

section Split

theorem calm_pin (b : Bridge) (e : BridgeEnd) (v : Value) : Calm b (b.pin e v).2 := by
  unfold pin
  cases v.object? with
  | none => exact .refl b
  | some id => exact .mutate b e (.addRoot id)

theorem calm_unpin (b : Bridge) (e : BridgeEnd) (handle : Option RootHandle) :
    Calm b (b.unpin e handle) := by
  cases handle with
  | none => exact .refl b
  | some r => exact .mutate b e (.removeRoot r)

theorem scavenge_eq (b : Bridge) :
    ∃ collector, collector.settings = b.collector.settings ∧ b.scavenge.state =
      { b with
        near := b.near.tidied (b.far.deadKeys.map ImportKey.across)
        far := b.far.tidied (b.near.deadKeys.map ImportKey.across)
        collector } := by
  refine ⟨_, ?_, rfl⟩
  simp only [settings_recordReleased]

theorem side_scavenge (b : Bridge) (e : BridgeEnd) :
    b.scavenge.state.side e =
      (b.side e).tidied ((b.side e.other).deadKeys.map ImportKey.across) := by
  cases e <;> rfl

theorem calm_scavenge (b : Bridge) : Calm b b.scavenge.state := by
  obtain ⟨collector, same, e⟩ := b.scavenge_eq
  rw [e]
  exact (Calm.tidy b).trans (.book _ b.schedule collector same)

/-- The bridge on a call, once dead references have been released if that is due. -/
def cleared (b : Bridge) (now : Nat) : Bridge :=
  let called := { b with schedule := (b.schedule.call now).2 }
  if (b.schedule.call now).1.piggyback then called.scavenge.state else called

/-- Whether a cycle is due on a call. -/
def cycleDue (b : Bridge) (now : Nat) : Bool := (b.schedule.call now).1.cycleDue

theorem calm_cleared (b : Bridge) (now : Nat) : Calm b (b.cleared now) := by
  have booked : Calm b { b with schedule := (b.schedule.call now).2 } :=
    .book b (b.schedule.call now).2 b.collector rfl
  unfold cleared
  dsimp only
  split
  · exact booked.trans (calm_scavenge _)
  · exact booked

/-- A cycle that is due is run once the bridge is cleared. It holds up the call only if it shows a
broken invariant or a fatal fault. -/
theorem onCall_eq (b : Bridge) (now : Nat) :
    (b.onCall now).state =
      (if b.cycleDue now = true then
        match (b.cleared now).collect.answer with
        | .ok _ =>
          { (b.cleared now).collect.state with
            schedule := (b.cleared now).collect.state.schedule.completed now }
        | .error _ => (b.cleared now).collect.state
      else b.cleared now) ∧
    (b.onCall now).answer =
      if b.cycleDue now = true then
        match (b.cleared now).collect.answer with
        | .ok _ => .ok ()
        | .error f => if f.isBug || f.isFatal then .error f else .ok ()
      else .ok () := by
  have cleaned : (if (b.schedule.call now).1.piggyback = true then
      { state := { b with schedule := (b.schedule.call now).2 }.scavenge.state
        answer := ()
        notices := { b with schedule := (b.schedule.call now).2 }.scavenge.notices }
      else { state := { b with schedule := (b.schedule.call now).2 }, answer := () } :
        Outcome Bridge Unit).state = b.cleared now := by
    unfold cleared
    dsimp only
    split <;> rfl
  unfold onCall cycleDue
  dsimp only
  by_cases due : (b.schedule.call now).1.cycleDue = true
  · simp only [if_pos due]
    rw [cleaned]
    cases (b.cleared now).collect.answer with
    | ok report => exact ⟨rfl, rfl⟩
    | error f =>
        dsimp only
        split <;> exact ⟨rfl, rfl⟩
  · simp only [if_neg due]
    exact ⟨cleaned, trivial⟩

theorem onCall_split (b : Bridge) (now : Nat) :
    ∃ b₁ b₂, Calm b b₁ ∧ Turn b₁ b₂ ∧ Calm b₂ (b.onCall now).state := by
  rw [(b.onCall_eq now).1]
  split
  · refine ⟨_, _, b.calm_cleared now, .cycle, ?_⟩
    split
    · exact .book _ _ _ rfl
    · exact .refl _
  · exact ⟨_, _, b.calm_cleared now, .none, .refl _⟩

/-- The bridge when a value is about to cross, with everything done that is due. -/
def ready (b : Bridge) (e : BridgeEnd) (v : Value) (now : Nat) : Bridge :=
  ((b.pin e v).2.onCall now).state.unpin e (b.pin e v).1

theorem ready_split (b : Bridge) (e : BridgeEnd) (v : Value) (now : Nat) :
    ∃ b₁ b₂, Calm b b₁ ∧ Turn b₁ b₂ ∧ Calm b₂ (b.ready e v now) := by
  obtain ⟨b₁, b₂, before, turn, after⟩ := (b.pin e v).2.onCall_split now
  exact ⟨b₁, b₂, (b.calm_pin e v).trans before, turn,
    after.trans (calm_unpin _ e (b.pin e v).1)⟩

/-- A send is refused by the work that is due, or it is a crossing of the bridge made ready. -/
theorem send_cases (b : Bridge) (e : BridgeEnd) (v : Value) (now : Nat) :
    (∃ f, ((b.pin e v).2.onCall now).answer = .error f ∧ (b.send e v now).answer = .error f ∧
      ((b.send e v now).state = b.ready e v now ∨
        (b.send e v now).state = ((b.pin e v).2.onCall now).state)) ∨
    ((b.pin e v).2.onCall now).answer = .ok () ∧
      (b.send e v now).state = ((b.ready e v now).cross e v).state ∧
      (b.send e v now).answer = ((b.ready e v now).cross e v).answer := by
  unfold send ready
  cases answer : ((b.pin e v).2.onCall now).answer with
  | error f =>
      refine .inl ⟨f, rfl, ?_⟩
      simp only [answer]
      refine ⟨trivial, ?_⟩
      split
      · exact .inr rfl
      · exact .inl rfl
  | ok _ =>
      refine .inr ⟨rfl, ?_⟩
      simp only [answer, and_self]

/-- Whatever becomes of a send, no collector is run once the call is done. -/
theorem calm_send (b : Bridge) (e : BridgeEnd) (v : Value) (now : Nat) :
    Calm ((b.pin e v).2.onCall now).state (b.send e v now).state := by
  have ready : Calm ((b.pin e v).2.onCall now).state (b.ready e v now) :=
    calm_unpin _ e (b.pin e v).1
  rcases b.send_cases e v now with ⟨f, -, -, state | state⟩ | ⟨-, state, -⟩
  · rw [state]
    exact ready
  · rw [state]
    exact .refl _
  · rw [state]
    exact ready.trans (.cross _ e v)

theorem update_split (b : Bridge) (event : BridgeEvent) :
    ∃ b₁ b₂, Calm b b₁ ∧ Turn b₁ b₂ ∧ Calm b₂ (b.update event) := by
  cases event with
  | mutate e m => exact ⟨_, _, .mutate b e m, .none, .refl _⟩
  | nativeCollect e => exact ⟨_, _, .refl b, .native e, .refl _⟩
  | collect => exact ⟨_, _, .refl b, .cycle, .refl _⟩
  | scavenge => exact ⟨_, _, b.calm_scavenge, .none, .refl _⟩
  | send e v now =>
      obtain ⟨b₁, b₂, before, turn, after⟩ := (b.pin e v).2.onCall_split now
      exact ⟨b₁, b₂, (b.calm_pin e v).trans before, turn, after.trans (b.calm_send e v now)⟩

end Split

end TwinHeap.Bridge
