import TwinHeap.Proofs.Bridge.Combined
import TwinHeap.Proofs.Bridge.ReferentialIntegrity

/-! What a cycle makes of the slots that its graph has in the root. None of them is severed, but one
that was severed before comes back only through a record. A slot that an earlier cycle severed
without a record is left so, although the notes of that cycle still say which object it lost. -/
namespace TwinHeap

namespace EdgeGraph

variable {h : Heap} {imports : Imports} {j : ImportKey} {p : ObjectId}

/-- A builder of either mode has the slots of rooted proxies in the root. -/
theorem mem_root_ofMode {o : BuildOptions} (found : imports.proxy? h j = some p)
    (rooted : h.Rooted (some o.opaqueClass) p) (mode : GraphMode) (exports : Exports) :
    j ∈ (ofMode mode h exports imports o).answer.root := by
  cases mode with
  | exact => exact mem_root_exact.2 ⟨p, found, rooted⟩
  | approximate => exact (covering_approximate h exports imports o).root j p found rooted

end EdgeGraph

namespace Manager.Manages

variable {s s' : Side} {g : IncomingGraph} {forced : Bool} {k : ExportKey}

/-- A slot in the root of the graph comes back if a record names it, and stays as it is otherwise. -/
theorem entry_of_root (manages : Manages s g forced s') (sound : s.Sound) (root : k ∈ g.roots) :
    (∃ x, s.exports.entry? k = some .detached ∧ s.Recorded k x ∧
      s'.exports.entry? k = some (.live x)) ∨
    s'.exports.entry? k = s.exports.entry? k ∧
      (forced = false → s.exports.entry? k = some .detached → ∀ x, ¬ s.Recorded k x) := by
  have spared : ∀ {r r' : Side}, r.Severed g r' → r'.exports.entry? k = r.exports.entry? k :=
    fun severed => (severed.entry k).trans (if_neg fun both => both.1 root)
  cases manages with
  | @repairFirst s₁ s₂ repairs _ severed =>
      have after : s₂.exports.override.entry? k = s₁.exports.entry? k := spared severed
      rcases repairs.entry k with ⟨x, detached, named, live⟩ | ⟨same, unnamed⟩
      · exact .inl ⟨x, detached, Side.recorded_of_recordedBy named, after.trans live⟩
      · refine .inr ⟨after.trans same, fun _ detached x recorded => ?_⟩
        exact unnamed x detached ((Side.recordedBy_liveProxies sound.enlisted).2 recorded)
  | @severFirst s₁ _ severed repairs =>
      have before : s₁.exports.entry? k = s.exports.entry? k := spared severed
      rcases repairs.entry k with ⟨x, detached, ⟨q, -, recorded⟩, -⟩ | ⟨same, -⟩
      · -- The records are those of the severing, which left this slot alone.
        have next := severed.sound sound
        obtain ⟨body, r, proxy, record, member⟩ := recorded
        have old := (Side.aged_nativeCollect next).proxy q body proxy
        have holds := ((severed.record q k x).1 ⟨body, r, old, record, member⟩).2.1
        have was : s₁.exports.entry? k = some .detached := detached
        rw [before, Exports.object?_eq_some_iff.1 holds] at was
        cases was
      · exact .inr ⟨same.trans before, fun unforced => nomatch unforced⟩

end Manager.Manages

namespace Bridge

variable {b b' : Bridge} {k : ExportKey} {o p : ObjectId}

theorem mem_root_outgoing (found : b.near.imports.proxy? b.near.heap k.across = some p)
    (rooted : b.near.heap.Rooted (some .hidden) p) : k.across ∈ b.outgoing.root :=
  EdgeGraph.mem_root_ofMode found rooted b.collector.settings.graphMode b.near.exports

section Cycle

/-- A cycle leaves a slot of the root live with the object that it offers, and severed if it offers
none. -/
theorem entry_collect_of_root {report : CycleReport} (sound : b.Sound)
    (answered : b.collect.answer = .ok report) (root : k.across ∈ b.outgoing.root) :
    (∀ x, b.collect.state.far.exports.entry? k = some (.live x) ↔ b.Offers k x) ∧
    (b.collect.state.far.exports.entry? k = some .detached ↔
      b.far.exports.entry? k = some .detached ∧ ∀ y, ¬ b.far.Recorded k y) := by
  rcases cycle_cases sound with ⟨f, -, refused, -⟩ | ⟨f, -, -, -, refused, -⟩ | ⟨-, -, manages⟩
  · cases refused.symm.trans answered
  · cases refused.symm.trans answered
  have unnamed : b.collector.settings.forceNative = true → ∀ y, ¬ b.far.Recorded k y := by
    rintro forced y ⟨q, recorded⟩
    exact (sound.bare .far (.inr forced)).not_recordOf recorded
  rcases manages.entry_of_root (sound.side .far) (mem_roots_incoming.2 root) with
      ⟨y, detached, recorded, live⟩ | ⟨same, lost⟩
  · constructor
    · intro x
      constructor
      · intro now
        cases live.symm.trans now
        exact .inr ⟨detached, recorded⟩
      · rintro (before | ⟨-, named⟩)
        · cases detached.symm.trans before
        · have one := (sound.side .far).agreed k y x detached (.inr recorded) (.inr named)
          exact one ▸ live
    · constructor
      · intro now
        cases live.symm.trans now
      · rintro ⟨-, none⟩
        exact (none y recorded).elim
  · have bare : b.far.exports.entry? k = some .detached → ∀ y, ¬ b.far.Recorded k y := by
      cases forced : b.collector.settings.forceNative with
      | false => exact lost forced
      | true => exact fun _ => unnamed forced
    rw [same]
    constructor
    · intro x
      constructor
      · exact fun live => .inl live
      · rintro (live | ⟨detached, named⟩)
        · exact live
        · exact (bare detached x named).elim
    · exact ⟨fun detached => ⟨detached, bare detached⟩, And.left⟩

/-- A cycle severs no slot of the root, whether it succeeds or not. -/
theorem detached_collect (sound : b.Sound)
    (detached : b.collect.state.far.exports.entry? k = some .detached) :
    b.far.exports.entry? k = some .detached ∨ k.across ∉ b.outgoing.root := by
  by_cases root : k.across ∈ b.outgoing.root
  · left
    rcases cycle_cases sound with ⟨f, -, -, same⟩ | ⟨f, -, -, -, -, same⟩ | ⟨-, -, manages⟩
    · rwa [same] at detached
    · rwa [same] at detached
    · rcases manages.entry_of_root (sound.side .far) (mem_roots_incoming.2 root) with
          ⟨y, before, -⟩ | ⟨same, -⟩
      · exact before
      · exact same ▸ detached
  · exact .inr root

end Cycle

section Runs

/-- Nothing but a run of a collector severs a slot. -/
theorem detached_calm (calm : Calm b b') (sound : b.Sound) (e : BridgeEnd)
    (detached : (b'.side e).exports.entry? k = some .detached) :
    (b.side e).exports.entry? k = some .detached := by
  induction calm with
  | refl => exact detached
  | trans first next ihFirst ihNext => exact ihFirst sound (ihNext (sound_calm first sound) detached)
  | book b schedule collector same => cases e <;> exact detached
  | mutate b x m =>
      rcases eq_or_eq_other x e with rfl | rfl
      · rwa [update, side_setSide_same] at detached
      · rwa [update, side_setSide_other] at detached
  | tidy b =>
      have taken : ExportEntry.detached ≠ .free := by
        intro same
        cases same
      cases e
      · exact Side.entry?_tidied detached taken
      · exact Side.entry?_tidied detached taken
  | cross b x v =>
      rcases cross_cases sound x v with ⟨s, r, left, right, state, -⟩ |
          ⟨y, n, exports, r, q, -, -, -, -, -, fills, receives, -, state⟩
      · rw [state] at detached
        rcases eq_or_eq_other x e with rfl | rfl
        · rw [side_setSide_first] at detached
          exact left.detached detached
        · rw [side_setSide_same] at detached
          exact right.detached detached
      · rw [state] at detached
        rcases eq_or_eq_other x e with rfl | rfl
        · rw [side_setSide_first] at detached
          have entry := (fills.entry k).symm.trans detached
          split at entry
          · cases entry
          · exact entry
        · rw [side_setSide_same, receives.exports] at detached
          exact detached

theorem far_onCall (b : Bridge) (now : Nat) : (b.onCall now).state.far =
    if b.cycleDue now = true then (b.cleared now).collect.state.far else (b.cleared now).far := by
  rw [(b.onCall_eq now).1]
  split
  · split <;> rfl
  · rfl

/-- A slot is severed by the cycle of an event, which does not have it in its root, or by nothing. -/
theorem detached_update (sound : b.Sound) {event : BridgeEvent}
    (detached : (b.update event).far.exports.entry? k = some .detached) :
    b.far.exports.entry? k = some .detached ∨
      ∃ cycling, b.cycleStart? event = some cycling ∧ Calm b cycling ∧
        k.across ∉ cycling.outgoing.root := by
  cases event with
  | mutate e m => exact .inl (detached_calm (.mutate b e m) sound .far detached)
  | scavenge => exact .inl (detached_calm b.calm_scavenge sound .far detached)
  | nativeCollect e => cases e <;> exact .inl detached
  | collect => exact (detached_collect sound detached).imp_right fun out => ⟨b, rfl, .refl b, out⟩
  | send e v now =>
      have before : Calm b ((b.pin e v).2.cleared now) :=
        (b.calm_pin e v).trans (calm_cleared (b.pin e v).2 now)
      have soundCalled := sound_called sound e v now
      have called : ((b.pin e v).2.onCall now).state.far.exports.entry? k = some .detached :=
        detached_calm (b.calm_send e v now) soundCalled .far detached
      rw [far_onCall] at called
      by_cases due : (b.pin e v).2.cycleDue now = true
      · rw [if_pos due] at called
        rcases detached_collect (sound_calm before sound) called with old | out
        · exact .inl (detached_calm before sound .far old)
        · exact .inr ⟨_, if_pos due, before, out⟩
      · rw [if_neg due] at called
        exact .inl (detached_calm before sound .far called)

/-- The proxy `p` is rooted whenever the event runs a cycle. -/
def RootedIn (p : ObjectId) (b : Bridge) (event : BridgeEvent) : Prop :=
  ∀ cycling, b.cycleStart? event = some cycling → cycling.near.heap.Rooted (some .hidden) p

/-- A slot whose proxy is rooted whenever a cycle is run keeps its object. -/
theorem live_update {event : BridgeEvent} (sound : b.Sound) (rises : Rises b (b.update event))
    (listed : b.near.imports.entry? k.across = some (.weak p)) (known : b.near.heap.Known p)
    (alive : (b.update event).near.heap.isAlive p = true) (rooted : RootedIn p b event)
    (live : b.far.exports.entry? k = some (.live o)) :
    (b.update event).far.exports.entry? k = some (.live o) := by
  have honours := honours_update sound event rises .far
  rcases honours.owns k o p listed known alive (.inl live) with now | ⟨detached, -⟩
  · exact now
  · rcases detached_update sound detached with before | ⟨cycling, begins, calm, out⟩
    · cases live.symm.trans before
    · obtain ⟨root, member, path⟩ := rooted cycling begins
      have kept := (honours_calm calm sound .far).carries.entry k.across p listed known path.alive_last
      have found := Imports.proxy?_eq_some_iff.2 ⟨kept, path.alive_last⟩
      exact (out (mem_root_outgoing found ⟨root, member, path⟩)).elim

theorem live_history {events : List BridgeEvent} (sound : b.Sound) (ascends : Ascends b events)
    (listed : b.near.imports.entry? k.across = some (.weak p)) (known : b.near.heap.Known p)
    (alive : (b.history events).near.heap.isAlive p = true)
    (rooted : ∀ past event later, past ++ event :: later = events →
      RootedIn p (b.history past) event)
    (live : b.far.exports.entry? k = some (.live o)) :
    (b.history events).far.exports.entry? k = some (.live o) := by
  induction events generalizing b with
  | nil => exact live
  | cons event events ih =>
      obtain ⟨rises, ascends⟩ := ascends
      have soundNext := sound_update sound event
      have first := (honours_update sound event rises .far).carries
      have rest := (honours_history soundNext ascends .far).carries
      have knownNext := first.onward.known p known
      have aliveNext := rest.onward.alive p knownNext alive
      refine ih soundNext ascends (first.entry k.across p listed known aliveNext) knownNext alive ?_ ?_
      · rintro past next later rfl
        exact rooted (event :: past) next later rfl
      · exact live_update sound rises listed known aliveNext (rooted [] event events rfl) live

/-- Whenever a cycle succeeds, the slot of a rooted proxy is in the root of the graph, and afterwards
it is live with the object that it offered before. It is left severed if it was severed before and no
live proxy of the far side had a record of it, and only then. A live slot whose proxy is rooted
whenever a cycle is run keeps its object as long as the proxy is alive. -/
theorem rooted_slot_of_history {settings : Settings} {start : Bridge} {events : List BridgeEvent}
    (fresh : Bridge.new settings = .ok start) :
    (∀ past event later cycling report k p, past ++ event :: later = events →
      (start.history past).cycleStart? event = some cycling →
      cycling.collect.answer = .ok report →
      cycling.near.imports.proxy? cycling.near.heap k.across = some p →
      cycling.near.heap.Rooted (some .hidden) p →
      k.across ∈ cycling.outgoing.root ∧
      (∀ x, cycling.collect.state.far.exports.entry? k = some (.live x) ↔ cycling.Offers k x) ∧
      (cycling.collect.state.far.exports.entry? k = some .detached ↔
        cycling.far.exports.entry? k = some .detached ∧ ∀ x, ¬ cycling.far.Recorded k x)) ∧
    ∀ past later k o p, past ++ later = events → start.Unwrapped events →
      (start.history past).far.exports.entry? k = some (.live o) →
      (start.history past).near.imports.entry? k.across = some (.weak p) →
      (start.history events).near.heap.isAlive p = true →
      (∀ mid event rest, mid ++ event :: rest = later →
        RootedIn p (start.history (past ++ mid)) event) →
      (start.history events).far.exports.entry? k = some (.live o) := by
  have sound := sound_new fresh
  constructor
  · rintro past event later cycling report k p rfl begins answered found rooted
    have soundCycle := sound_cycleStart (sound_history sound past) begins
    have root := mem_root_outgoing found rooted
    exact ⟨root, entry_collect_of_root soundCycle answered root⟩
  · rintro past later k o p rfl unwrapped live listed alive rooted
    obtain ⟨ascendsPast, ascendsLater⟩ := ascends_append.1 (ascends_of_unwrapped fresh unwrapped)
    have current := current_history sound ascendsPast (current_new fresh)
    rw [history_append] at alive ⊢
    refine live_history (sound_history sound past) ascendsLater listed
      ((current .near).known k.across p listed) alive ?_ live
    intro mid event rest split
    rw [← history_append]
    exact rooted mid event rest split

/-- An object of the far side was sent, its proxy was rooted, and a cycle is run. -/
def rootedThenCycle : List BridgeEvent :=
  [.mutate .far (.alloc .ordinary []), .mutate .far (.addRoot ⟨0, 0⟩), .send .far (.ref ⟨0, 0⟩) 0,
    .mutate .near (.addRoot ⟨0, 0⟩), .collect]

theorem rooted_slot_of_history_cycle :
    (⟨0⟩ : ImportKey) ∈ ((opened byHand).history (rootedThenCycle.take 4)).outgoing.root ∧
    (∀ x, ((opened byHand).history rootedThenCycle).far.exports.entry? ⟨0⟩ = some (.live x) ↔
      ((opened byHand).history (rootedThenCycle.take 4)).Offers ⟨0⟩ x) ∧
    ((opened byHand).history rootedThenCycle).far.exports.entry? ⟨0⟩ = some (.live ⟨0, 0⟩) := by
  have law := @rooted_slot_of_history byHand (opened byHand) rootedThenCycle (new_opened rfl)
  have rooted : ((opened byHand).history (rootedThenCycle.take 4)).near.heap.Rooted
      (some .hidden) ⟨0, 0⟩ :=
    ⟨⟨0, 0⟩, by decide +kernel, .here (by decide +kernel)⟩
  have cycle := law.1 (rootedThenCycle.take 4) .collect [] _
    { cycle := 1, mode := .exact, entries := 1, roots := 1, edges := 0, records := 0, unlinked := 0,
      repaired := 0, live := 1, detached := 0, native := none }
    ⟨0⟩ ⟨0, 0⟩ rfl rfl (by decide +kernel) (by decide +kernel) rooted
  refine ⟨cycle.1, cycle.2.1, ?_⟩
  apply law.2 (rootedThenCycle.take 4) [.collect] ⟨0⟩ ⟨0, 0⟩ ⟨0, 0⟩ rfl
    (unwrapped_of_length (by decide) _) (by decide +kernel) (by decide +kernel) (by decide +kernel)
  intro mid event rest split cycling begins
  cases mid with
  | nil =>
      cases split
      cases begins
      exact rooted
  | cons first mid => cases mid <;> cases split

/-- The near side holds a proxy only through a weak reference when a cycle is run, and then stores the
target of the reference in a rooted object. -/
def weaklyHeld : List BridgeEvent :=
  [.mutate .far (.alloc .ordinary []), .mutate .far (.addRoot ⟨0, 0⟩), .send .far (.ref ⟨0, 0⟩) 0,
    .mutate .near (.allocWeak ⟨0, 0⟩), .mutate .near (.alloc .ordinary [.ref ⟨1, 0⟩]),
    .mutate .near (.addRoot ⟨2, 0⟩), .collect, .mutate .near (.pushField ⟨2, 0⟩ (.ref ⟨0, 0⟩))]

/-- The next cycle has the slot in its root and leaves it severed. -/
theorem regained_slot_severed :
    (∃ report, ((opened byHand).history weaklyHeld).collect.answer = .ok report) ∧
    ((opened byHand).history weaklyHeld).near.heap.weakTarget? ⟨1, 0⟩ = some ⟨0, 0⟩ ∧
    ((opened byHand).history weaklyHeld).near.imports.proxy?
      ((opened byHand).history weaklyHeld).near.heap ⟨0⟩ = some ⟨0, 0⟩ ∧
    ((opened byHand).history weaklyHeld).near.heap.Rooted (some .hidden) ⟨0, 0⟩ ∧
    (⟨0⟩ : ImportKey) ∈ ((opened byHand).history weaklyHeld).outgoing.root ∧
    ((opened byHand).history weaklyHeld).collect.state.far.exports.entry? ⟨0⟩ = some .detached := by
  let report : CycleReport :=
    { cycle := 2, mode := .exact, entries := 1, roots := 1, edges := 0, records := 0, unlinked := 0,
      repaired := 0, live := 0, detached := 1, native := none }
  refine ⟨⟨report, ?_⟩, ?_, ?_, ?_, ?_, ?_⟩
  · decide +kernel
  · decide +kernel
  · decide +kernel
  · exact ⟨⟨2, 0⟩, by decide +kernel,
      .step (.here (by decide +kernel)) (by decide +kernel) (by decide +kernel) (by decide +kernel)⟩
  · decide +kernel
  · decide +kernel

end Runs

end Bridge

end TwinHeap
