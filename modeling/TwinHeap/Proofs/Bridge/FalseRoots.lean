import TwinHeap.Proofs.Bridge.RootedSlots
import TwinHeap.Proofs.EdgeGraph.Coverage

/-! What false roots of the approximate graph cost. A cycle in the normal mode leaves a slot live if
the root of its graph has it and there is an object to offer, and in no other case. As long as nothing
else happens, the next cycle builds the same graph, from the same seed. A slot that is taken for a root
is therefore kept by every cycle and not only by the first. -/
namespace TwinHeap

namespace EdgeGraph

variable {h : Heap} {exports : Exports} {imports : Imports} {o : BuildOptions}

/-- The root of the approximate graph has the slots that the root of the exact one has, and those of
crowded proxies. -/
theorem mem_root_approximate {j : ImportKey} :
    j ∈ (approximate h exports imports o).answer.root ↔
      j ∈ (exact h exports imports o).answer.root ∨
        ∃ p, imports.proxy? h j = some p ∧ Crowded h exports o p := by
  rw [(shows_approximate h exports imports o).root, mem_root_exact]
  constructor
  · rintro ⟨p, found, full⟩
    by_cases rooted : h.Rooted (some o.opaqueClass) p
    · exact .inl ⟨p, found, rooted⟩
    · have alive := (Imports.proxy?_eq_some_iff.1 found).2
      exact .inr ⟨p, found, rooted, (filterOf_of_loose alive rooted).symm.trans full⟩
  · rintro (⟨p, found, rooted⟩ | ⟨p, found, loose, full⟩)
    · exact ⟨p, found, filterOf_of_rooted exports rooted⟩
    · have alive := (Imports.proxy?_eq_some_iff.1 found).2
      exact ⟨p, found, (filterOf_of_loose alive loose).trans full⟩

end EdgeGraph

namespace Bridge

variable {b : Bridge} {k : ExportKey} {o : ObjectId} {report : CycleReport}

theorem outgoing_collect (b : Bridge) : b.collect.state.outgoing = b.outgoing := by
  unfold outgoing
  rw [settings_collect]
  rfl

theorem demand_collect (b : Bridge) : b.collect.state.demand = b.demand := by
  unfold demand
  rw [settings_collect]
  rfl

section Cycle

variable (sound : b.Sound) (unforced : b.collector.settings.forceNative = false)
  (answered : b.collect.answer = .ok report)

include sound unforced answered

/-- Which slots a cycle in the normal mode leaves live. -/
theorem live_collect_iff : b.collect.state.far.exports.entry? k = some (.live o) ↔
    k.across ∈ b.outgoing.root ∧ b.Offers k o := by
  constructor
  · intro live
    have root : k.across ∈ b.outgoing.root := by
      by_contra loose
      obtain ⟨s₁, s₂, -, severed, state⟩ := repairs_collect sound unforced answered
      rw [state] at live
      have entry := (severed.entry k).symm.trans live
      split at entry
      · cases entry
      · rename_i spared
        have holds := Exports.object?_eq_some_iff.2 entry
        exact spared ⟨fun member => loose (mem_roots_incoming.1 member),
          Option.isSome_iff_exists.2 ⟨o, holds⟩⟩
    exact ⟨root, ((entry_collect_of_root sound answered root).1 o).1 live⟩
  · intro ⟨root, offered⟩
    exact ((entry_collect_of_root sound answered root).1 o).2 offered

/-- A live slot outside the root is severed. -/
theorem entry_collect_of_loose (loose : k.across ∉ b.outgoing.root)
    (live : b.far.exports.entry? k = some (.live o)) :
    b.collect.state.far.exports.entry? k = some .detached := by
  obtain ⟨s₁, s₂, repairs, severed, state⟩ := repairs_collect sound unforced answered
  have holds : s₁.exports.object? k = some o := by
    rcases repairs.entry k with ⟨x, detached, -⟩ | ⟨same, -⟩
    · cases live.symm.trans detached
    · exact Exports.object?_eq_some_iff.2 (same.trans live)
  have out : k ∉ b.incoming.roots := fun member => loose (mem_roots_incoming.1 member)
  rw [state]
  exact (severed.entry k).trans (if_pos ⟨out, Option.isSome_iff_exists.2 ⟨o, holds⟩⟩)

/-- The records that a cycle writes bring nothing back into the root. -/
theorem offers_collect_iff (root : k.across ∈ b.outgoing.root) :
    b.collect.state.Offers k o ↔ b.Offers k o := by
  rw [← (entry_collect_of_root sound answered root).1 o]
  constructor
  · intro offered
    rcases offered with now | ⟨detached, recorded⟩
    · exact now
    · obtain ⟨s₁, s₂, -, severed, state⟩ := repairs_collect sound unforced answered
      rw [state] at detached recorded
      obtain ⟨q, record⟩ := recorded
      have holds := Exports.object?_eq_some_iff.1 ((severed.record q k o).1 record).2.1
      have spared := (severed.entry k).trans (if_neg fun both => both.1 (mem_roots_incoming.2 root))
      have live : s₂.exports.entry? k = some (.live o) := spared.trans holds
      cases live.symm.trans detached
  · exact Or.inl

/-- After a cycle that succeeded another one can be run at once. -/
theorem answered_again : ∃ again, b.collect.state.collect.answer = .ok again := by
  obtain ⟨s₁, s₂, -, severed, state⟩ := repairs_collect sound unforced answered
  have kept : b.collect.state.far.Kept := by
    rw [state]
    exact severed.kept
  exact answered_of_kept (sound_collect sound)
    (b.demand_collect.trans (room_of_answered sound answered)) kept

/-- Cycles with nothing between them leave live what the first of them does. -/
theorem live_collects_iff (n : Nat) :
    (∃ again, (b.history (List.replicate (n + 1) .collect)).collect.answer = .ok again) ∧
      ∀ k o, (b.history (List.replicate (n + 1) .collect)).far.exports.entry? k = some (.live o) ↔
        k.across ∈ b.outgoing.root ∧ b.Offers k o := by
  induction n generalizing b report with
  | zero =>
      exact ⟨answered_again sound unforced answered, fun k o =>
        live_collect_iff sound unforced answered⟩
  | succ n ih =>
      obtain ⟨again, next⟩ := answered_again sound unforced answered
      have mode := (congrArg Settings.forceNative b.settings_collect).trans unforced
      obtain ⟨done, live⟩ := ih (sound_collect sound) mode next
      refine ⟨done, fun k o => (live k o).trans ?_⟩
      rw [outgoing_collect]
      exact and_congr_right fun root => offers_collect_iff sound unforced answered root

end Cycle

section Exactly

/-- The same bridge with the exact builder. -/
def exactly (b : Bridge) : Bridge :=
  { b with
    collector := { b.collector with settings := { b.collector.settings with graphMode := .exact } } }

theorem sound_exactly (sound : b.Sound) : b.exactly.Sound where
  side := fun e => by
    cases e
    · exact sound.side .near
    · exact sound.side .far
  coupled := fun e => by
    cases e
    · exact sound.coupled .near
    · exact sound.coupled .far
  bare := fun e bare => by
    cases e
    · exact sound.bare .near bare
    · exact sound.bare .far bare

variable (approximate : b.collector.settings.graphMode = .approximate)

include approximate in
theorem mem_root_outgoing_iff {j : ImportKey} : j ∈ b.outgoing.root ↔
    j ∈ b.exactly.outgoing.root ∨ ∃ p, b.near.imports.proxy? b.near.heap j = some p ∧
      EdgeGraph.Crowded b.near.heap b.near.exports b.collector.settings.buildOptions p := by
  have graph : b.outgoing = (EdgeGraph.approximate b.near.heap b.near.exports b.near.imports
      b.collector.settings.buildOptions).answer := by
    unfold outgoing
    rw [approximate]
    rfl
  rw [graph]
  exact EdgeGraph.mem_root_approximate

variable (sound : b.Sound) (unforced : b.collector.settings.forceNative = false)
  (answered : b.collect.answer = .ok report)

include approximate sound unforced answered

/-- Whenever the approximate builder serves a cycle, the exact one does. -/
theorem answered_exactly : ∃ exact, b.exactly.collect.answer = .ok exact := by
  have room := room_of_answered sound answered
  rw [demand, approximate] at room
  obtain ⟨s₁, s₂, repairs, -⟩ := repairs_collect sound unforced answered
  exact answered_of_kept (sound_exactly sound) (EdgeGraph.demand_exact_of_approximate room)
    (repairs.kept (sound.side .far).enlisted)

/-- Where nothing is rooted, the exact builder finds no roots. -/
theorem severed_exactly_of_bare (bare : b.near.heap.rootIds = [])
    (live : b.far.exports.entry? k = some (.live o)) :
    b.exactly.collect.state.far.exports.entry? k = some .detached := by
  obtain ⟨exact, done⟩ := answered_exactly approximate sound unforced answered
  refine entry_collect_of_loose (sound_exactly sound) unforced done ?_ live
  intro root
  obtain ⟨p, -, x, member, -⟩ := EdgeGraph.mem_root_exact.1 root
  have none : x ∈ b.near.heap.rootIds := member
  rw [bare] at none
  cases none

theorem live_twice_of_crowded {p : ObjectId}
    (found : b.near.imports.proxy? b.near.heap k.across = some p)
    (crowded : EdgeGraph.Crowded b.near.heap b.near.exports b.collector.settings.buildOptions p)
    (live : b.far.exports.entry? k = some (.live o)) :
    b.collect.state.collect.state.far.exports.entry? k = some (.live o) := by
  have root := (mem_root_outgoing_iff approximate).2 (.inr ⟨p, found, crowded⟩)
  exact ((live_collects_iff sound unforced answered 1).2 k o).2 ⟨root, .inl live⟩

end Exactly

/-- A slot that a cycle with the exact builder would sever is severed by a cycle with the approximate
one, unless its proxy is crowded. If it is, no number of cycles severs the slot. -/
theorem severed_but_for_crowds {settings : Settings} {start : Bridge} {events : List BridgeEvent}
    {report : CycleReport} (fresh : Bridge.new settings = .ok start)
    (approximate : settings.graphMode = .approximate) (unforced : settings.forceNative = false)
    (answered : (start.history events).collect.answer = .ok report) :
    let b := start.history events
    (∃ exact, b.exactly.collect.answer = .ok exact) ∧
    ∀ n, let later := b.history (List.replicate (n + 1) .collect)
      (∃ again, later.collect.answer = .ok again) ∧
      ∀ k, b.exactly.collect.state.far.exports.entry? k = some .detached →
        ∀ o, later.far.exports.entry? k = some (.live o) ↔
          b.Offers k o ∧ ∃ p, b.near.imports.proxy? b.near.heap k.across = some p ∧
            EdgeGraph.Crowded b.near.heap b.near.exports settings.buildOptions p := by
  have sound := sound_history (sound_new fresh) events
  have same : (start.history events).collector.settings = settings :=
    (settings_history start events).trans (settings_new fresh)
  have mode : (start.history events).collector.settings.graphMode = .approximate :=
    (congrArg Settings.graphMode same).trans approximate
  have normal : (start.history events).collector.settings.forceNative = false :=
    (congrArg Settings.forceNative same).trans unforced
  obtain ⟨exact, done⟩ := answered_exactly mode sound normal answered
  refine ⟨⟨exact, done⟩, fun n => ?_⟩
  obtain ⟨again, live⟩ := live_collects_iff sound normal answered n
  refine ⟨again, fun k severed o => (live k o).trans ?_⟩
  rw [mem_root_outgoing_iff mode, same]
  constructor
  · rintro ⟨root | crowded, offered⟩
    · have kept := ((entry_collect_of_root (sound_exactly sound) done root).1 o).2 offered
      cases severed.symm.trans kept
    · exact ⟨offered, crowded⟩
  · exact fun ⟨offered, crowded⟩ => ⟨.inr crowded, offered⟩

/-- The approximate builder, with cycles run by hand. -/
def crowding : Settings := { byHand with graphMode := .approximate }

/-- An object of the far side is sent, and then 53 objects of the near side that hold its proxy. Nothing
on the near side is rooted. -/
def crowdedSlot : List BridgeEvent :=
  [.mutate .far (.alloc .ordinary []), .mutate .far (.addRoot ⟨0, 0⟩), .send .far (.ref ⟨0, 0⟩) 0] ++
    (List.range 53).flatMap fun i =>
      [.mutate .near (.alloc .ordinary [.ref ⟨0, 0⟩]), .send .near (.ref ⟨i + 1, 0⟩) 0]

/-- What these events leave, before any cycle. -/
theorem tables_crowdedSlot :
    let b := (opened crowding).history crowdedSlot
    b.near.heap.cells = (EdgeGraph.crowdHeap 53).cells ∧
    b.near.exports.rows = (EdgeGraph.crowdExports 53).rows ∧
    b.near.heap.rootIds = [] ∧
    b.near.imports.proxy? b.near.heap ⟨0⟩ = some ⟨0, 0⟩ ∧
    b.far.exports.entry? ⟨0⟩ = some (.live ⟨0, 0⟩) ∧
    b.demand = .ok () ∧
    (b.far.planRepair b.far.liveProxies).isOk = true := by
  decide +kernel

theorem sound_crowdedSlot : ((opened crowding).history crowdedSlot).Sound :=
  sound_history (sound_new (@new_opened crowding rfl)) crowdedSlot

theorem crowded_crowdedSlot :
    EdgeGraph.Crowded ((opened crowding).history crowdedSlot).near.heap
      ((opened crowding).history crowdedSlot).near.exports crowding.buildOptions ⟨0, 0⟩ := by
  obtain ⟨cells, rows, bare, -⟩ := tables_crowdedSlot
  exact EdgeGraph.crowded_of_crowd rfl rfl cells rows bare

theorem answered_crowdedSlot :
    ∃ report, ((opened crowding).history crowdedSlot).collect.answer = .ok report := by
  obtain ⟨-, -, -, -, -, room, planned⟩ := tables_crowdedSlot
  refine answered_of_planned sound_crowdedSlot room ?_
  cases found : ((opened crowding).history crowdedSlot).far.planRepair
      ((opened crowding).history crowdedSlot).far.liveProxies with
  | ok plan => exact ⟨plan, rfl⟩
  | error f =>
      rw [found] at planned
      cases planned

theorem settings_crowdedSlot :
    ((opened crowding).history crowdedSlot).collector.settings = crowding :=
  settings_history (opened crowding) crowdedSlot

theorem severed_crowdedSlot :
    ((opened crowding).history crowdedSlot).exactly.collect.state.far.exports.entry? ⟨0⟩ =
      some .detached := by
  obtain ⟨-, -, bare, -, live, -⟩ := tables_crowdedSlot
  obtain ⟨report, answered⟩ := answered_crowdedSlot
  exact severed_exactly_of_bare (congrArg Settings.graphMode settings_crowdedSlot)
    sound_crowdedSlot (congrArg Settings.forceNative settings_crowdedSlot) answered bare live

theorem severed_but_for_crowds_crowded :
    (∃ report, ((opened crowding).history crowdedSlot).collect.answer = .ok report) ∧
    ∀ n, (((opened crowding).history crowdedSlot).history
      (List.replicate (n + 1) .collect)).far.exports.entry? ⟨0⟩ = some (.live ⟨0, 0⟩) := by
  obtain ⟨report, answered⟩ := answered_crowdedSlot
  refine ⟨⟨report, answered⟩, fun n => ?_⟩
  obtain ⟨-, -, -, found, live, -⟩ := tables_crowdedSlot
  have law := @severed_but_for_crowds crowding (opened crowding) crowdedSlot report (new_opened rfl)
    rfl rfl answered
  exact ((law.2 n).2 ⟨0⟩ severed_crowdedSlot ⟨0, 0⟩).2
    ⟨.inl live, ⟨0, 0⟩, found, crowded_crowdedSlot⟩

/-- Two cycles leave a slot live that one cycle with the exact builder severs. -/
theorem crowded_slot_kept :
    let b := (opened crowding).history crowdedSlot
    b.exactly.collect.state.far.exports.entry? ⟨0⟩ = some .detached ∧
    (∃ report, b.collect.answer = .ok report) ∧
    (∃ report, b.collect.state.collect.answer = .ok report) ∧
    b.collect.state.collect.state.far.exports.entry? ⟨0⟩ = some (.live ⟨0, 0⟩) := by
  obtain ⟨report, answered⟩ := answered_crowdedSlot
  obtain ⟨-, -, -, found, live, -⟩ := tables_crowdedSlot
  have unforced := congrArg Settings.forceNative settings_crowdedSlot
  refine ⟨severed_crowdedSlot, ⟨report, answered⟩,
    answered_again sound_crowdedSlot unforced answered, ?_⟩
  refine live_twice_of_crowded (congrArg Settings.graphMode settings_crowdedSlot) sound_crowdedSlot
    unforced answered found ?_ live
  rw [settings_crowdedSlot]
  exact crowded_crowdedSlot

end Bridge

end TwinHeap
