import TwinHeap.Proofs.Side.Heeding
import TwinHeap.Proofs.Side.Respect

/-! How a run of the manager goes on any side that its events can lead to. Records that are at odds with
the table stop a run in the normal mode before it begins, and one in the forced mode when it has severed
and swept. -/
namespace TwinHeap

namespace Side

variable {s s' : Side} {g : IncomingGraph} {k : ExportKey} {x : ObjectId}

theorem Cut.formed (cut : s.Cut g s') (formed : s.Formed) : s'.Formed where
  heap := cut.heap.wellFormed formed.heap
  ordered := (cut.ordered formed.ordered).1
  paired := cut.paired
  enlisted := fun p owner => by
    rw [mem_liveProxies, cut.imports, cut.heap.isAlive]
    rcases cut.owner p owner with old | ⟨j, found⟩
    · exact mem_liveProxies.1 (formed.enlisted p old)
    · exact ⟨j, Imports.proxy?_eq_some_iff.1 found⟩

/-- Installing the overrides changes nothing that a severing speaks of. -/
theorem Cut.override (cut : s.Cut g s') :
    s.Cut g { s' with exports := s'.exports.override } where
  heap := cut.heap
  paired := cut.paired
  source := cut.source
  written := cut.written
  kept := cut.kept
  owner := cut.owner
  imports := cut.imports
  entry := cut.entry
  note := cut.note
  ordered := fun ordered =>
    ⟨Exports.ordered_override (cut.ordered ordered).1, (cut.ordered ordered).2⟩

theorem Cut.detached_or (cut : s.Cut g s') (detached : s'.exports.entry? k = some .detached) :
    s.exports.entry? k = some .detached ∨ ∃ x, s.exports.entry? k = some (.live x) := by
  have entry := (cut.entry k).symm.trans detached
  split at entry
  · rename_i both
    obtain ⟨x, holds⟩ := Option.isSome_iff_exists.1 both.2
    exact .inr ⟨x, Exports.object?_eq_some_iff.1 holds⟩
  · exact .inl entry

/-- What is named for a slot after a severing is what the slot held, or a record named it before. -/
theorem Cut.named (cut : s.Cut g s') (named : s'.Named k x) :
    s.exports.entry? k = some (.live x) ∨ s.Recorded k x := by
  rcases named with noted | ⟨p, recorded⟩
  · exact .inl (Exports.object?_eq_some_iff.1 (cut.note x k noted).2)
  · rcases cut.source p k x recorded with old | ⟨-, holds, -⟩
    · exact .inr ⟨p, old⟩
    · exact .inl (Exports.object?_eq_some_iff.1 holds)

/-- Records that can be applied name the slots with what they hold, and each with one object. -/
theorem agree_of_planRepair {repair : RepairPlan} (enlisted : s.Enlisted)
    (planned : s.planRepair s.liveProxies = .ok repair) :
    s.Kept ∧ ∀ k x y, s.exports.entry? k = some .detached → s.Recorded k x → s.Recorded k y →
      x = y := by
  have plans := plans_of_planRepair planned
  constructor
  · exact fun k x y recorded live => plans.agree k x y ((recordedBy_liveProxies enlisted).2 recorded) live
  · intro k x y detached hx hy
    have first := (plans.restores k x).2 ⟨detached, (recordedBy_liveProxies enlisted).2 hx⟩
    have second := (plans.restores k y).2 ⟨detached, (recordedBy_liveProxies enlisted).2 hy⟩
    exact Option.some.inj (first.symm.trans second)

/-- Records that could be applied before a severing and a sweep can be applied after it. -/
theorem Cut.planRepair_swept {repair : RepairPlan} (cut : s.Cut g s') (formed : s.Formed)
    (planned : s.planRepair s.liveProxies = .ok repair) (ps : List ObjectId) :
    ∃ next, s'.nativeCollect.state.planRepair ps = .ok next := by
  obtain ⟨kept, agreed⟩ := agree_of_planRepair formed.enlisted planned
  have aged : s'.heap.Aged s'.nativeCollect.state.heap :=
    Heap.aged_sweep (cut.formed formed).heap _
  have recorded : ∀ {k x}, s'.nativeCollect.state.heap.RecordedBy ps k x →
      s.exports.entry? k = some (.live x) ∨ s.Recorded k x :=
    fun named => cut.named (.inr (recorded_of_aged aged _ _ (recorded_of_recordedBy named)))
  have held : ∀ {k x y}, s.exports.entry? k = some (.live y) →
      s'.nativeCollect.state.heap.RecordedBy ps k x → y = x := by
    intro k x y live named
    rcases recorded named with same | old
    · cases live.symm.trans same
      rfl
    · exact kept k x y old live
  cases now : s'.nativeCollect.state.planRepair ps with
  | ok next => exact ⟨next, rfl⟩
  | error f =>
      -- a slot that is detached now held an object or was detached before; either decides the clash
      obtain ⟨k, x, y, named, differ, -, live | ⟨detached, other⟩⟩ := clash_of_planRepair now
      · have entry := (cut.entry k).symm.trans live
        split at entry
        · cases entry
        · exact (differ (held entry named)).elim
      · rcases cut.detached_or detached with before | ⟨z, live⟩
        · have old : ∀ {z}, s'.nativeCollect.state.heap.RecordedBy ps k z → s.Recorded k z :=
            fun named => (recorded named).resolve_left fun live => nomatch before.symm.trans live
          exact (differ (agreed k y x before (old other) (old named))).elim
        · exact (differ ((held live other).symm.trans (held live named))).elim

end Side

namespace Manager

variable {m : Manager} {s : Side}

theorem collectText_eq (m : Manager) (s : Side) (forced : Bool) (text : String) :
    m.collectText s forced text =
      match EdgeGraph.ofText text with
      | .error f => { state := (m, s), answer := .error (.text f) }
      | .ok g => m.collectGraph s forced g := rfl

theorem mem_roots_of_ofGraph {g : EdgeGraph} {incoming : IncomingGraph} {k : ExportKey}
    (fits : IncomingGraph.ofGraph g s = .ok incoming) : k ∈ incoming.roots ↔ k.across ∈ g.root := by
  unfold IncomingGraph.ofGraph at fits
  split at fits
  · cases fits
  · cases fits
    exact Side.mem_map_across

theorem cut_forced (formed : s.Formed) (g : IncomingGraph) :
    (sever s (.of s g {})).answer = .ok () ∧ s.Cut g (sever s (.of s g {})).state :=
  Side.cut_sever formed.paired (fits_unrepaired s g)

theorem formed_swept (formed : s.Formed) (g : IncomingGraph) : (swept s g).Formed :=
  (Side.heeds_nativeCollect ((cut_forced formed g).2.formed formed)).formed

/-- Every way in which a run by a graph can end. -/
theorem collectGraph_cases (m : Manager) (formed : s.Formed) (forced : Bool) (g : EdgeGraph) :
    (∃ f, (m.collectGraph s forced g).answer = .error f ∧
      (m.collectGraph s forced g).state = (m, s) ∧ passing s forced g = []) ∨
    (∃ incoming repaired, forced = false ∧ IncomingGraph.ofGraph g s = .ok incoming ∧
      (∃ report, (m.collectGraph s forced g).answer = .ok report) ∧
      s.Repairs s.liveProxies repaired ∧
      repaired.Cut incoming (m.collectGraph s forced g).state.2 ∧
      passing s forced g = [repaired]) ∨
    ∃ incoming severed, forced = true ∧ IncomingGraph.ofGraph g s = .ok incoming ∧
      m.collectGraph s forced g = m.forceNative s incoming ∧ s.Cut incoming severed ∧
      swept s incoming = severed.nativeCollect.state ∧
      passing s forced g = [severed, swept s incoming] := by
  cases fits : IncomingGraph.ofGraph g s with
  | error f =>
      left
      refine ⟨f, ?_⟩
      cases forced <;> simp [collectGraph, collect, collectForced, passing, fits]
  | ok incoming =>
      cases forced with
      | true =>
          refine .inr (.inr ⟨incoming, _, rfl, rfl, ?_, (cut_forced formed incoming).2, rfl, ?_⟩)
          · simp only [collectGraph, if_true, collectForced, fits]
          · simp only [passing, fits, if_true]
      | false =>
          simp only [collectGraph, Bool.false_eq_true, if_false, collect, passing, fits]
          cases planned : s.planRepair s.liveProxies with
          | error f => exact .inl ⟨f, rfl, rfl, rfl⟩
          | ok repair =>
              obtain ⟨done, severed, repairs, cut, state⟩ :=
                cut_carryOut m (g := incoming) formed.enlisted formed.ordered planned
              exact .inr (.inl ⟨incoming, _, trivial, rfl, done, repairs, state ▸ cut.override, rfl⟩)

theorem formed_collectGraph (m : Manager) (formed : s.Formed) (forced : Bool) (g : EdgeGraph) :
    (m.collectGraph s forced g).state.2.Formed := by
  rcases m.collectGraph_cases formed forced g with ⟨f, -, state, -⟩ |
      ⟨incoming, repaired, -, -, -, repairs, cut, -⟩ | ⟨incoming, severed, -, -, same, -⟩
  · rw [state]
    exact formed
  · exact cut.formed (Side.heeds_of_mends formed repairs.mends).formed
  · rw [same]
    have next := formed_swept formed incoming
    rcases m.forceNative_cases formed.paired incoming with ⟨f, -, -, state⟩ | ⟨-, -, state⟩
    · rw [state]
      exact next
    · rw [state]
      exact (Side.heeds_repairAll next).formed

end Manager

namespace Managed

variable {b : Managed}

/-- An event runs the manager by a graph, or it severs nothing. -/
theorem update_cases (formed : b.side.Formed) (event : SideEvent) :
    b.side.Heeds (b.update event).side ∧ b.passing event = [] ∨
    ∃ g, (b.update event).side = (b.manager.collectGraph b.side event.forces g).state.2 ∧
      b.passing event = Manager.passing b.side event.forces g := by
  cases event with
  | mutate m => exact .inl ⟨Side.heeds_mutate formed m, rfl⟩
  | allocProxy k => exact .inl ⟨Side.heeds_allocProxy formed k, rfl⟩
  | sweep extra => exact .inl ⟨Side.heeds_collect formed extra, rfl⟩
  | nativeCollect => exact .inl ⟨Side.heeds_nativeCollect formed, rfl⟩
  | share id => exact .inl ⟨Side.heeds_share formed id, rfl⟩
  | proxyFor k => exact .inl ⟨Side.heeds_of_receives formed (b.side.receives_proxyFor k), rfl⟩
  | encode v => exact .inl ⟨Side.heeds_encode formed v, rfl⟩
  | decode parcel => exact .inl ⟨Side.heeds_decode formed parcel, rfl⟩
  | handBack p => exact .inl ⟨Side.heeds_of_mends formed (b.side.mends_handBack p), rfl⟩
  | release keys => exact .inl ⟨Side.heeds_release formed keys, rfl⟩
  | scavenge => exact .inl ⟨Side.heeds_scavenge formed, rfl⟩
  | repairProxy p => exact .inl ⟨Side.heeds_repairProxy formed p, rfl⟩
  | repairAll => exact .inl ⟨Side.heeds_repairAll formed, rfl⟩
  | manage forced g => exact .inr ⟨g, rfl, rfl⟩
  | manageText forced text =>
      simp only [update, ofPair, passing, Manager.collectText_eq, SideEvent.forces]
      cases EdgeGraph.ofText text with
      | error f => exact .inl ⟨formed.heeds, rfl⟩
      | ok g => exact .inr ⟨g, rfl, rfl⟩

theorem formed_update (formed : b.side.Formed) (event : SideEvent) :
    (b.update event).side.Formed := by
  rcases update_cases formed event with ⟨heeds, -⟩ | ⟨g, state, -⟩
  · exact heeds.formed
  · rw [state]
    exact b.manager.formed_collectGraph formed event.forces g

theorem formed_history (formed : b.side.Formed) (events : List SideEvent) :
    (b.history events).side.Formed := by
  induction events generalizing b with
  | nil => exact formed
  | cons event events ih => exact ih (formed_update formed event)

theorem formed_new (name : String) (events : List SideEvent) :
    ((new name).history events).side.Formed :=
  formed_history (Side.formed_empty name) events

/-- A run severs slot 0, and the record of a proxy names it. Its object is exported again, so that the
slot is live when it is released, and another object gets it. -/
def staleRecord : List SideEvent :=
  [.mutate (.alloc .ordinary []), .mutate (.addRoot ⟨0, 0⟩), .mutate (.alloc .ordinary []),
    .mutate (.addRoot ⟨1, 0⟩), .share ⟨0, 0⟩, .share ⟨1, 0⟩, .proxyFor ⟨0⟩,
    .mutate (.addRoot ⟨2, 0⟩),
    .manage false ({ root := [⟨1⟩] : EdgeGraph }.insert ⟨0⟩ [⟨0⟩]), .share ⟨0, 0⟩, .release [⟨0⟩],
    .mutate (.alloc .ordinary []), .mutate (.addRoot ⟨3, 0⟩), .share ⟨3, 0⟩]

end Managed

end TwinHeap
