import TwinHeap.Proofs.Bridge.Soundness
import TwinHeap.Proofs.EdgeGraph.Approximate
import TwinHeap.Proofs.EdgeGraph.Exact
import TwinHeap.Proofs.EdgeGraph.Written

/-! The graph that a cycle sends fits the tables of the other side and arrives as it was built. A cycle
fails for lack of room or for a record that contradicts a slot, and for nothing else. -/
namespace TwinHeap

namespace Bridge

variable {b : Bridge} {report : CycleReport}

theorem named_outgoing (b : Bridge) :
    EdgeGraph.Named b.near.heap b.near.exports b.near.imports b.outgoing := by
  unfold outgoing EdgeGraph.ofMode
  split
  · exact EdgeGraph.named_exact _ _ _ _
  · exact EdgeGraph.named_approximate _ _ _ _

theorem lt_size_of_proxy? {s : Side} {j : ImportKey} {p : ObjectId}
    (found : s.imports.proxy? s.heap j = some p) : j.number < s.imports.size :=
  Imports.lt_size_of_entry? (Imports.proxy?_eq_some_iff.1 found).1

theorem root_outgoing_lt (sound : b.Sound) {j : ImportKey} (member : j ∈ b.outgoing.root) :
    j.number < b.far.exports.size := by
  obtain ⟨p, found⟩ := b.named_outgoing.root j member
  have coupled : b.far.exports.size = b.near.imports.size := (sound.coupled .far).size
  exact coupled ▸ lt_size_of_proxy? found

theorem edge_outgoing_lt (sound : b.Sound) {k : ExportKey} {js : List ImportKey}
    (listed : b.outgoing.successors? k = some js) :
    k.number < b.far.imports.size ∧ ∀ j ∈ js, j.number < b.far.exports.size := by
  obtain ⟨⟨o, live⟩, all⟩ := b.named_outgoing.edge k js listed
  have there : b.near.exports.size = b.far.imports.size := (sound.coupled .near).size
  have back : b.far.exports.size = b.near.imports.size := (sound.coupled .far).size
  refine ⟨there ▸ Exports.lt_size_of_entry? live, fun j member => ?_⟩
  obtain ⟨p, found⟩ := all j member
  exact back ▸ lt_size_of_proxy? found

/-- No slot of the graph is missing in the tables that receive it. -/
theorem check_outgoing (sound : b.Sound) :
    IncomingGraph.check b.outgoing b.far.exports.size b.far.imports.size = .ok () :=
  IncomingGraph.check_eq_ok_iff.2 ⟨fun _ => root_outgoing_lt sound,
    fun _ member => edge_outgoing_lt sound (EdgeGraph.mem_edges.1 member)⟩

theorem fitting_outgoing (sound : b.Sound) : b.outgoing.Fitting := by
  have near : b.near.exports.size ≤ slotLimit := (sound.side .near).ordered.size_le
  have far : b.far.exports.size ≤ slotLimit := (sound.side .far).ordered.size_le
  have there : b.near.exports.size = b.far.imports.size := (sound.coupled .near).size
  refine ⟨fun j member => Nat.lt_of_lt_of_le (root_outgoing_lt sound member) far, ?_⟩
  intro e member
  obtain ⟨key, below⟩ := edge_outgoing_lt sound (EdgeGraph.mem_edges.1 member)
  exact ⟨Nat.lt_of_lt_of_le key (there ▸ near), fun j member =>
    Nat.lt_of_lt_of_le (below j member) far⟩

/-- The graph as the far side has it. -/
def incoming (b : Bridge) : IncomingGraph where
  roots := b.outgoing.root.map ImportKey.across
  edges := b.outgoing.edges.entries.map fun e => (e.1.across, e.2.map ImportKey.across)

theorem ofGraph_outgoing (sound : b.Sound) :
    IncomingGraph.ofGraph b.outgoing b.far = .ok b.incoming := by
  unfold IncomingGraph.ofGraph
  rw [check_outgoing sound]
  rfl

/-- Every way in which a cycle can end. -/
theorem cycle_cases (sound : b.Sound) :
    (∃ f, b.demand = .error f ∧ b.collect.answer = .error f ∧ b.collect.state.far = b.far) ∨
    (∃ f, b.demand = .ok () ∧ b.collector.settings.forceNative = false ∧
      b.far.planRepair b.far.liveProxies = .error f ∧ b.collect.answer = .error f ∧
      b.collect.state.far = b.far) ∨
    b.demand = .ok () ∧ (∃ report, b.collect.answer = .ok report) ∧
      Manager.Manages b.far b.incoming b.collector.settings.forceNative b.collect.state.far := by
  have bare : b.collector.settings.forceNative = true → b.far.Unrecorded := fun forced =>
    sound.bare .far (.inr forced)
  have read := EdgeGraph.ofText_toText (fitting_outgoing sound)
  have split : (∃ f, b.collector.settings.forceNative = false ∧
      b.far.planRepair b.far.liveProxies = .error f ∧ b.managed.answer = .error f ∧
        b.managed.state.2 = b.far) ∨
      (∃ report, b.managed.answer = .ok report) ∧
        Manager.Manages b.far b.incoming b.collector.settings.forceNative b.managed.state.2 := by
    rcases Manager.collectText_cases b.manager b.collector.settings.forceNative
        b.outgoing.toText (sound.side .far) bare with
        ⟨f, refuses, answer, state⟩ | ⟨g, incoming, same, fits, answer, manages⟩
    · refine .inl ⟨f, ?_⟩
      have kept : b.managed.state.2 = b.far := congrArg Prod.snd state
      cases refuses with
      | text unread =>
          rw [read] at unread
          cases unread
      | graph same misfit =>
          rw [read] at same
          cases same
          cases (check_outgoing sound).symm.trans misfit
      | clash unforced clash => exact ⟨unforced, clash, answer, kept⟩
    · rw [read] at same
      cases same
      cases (ofGraph_outgoing sound).symm.trans fits
      exact .inr ⟨answer, manages⟩
  rcases b.collect_cases with short | ⟨room, far, answer⟩
  · exact .inl short
  · rcases split with ⟨f, unforced, clash, refused, kept⟩ | ⟨⟨report, done⟩, manages⟩
    · refine .inr (.inl ⟨f, room, unforced, clash, ?_, far.trans kept⟩)
      rcases answer with ⟨f', same, refused'⟩ | ⟨r, report, done, -⟩
      · rw [refused] at same
        cases same
        exact refused'
      · rw [refused] at done
        cases done
    · refine .inr (.inr ⟨room, ?_, far ▸ manages⟩)
      rcases answer with ⟨f, refused, -⟩ | ⟨r, report, -, done⟩
      · rw [done] at refused
        cases refused
      · exact ⟨report, done⟩

/-- A cycle that succeeds in the normal mode repairs first and then severs. -/
theorem repairs_collect (sound : b.Sound) (unforced : b.collector.settings.forceNative = false)
    (answered : b.collect.answer = .ok report) :
    ∃ s₁ s₂, b.far.Repairs b.far.liveProxies s₁ ∧ s₁.Severed b.incoming s₂ ∧
      b.collect.state.far = { s₂ with exports := s₂.exports.override } := by
  rcases cycle_cases sound with ⟨f, -, refused, -⟩ | ⟨f, -, -, -, refused, -⟩ | ⟨-, -, manages⟩
  · cases refused.symm.trans answered
  · cases refused.symm.trans answered
  · rw [unforced] at manages
    exact manages.of_normal

/-- A cycle succeeds if there is room for its graph and no record contradicts a slot. -/
theorem answered_of_planned (sound : b.Sound) (room : b.demand = .ok ())
    (planned : ∃ plan, b.far.planRepair b.far.liveProxies = .ok plan) :
    ∃ report, b.collect.answer = .ok report := by
  obtain ⟨plan, planned⟩ := planned
  rcases cycle_cases sound with ⟨f, short, -⟩ | ⟨f, -, -, clash, -⟩ | ⟨-, done, -⟩
  · cases room.symm.trans short
  · cases planned.symm.trans clash
  · exact done

theorem answered_of_kept (sound : b.Sound) (room : b.demand = .ok ()) (kept : b.far.Kept) :
    ∃ report, b.collect.answer = .ok report :=
  answered_of_planned sound room
    (Side.planRepair_of_kept (sound.side .far) kept b.far.liveProxies)

theorem room_of_answered (sound : b.Sound) (answered : b.collect.answer = .ok report) :
    b.demand = .ok () := by
  rcases cycle_cases sound with ⟨f, -, refused, -⟩ | ⟨f, -, -, -, refused, -⟩ | ⟨room, -⟩
  · cases refused.symm.trans answered
  · cases refused.symm.trans answered
  · exact room

theorem far_collect_of_error {f : Fault} (sound : b.Sound) (refused : b.collect.answer = .error f) :
    b.collect.state.far = b.far := by
  rcases cycle_cases sound with ⟨f, -, -, same⟩ | ⟨f, -, -, -, -, same⟩ | ⟨-, ⟨report, done⟩, -⟩
  · exact same
  · exact same
  · cases refused.symm.trans done

/-- A graph that cannot be built lacks room, for its filters or for the work queue. -/
theorem demand_eq_error {f : Fault} (short : b.demand = .error f) :
    (∃ text, f = .exhausted text) ∨
      ∃ n, f = .oversized n ∧ Ring.demand b.collector.settings.queueCapacity = .error f := by
  have reserved : ∀ {n w : Nat} {f : Fault}, Capacity.reserve n w = .error f →
      ∃ text, f = .exhausted text := by
    intro n w f refused
    unfold Capacity.reserve at refused
    split at refused
    · cases refused
    · split at refused <;> exact ⟨_, (Except.error.inj refused).symm⟩
  have required : ∀ {n : Nat} {f : Fault}, Ring.demand n = .error f → ∃ m, f = .oversized m := by
    intro n f refused
    unfold Ring.demand Capacity.require at refused
    split at refused
    · cases refused
    · exact ⟨_, (Except.error.inj refused).symm⟩
  unfold demand EdgeGraph.demand at short
  split at short
  · obtain ⟨n, oversized⟩ := required short
    exact .inr ⟨n, oversized, short⟩
  · cases room : Capacity.reserve
        (b.collector.settings.buildOptions.room?.getD b.near.heap.capacity) 8 with
    | error f' =>
        rw [room] at short
        cases short
        exact .inl (reserved room)
    | ok _ =>
        rw [room] at short
        obtain ⟨n, oversized⟩ := required short
        exact .inr ⟨n, oversized, short⟩

/-- A clash is always about a slot and an object that a record names for it. -/
theorem collect_eq_error (sound : b.Sound) {f : Fault} (refused : b.collect.answer = .error f) :
    b.demand = .error f ∨ ∃ k, f = .brokenSlot k := by
  rcases cycle_cases sound with ⟨f', short, answer, -⟩ | ⟨f', -, -, clash, answer, -⟩ |
      ⟨-, ⟨report, answer⟩, -⟩
  · rw [refused] at answer
    cases answer
    exact .inl short
  · rw [refused] at answer
    cases answer
    obtain ⟨k, x, y, -, -, rfl, -⟩ := Side.clash_of_planRepair clash
    exact .inr ⟨k.number, rfl⟩
  · rw [refused] at answer
    cases answer

end Bridge

end TwinHeap
