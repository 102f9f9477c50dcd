import TwinHeap.Proofs.Bridge.Moves
import TwinHeap.Proofs.Managed.Runs

/-! What a run of the manager that fails leaves behind. In the normal mode that is the side as it was.
In the forced mode the records are looked at only when the side is severed and swept, and a run that
stops there leaves it so. -/
namespace TwinHeap

namespace Manager

/-- A run in the forced mode has made `s'` of the side when a record stops it. -/
def StopsAt (s : Side) (g : EdgeGraph) (f : Fault) (s' : Side) : Prop :=
  ∃ incoming, IncomingGraph.ofGraph g s = .ok incoming ∧ s' = swept s incoming ∧
    s'.planRepair s'.liveProxies = .error f

variable {m : Manager} {s s' : Side} {g : EdgeGraph} {f : Fault}

theorem collectGraph_eq_error {forced : Bool} (formed : s.Formed)
    (refused : (m.collectGraph s forced g).answer = .error f) :
    (m.collectGraph s forced g).state = (m, s) ∨
      forced = true ∧ ∃ s', StopsAt s g f s' ∧ (m.collectGraph s forced g).state = (m, s') := by
  rcases m.collectGraph_cases formed forced g with ⟨f', -, state, -⟩ |
      ⟨incoming, repaired, -, -, ⟨report, done⟩, -⟩ | ⟨incoming, severed, mode, fits, same, -⟩
  · exact .inl state
  · exact nomatch done.symm.trans refused
  · rw [same] at refused ⊢
    rcases m.forceNative_cases formed.paired incoming with ⟨f', clash, answer, state⟩ |
        ⟨-, ⟨report, done⟩, -⟩
    · cases answer.symm.trans refused
      exact .inr ⟨mode, _, ⟨incoming, fits, rfl, clash⟩, state⟩
    · exact nomatch done.symm.trans refused

theorem collectText_eq_error {forced : Bool} {text : String} (formed : s.Formed)
    (refused : (m.collectText s forced text).answer = .error f) :
    (m.collectText s forced text).state = (m, s) ∨
      forced = true ∧ ∃ g s', EdgeGraph.ofText text = .ok g ∧ StopsAt s g f s' ∧
        (m.collectText s forced text).state = (m, s') := by
  rw [collectText_eq] at refused ⊢
  cases read : EdgeGraph.ofText text with
  | error f' => exact .inl rfl
  | ok g =>
      rw [read] at refused
      exact (collectGraph_eq_error formed refused).imp_right
        fun ⟨mode, s', stops, state⟩ => ⟨mode, g, s', rfl, stops, state⟩

/-- A run that stops late fails with a broken slot, which it would have met before it began. -/
theorem StopsAt.broken (stops : StopsAt s g f s') (formed : s.Formed) :
    (∃ k, f = .brokenSlot k) ∧ ∃ f', s.planRepair s.liveProxies = .error f' := by
  obtain ⟨incoming, -, rfl, clash⟩ := stops
  constructor
  · obtain ⟨k, x, y, -, -, fault, -⟩ := Side.clash_of_planRepair clash
    exact ⟨k.number, fault⟩
  · cases planned : s.planRepair s.liveProxies with
    | error f' => exact ⟨f', rfl⟩
    | ok repair =>
        obtain ⟨next, applied⟩ := (cut_forced formed incoming).2.planRepair_swept formed planned
          (swept s incoming).liveProxies
        exact nomatch applied.symm.trans clash

theorem StopsAt.stopped (stops : StopsAt s g f s') (formed : s.Formed) :
    (m.collectGraph s true g).answer = .error f ∧ (m.collectGraph s true g).state = (m, s') := by
  obtain ⟨incoming, fits, rfl, clash⟩ := stops
  have same : m.collectGraph s true g = m.forceNative s incoming := by
    simp only [collectGraph, if_true, collectForced, fits]
  rw [same]
  rcases m.forceNative_cases formed.paired incoming with ⟨f', clash', answer, state⟩ |
      ⟨⟨repair, planned⟩, -⟩
  · cases clash'.symm.trans clash
    exact ⟨answer, state⟩
  · cases planned.symm.trans clash

/-- Every slot outside the roots has lost its object by then. -/
theorem StopsAt.entry (stops : StopsAt s g f s') (formed : s.Formed) (k : ExportKey) :
    s'.imports = s.imports ∧ s'.exports.entry? k =
      if k.across ∉ g.root ∧ (s.exports.object? k).isSome = true then some .detached
      else s.exports.entry? k := by
  obtain ⟨incoming, fits, rfl, -⟩ := stops
  have cut := (cut_forced formed incoming).2
  refine ⟨cut.imports, (cut.entry k).trans ?_⟩
  have roots := mem_roots_of_ofGraph fits (k := k)
  simp only [roots]

end Manager

theorem Collector.close_eq_error {c : Collector} {g : EdgeGraph} {far : Side}
    {result : Except Fault ManagerReport} {f : Fault}
    (refused : (c.close g far result).answer = .error f) : result = .error f := by
  cases result with
  | error f' =>
      cases (Bridge.answer_fail c f').symm.trans refused
      rfl
  | ok report => cases refused

/-- A cycle hands the text of its graph to the manager, if it can build one. -/
theorem Collector.collect_cases (c : Collector) (near far : Side) (m : Manager) :
    (c.collect near far m).state.2 = (far, m) ∨
    ∃ built, (c.buildGraph near).answer = .ok built ∧
      let run := m.collectText far c.settings.forceNative built.toText
      (c.collect near far m).state.2 = (run.state.2, run.state.1) ∧
        ∀ f, (c.collect near far m).answer = .error f → run.answer = .error f := by
  unfold collect
  dsimp only
  split
  · exact .inl rfl
  · rename_i g built
    exact .inr ⟨g, built, rfl, fun f refused => close_eq_error refused⟩

theorem Collector.collect_eq_error {c : Collector} {near far : Side} {m : Manager} {f : Fault}
    (formed : far.Formed) (refused : (c.collect near far m).answer = .error f) :
    (c.collect near far m).state.2 = (far, m) ∨
      c.settings.forceNative = true ∧ ∃ built g s', (c.buildGraph near).answer = .ok built ∧
        EdgeGraph.ofText built.toText = .ok g ∧ Manager.StopsAt far g f s' ∧
        (c.collect near far m).state.2 = (s', m) := by
  rcases c.collect_cases near far m with same | ⟨built, made, state, answer⟩
  · exact .inl same
  · rw [state]
    rcases Manager.collectText_eq_error formed (answer f refused) with kept |
        ⟨mode, g, s', read, stops, cut⟩
    · exact .inl (by rw [kept])
    · exact .inr ⟨mode, built, g, s', made, read, stops, by rw [cut]⟩

namespace Managed

/-- A run that is refused leaves its side and the manager as they were, unless it is in the forced mode
and a record stops it after the sweep: then the slots outside the roots are severed. That comes about
only by a record that a run in the normal mode would have been refused for, and without a change. -/
theorem refused_run (name : String) (events : List SideEvent) :
    let b := (new name).history events
    (∀ forced g f, (b.manager.collectGraph b.side forced g).answer = .error f →
      (b.manager.collectGraph b.side forced g).state = (b.manager, b.side) ∨
      forced = true ∧ ∃ s', Manager.StopsAt b.side g f s' ∧
        (b.manager.collectGraph b.side forced g).state = (b.manager, s')) ∧
    (∀ forced text f, (b.manager.collectText b.side forced text).answer = .error f →
      (b.manager.collectText b.side forced text).state = (b.manager, b.side) ∨
      forced = true ∧ ∃ g s', EdgeGraph.ofText text = .ok g ∧ Manager.StopsAt b.side g f s' ∧
        (b.manager.collectText b.side forced text).state = (b.manager, s')) ∧
    (∀ (c : Collector) near f, (c.collect near b.side b.manager).answer = .error f →
      (c.collect near b.side b.manager).state.2 = (b.side, b.manager) ∨
      c.settings.forceNative = true ∧ ∃ built g s', (c.buildGraph near).answer = .ok built ∧
        EdgeGraph.ofText built.toText = .ok g ∧ Manager.StopsAt b.side g f s' ∧
        (c.collect near b.side b.manager).state.2 = (s', b.manager)) ∧
    ∀ g f s', Manager.StopsAt b.side g f s' →
      (b.manager.collectGraph b.side true g).answer = .error f ∧
      (b.manager.collectGraph b.side true g).state = (b.manager, s') ∧
      (∃ k, f = .brokenSlot k) ∧
      (∃ f', b.side.planRepair b.side.liveProxies = .error f') ∧
      s'.imports = b.side.imports ∧
      ∀ k, s'.exports.entry? k =
        if k.across ∉ g.root ∧ (b.side.exports.object? k).isSome = true then some .detached
        else b.side.exports.entry? k := by
  have formed := formed_new name events
  refine ⟨?_, ?_, ?_, ?_⟩
  · exact fun forced g f refused => Manager.collectGraph_eq_error formed refused
  · exact fun forced text f refused => Manager.collectText_eq_error formed refused
  · exact fun c near f refused => Collector.collect_eq_error formed refused
  · intro g f s' stops
    obtain ⟨answer, state⟩ := stops.stopped (m := ((new name).history events).manager) formed
    obtain ⟨fault, clash⟩ := stops.broken formed
    have entry := stops.entry formed
    exact ⟨answer, state, fault, clash, (entry ⟨0⟩).1, fun k => (entry k).2⟩

/-- Slot 0 is a root of the run, and its record stops it. Slot 1 is severed, although the run is
refused. -/
theorem refused_run_severs :
    let b := (new "remote").history staleRecord
    let run := b.manager.collectGraph b.side true { root := [⟨0⟩] }
    run.answer = .error (.brokenSlot 0) ∧ b.side.exports.entry? ⟨1⟩ = some (.live ⟨1, 0⟩) ∧
      run.state.2.exports.entry? ⟨1⟩ = some .detached := by
  decide +kernel

theorem refused_run_stale :
    let b := (new "remote").history staleRecord
    let run := b.manager.collectGraph b.side true { root := [⟨0⟩] }
    run.answer = .error (.brokenSlot 0) ∧
      ∃ s', Manager.StopsAt b.side { root := [⟨0⟩] } (.brokenSlot 0) s' ∧
        run.state = (b.manager, s') := by
  dsimp only
  have refused : (Manager.collectGraph ((new "remote").history staleRecord).manager
      ((new "remote").history staleRecord).side true { root := [⟨0⟩] }).answer =
        .error (.brokenSlot 0) := by decide +kernel
  refine ⟨refused, ?_⟩
  rcases (refused_run "remote" staleRecord).1 true { root := [⟨0⟩] } (.brokenSlot 0) refused with
      kept | ⟨-, stopped⟩
  · have severed : (Manager.collectGraph ((new "remote").history staleRecord).manager
        ((new "remote").history staleRecord).side true { root := [⟨0⟩] }).state.2.exports.entry? ⟨1⟩ ≠
          ((new "remote").history staleRecord).side.exports.entry? ⟨1⟩ := by decide +kernel
    exact (severed (by rw [kept])).elim
  · exact stopped

end Managed

end TwinHeap
