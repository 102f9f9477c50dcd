import Mathlib.Data.List.Induction
import TwinHeap.Proofs.Managed.Runs
import TwinHeap.Proofs.Side.Holding

/-! Whether a detached slot gets the object back that it lost. Notes and records are made when a slot is
severed, of what it holds then. A record can be older than that: if its slot has gone to another object
meanwhile, a repair refuses it, but a run in the forced mode severs the slot first and then believes the
record. -/
namespace TwinHeap

/-- On the side `a`, which comes after those of `old`, the slot held `x`, and on all later sides of `l`
it is detached. -/
structure LastHeld (l : List Side) (k : ExportKey) (old : List Side) (a : Side) (x : ObjectId) :
    Prop where
  since : ∃ rest, l = old ++ a :: rest ∧ ∀ s ∈ rest, s.exports.entry? k = some .detached
  live : a.exports.entry? k = some (.live x)

theorem LastHeld.concat {l old : List Side} {k : ExportKey} {a s : Side} {x : ObjectId}
    (held : LastHeld l k old a x) (detached : s.exports.entry? k = some .detached) :
    LastHeld (l ++ [s]) k old a x := by
  obtain ⟨⟨rest, rfl, all⟩, live⟩ := held
  refine ⟨⟨rest ++ [s], by simp, fun z member => ?_⟩, live⟩
  rcases List.mem_append.1 member with early | last
  · exact all z early
  · rw [List.mem_singleton.1 last]
    exact detached

/-- The slot lost the object `o`, or a record named it with `o` already when it lost another one, on a
side of which `Stale` holds. -/
def Accounts (Stale : List Side → Side → Prop) (l : List Side) (k : ExportKey) (o : ObjectId) : Prop :=
  ∃ old a x, LastHeld l k old a x ∧ (x = o ∨ a.Recorded k o ∧ Stale old a)

/-- On every side of a trail, notes and records name detached slots with what they lost, and slots are
filled with nothing else. -/
structure Lawful (Stale : List Side → Side → Prop) (past : List Side) (s : Side) : Prop where
  named : ∀ k x, s.exports.entry? k = some .detached → s.Named k x →
    Accounts Stale (past ++ [s]) k x
  filled : ∀ before a a' later k o, past ++ [s] = before ++ a :: a' :: later →
    a.exports.entry? k = some .detached → a'.exports.entry? k = some (.live o) →
    Accounts Stale (before ++ [a]) k o

namespace Lawful

variable {Stale : List Side → Side → Prop} {past : List Side} {s s' : Side}

/-- It is enough to look at the last step. -/
theorem filled_concat (lawful : Lawful Stale past s)
    (last : ∀ k o, s.exports.entry? k = some .detached → s'.exports.entry? k = some (.live o) →
      Accounts Stale (past ++ [s]) k o)
    (before : List Side) (a a' : Side) (later : List Side) (k : ExportKey) (o : ObjectId)
    (split : past ++ [s] ++ [s'] = before ++ a :: a' :: later)
    (detached : a.exports.entry? k = some .detached) (live : a'.exports.entry? k = some (.live o)) :
    Accounts Stale (before ++ [a]) k o := by
  rcases List.eq_nil_or_concat later with rfl | ⟨init, z, rfl⟩
  · have ends : past ++ [s] ++ [s'] = before ++ [a] ++ [a'] := by
      rw [split, List.append_assoc]
      rfl
    obtain ⟨front, same⟩ := List.append_inj' ends rfl
    cases same
    obtain ⟨-, here⟩ := List.append_inj' front rfl
    cases here
    exact front ▸ last k o detached live
  · have ends : past ++ [s] ++ [s'] = (before ++ a :: a' :: init) ++ [z] := by
      rw [split]
      simp
    exact lawful.filled before a a' init k o (List.append_inj' ends rfl).1 detached live

theorem heed (lawful : Lawful Stale past s) (heeds : s.Heeds s') : Lawful Stale (past ++ [s]) s' where
  named := fun k x detached named => by
    have before := heeds.detached k detached
    obtain ⟨old, a, y, held, account⟩ := lawful.named k x before (heeds.named k x named)
    exact ⟨old, a, y, held.concat detached, account⟩
  filled := lawful.filled_concat fun k o detached live =>
    lawful.named k o detached (heeds.filled k o detached live)

/-- Only a severing with records that were there before can leave names that are out of date. -/
theorem cut {g : IncomingGraph} (lawful : Lawful Stale past s) (cut : s.Cut g s')
    (known : s.Unrecorded ∨ Stale past s) : Lawful Stale (past ++ [s]) s' where
  named := fun k x detached named => by
    rcases cut.detached_or detached with before | ⟨y, live⟩
    · rcases cut.named named with held | recorded
      · exact nomatch before.symm.trans held
      · obtain ⟨old, a, y, held, account⟩ := lawful.named k x before (.inr recorded)
        exact ⟨old, a, y, held.concat detached, account⟩
    · have held : LastHeld (past ++ [s] ++ [s']) k past s y := by
        refine ⟨⟨[s'], by simp, fun z member => ?_⟩, live⟩
        rw [List.mem_singleton.1 member]
        exact detached
      refine ⟨past, s, y, held, ?_⟩
      rcases cut.named named with same | recorded
      · left
        cases live.symm.trans same
        rfl
      · rcases known with bare | stale
        · obtain ⟨p, recordOf⟩ := recorded
          exact (bare.not_recordOf recordOf).elim
        · exact .inr ⟨recorded, stale⟩
  filled := lawful.filled_concat fun k o detached live => by
    have entry := (cut.entry k).symm.trans live
    split at entry
    · cases entry
    · exact nomatch detached.symm.trans entry

end Lawful

namespace Managed

/-- A run in the forced mode begins on the side `a`. -/
def ForcedAt (start : Managed) (events : List SideEvent) (old : List Side) (a : Side) : Prop :=
  ∃ first event rest, events = first ++ event :: rest ∧ event.forces = true ∧
    start.trail first = old ++ [a]

variable {b : Managed} {Stale : List Side → Side → Prop} {past : List Side}

theorem lawful_update (formed : b.side.Formed) (lawful : Lawful Stale past b.side)
    (event : SideEvent) (stale : event.forces = true → Stale past b.side) :
    Lawful Stale (past ++ [b.side] ++ b.passing event) (b.update event).side := by
  rcases update_cases formed event with ⟨heeds, passing⟩ | ⟨g, state, passing⟩
  · rw [passing, List.append_nil]
    exact lawful.heed heeds
  · rw [passing, state]
    rcases b.manager.collectGraph_cases formed event.forces g with ⟨f, -, state, passing⟩ |
        ⟨incoming, repaired, -, -, -, repairs, cut, passing⟩ |
        ⟨incoming, severed, mode, -, same, cut, swept, passing⟩
    · rw [passing, state, List.append_nil]
      exact lawful.heed formed.heeds
    · -- the repair has taken all records away, so the severing meets none that is out of date
      rw [passing]
      have mended := lawful.heed (Side.heeds_of_mends formed repairs.mends)
      exact mended.cut cut (.inl (repairs.unrecorded formed.enlisted))
    · -- here old records may be at odds with the slots that are severed, which is what `stale` allows
      have cutDown := lawful.cut cut (.inr (stale mode))
      have after := cutDown.heed (Side.heeds_nativeCollect (cut.formed formed))
      have next := Manager.formed_swept formed incoming
      rw [← swept] at after
      rw [passing, same, List.append_cons]
      rcases b.manager.forceNative_cases formed.paired incoming with ⟨f, -, -, state⟩ | ⟨-, -, state⟩
      · rw [state]
        exact after.heed next.heeds
      · rw [state]
        exact after.heed (Side.heeds_repairAll next)

theorem lawful_new (name : String) : Lawful Stale [] (new name).side where
  named := fun k x detached => by
    have missing : (new name).side.exports.entry? k = none :=
      Rows.get?_eq_none_iff.2 (decide_eq_false (Nat.not_lt_zero _))
    exact nomatch missing.symm.trans detached
  filled := fun before a a' later k o split => by
    have lengths := congrArg List.length split
    simp only [List.nil_append, List.length_append, List.length_cons, List.length_nil] at lengths
    omega

theorem lawful_trail (name : String) {events first : List SideEvent} (rest : List SideEvent)
    (split : first ++ rest = events) :
    ∃ past, (new name).trail first = past ++ [((new name).history first).side] ∧
      Lawful ((new name).ForcedAt events) past ((new name).history first).side := by
  induction first using List.reverseRecOn generalizing rest with
  | nil => exact ⟨[], rfl, lawful_new name⟩
  | append_singleton first event ih =>
      obtain ⟨past, trail, lawful⟩ := ih (event :: rest) (by rw [← split]; simp)
      refine ⟨past ++ [((new name).history first).side] ++ ((new name).history first).passing event,
        ?_, ?_⟩
      · rw [trail_append, trail]
      · rw [history_append]
        refine lawful_update (formed_new name first) lawful event fun forces => ?_
        exact ⟨first, event, rest, by rw [← split]; simp, forces, trail⟩

end Managed

namespace Side

variable {s : Side} {p : ObjectId} {k : ExportKey} {x y : ObjectId}

/-- A record that names a slot with another object than it holds is noticed. -/
theorem planRepair_of_differ {ps : List ObjectId} (named : s.heap.RecordedBy ps k x)
    (live : s.exports.entry? k = some (.live y)) (differ : y ≠ x) :
    ∃ n, s.planRepair ps = .error (.brokenSlot n) := by
  cases planned : s.planRepair ps with
  | ok plan => exact (differ ((plans_of_planRepair planned).agree k x y named live)).elim
  | error f =>
      obtain ⟨j, _, _, -, -, rfl, -⟩ := clash_of_planRepair planned
      exact ⟨j.number, rfl⟩

/-- When all records are applied, a detached slot gets what a record names for it. -/
theorem Repairs.live_of_detached {s' : Side} {repair : RepairPlan} (enlisted : s.Enlisted)
    (planned : s.planRepair s.liveProxies = .ok repair) (repairs : s.Repairs s.liveProxies s')
    (detached : s.exports.entry? k = some .detached) (recorded : s.Recorded k x) :
    s'.exports.entry? k = some (.live x) := by
  have agreed := (agree_of_planRepair enlisted planned).2
  rcases repairs.entry k with ⟨z, -, named, live⟩ | ⟨-, unnamed⟩
  · rw [agreed k x z detached recorded (recorded_of_recordedBy named)]
    exact live
  · exact (unnamed x detached ((recordedBy_liveProxies enlisted).2 recorded)).elim

end Side

namespace Manager

variable {m : Manager} {s : Side} {g : EdgeGraph} {incoming : IncomingGraph} {p : ObjectId}
  {k : ExportKey} {x y : ObjectId}

theorem collect_of_differ (fits : IncomingGraph.ofGraph g s = .ok incoming) (formed : s.Formed)
    (recorded : s.heap.RecordOf p k x) (live : s.exports.entry? k = some (.live y))
    (differ : y ≠ x) :
    (∃ n, (m.collectGraph s false g).answer = .error (.brokenSlot n)) ∧
      (m.collectGraph s false g).state = (m, s) := by
  have named := (Side.recordedBy_liveProxies formed.enlisted).2 ⟨p, recorded⟩
  obtain ⟨n, clash⟩ := Side.planRepair_of_differ named live differ
  simp only [collectGraph, Bool.false_eq_true, if_false, collect, fits, clash]
  exact ⟨⟨n, rfl⟩, trivial⟩

/-- A run in the forced mode that severs the slot believes the record. -/
theorem forced_of_differ (fits : IncomingGraph.ofGraph g s = .ok incoming) (formed : s.Formed)
    (recorded : s.heap.RecordOf p k x) (live : s.exports.entry? k = some (.live y))
    (loose : k.across ∉ g.root) (apart : ¬ s.Leads incoming p k)
    (survives : (swept s incoming).heap.isAlive p = true) :
    (∃ n, (m.collectGraph s true g).answer = .error (.brokenSlot n)) ∨
      (m.collectGraph s true g).state.2.exports.entry? k = some (.live x) := by
  have same : m.collectGraph s true g = m.forceNative s incoming := by
    simp only [collectGraph, if_true, collectForced, fits]
  have cut := (cut_forced formed incoming).2
  have kept := cut.kept p k x recorded fun leads => (apart leads).elim
  have detached : (swept s incoming).exports.entry? k = some .detached := by
    have roots := mem_roots_of_ofGraph fits (k := k)
    refine (cut.entry k).trans (if_pos ⟨fun root => loose (roots.1 root), ?_⟩)
    rw [Exports.object?_eq_some_iff.2 live]
    rfl
  rw [same]
  rcases m.forceNative_cases formed.paired incoming with ⟨f, clash, answer, -⟩ |
      ⟨⟨repair, planned⟩, -, state⟩
  · obtain ⟨j, _, _, -, -, rfl, -⟩ := Side.clash_of_planRepair clash
    exact .inl ⟨j.number, answer⟩
  · right
    rw [state]
    rcases (swept s incoming).repairAll_cases with ⟨f, clash, -⟩ | ⟨-, repairs, -⟩
    · cases planned.symm.trans clash
    · exact Side.Repairs.live_of_detached (formed_swept formed incoming).enlisted planned repairs
        detached ⟨p, (Side.recordOf_nativeCollect (Side.isAlive_nativeCollect.1 survives)).2 kept⟩

end Manager

namespace Managed

/-- Whenever a detached slot is filled, it is with the object that it lost, unless a run in the forced
mode severed it while a record named it with another one already. Such a record is reported by every
repair and by every run in the normal mode, which then change nothing. A run in the forced mode that
severs the slot and does not write that record anew, and whose sweep the proxy survives, gives the slot
the object of the record, or is stopped by another one. -/
theorem restored_object (name : String) (events : List SideEvent) :
    let start := new name
    let b := start.history events
    (∀ before s s' later k o, start.trail events = before ++ s :: s' :: later →
      s.exports.entry? k = some .detached → s'.exports.entry? k = some (.live o) →
      ∃ old a x, LastHeld (before ++ [s]) k old a x ∧
        (x = o ∨ a.Recorded k o ∧ start.ForcedAt events old a)) ∧
    ∀ p k x y, b.side.heap.RecordOf p k x → b.side.exports.entry? k = some (.live y) → y ≠ x →
      ((∃ n, (b.side.repairProxy p).answer = .error (.brokenSlot n)) ∧
        (b.side.repairProxy p).state = b.side) ∧
      ((∃ n, b.side.repairAll.answer = .error (.brokenSlot n)) ∧ b.side.repairAll.state = b.side) ∧
      ∀ g incoming, IncomingGraph.ofGraph g b.side = .ok incoming →
        ((∃ n, (b.manager.collectGraph b.side false g).answer = .error (.brokenSlot n)) ∧
          (b.manager.collectGraph b.side false g).state = (b.manager, b.side)) ∧
        (k.across ∉ g.root → ¬ b.side.Leads incoming p k →
          (Manager.swept b.side incoming).heap.isAlive p = true →
          (∃ n, (b.manager.collectGraph b.side true g).answer = .error (.brokenSlot n)) ∨
            (b.manager.collectGraph b.side true g).state.2.exports.entry? k = some (.live x)) := by
  have formed := formed_new name events
  constructor
  · intro before s s' later k o split detached live
    obtain ⟨past, ends, lawful⟩ := lawful_trail name [] (List.append_nil events)
    exact lawful.filled before s s' later k o (ends.symm.trans split) detached live
  · intro p k x y recorded live differ
    have one : ∃ n, ((new name).history events).side.planRepair [p] = .error (.brokenSlot n) :=
      Side.planRepair_of_differ ⟨p, List.mem_cons_self, recorded⟩ live differ
    have all := Side.planRepair_of_differ
      ((Side.recordedBy_liveProxies formed.enlisted).2 ⟨p, recorded⟩) live differ
    refine ⟨?_, ?_, fun g incoming fits => ⟨?_, fun loose apart survives => ?_⟩⟩
    · obtain ⟨n, clash⟩ := one
      simp only [Side.repairProxy, clash]
      exact ⟨⟨n, rfl⟩, trivial⟩
    · obtain ⟨n, clash⟩ := all
      simp only [Side.repairAll, clash]
      exact ⟨⟨n, rfl⟩, trivial⟩
    · exact Manager.collect_of_differ fits formed recorded live differ
    · exact Manager.forced_of_differ fits formed recorded live loose apart survives

/-- The record of the proxy in import slot 0 stops a repair, but a run in the forced mode that severs
slot 0 lets it have its way. -/
theorem restored_object_stale :
    let start := new "remote"
    let b := start.history staleRecord
    let incoming : IncomingGraph := { roots := [], edges := [] }
    let severed := (Manager.sever b.side (.of b.side incoming {})).state
    (∃ old a x, LastHeld (start.trail staleRecord ++ [severed] ++ [Manager.swept b.side incoming])
        ⟨0⟩ old a x ∧
      (x = ⟨0, 0⟩ ∨ a.Recorded ⟨0⟩ ⟨0, 0⟩ ∧
        start.ForcedAt (staleRecord ++ [.manage true {}]) old a)) ∧
      (∃ n, b.side.repairAll.answer = .error (.brokenSlot n)) ∧ b.side.repairAll.state = b.side := by
  have passing : ((new "remote").history staleRecord).passing (.manage true {}) =
      [(Manager.sever ((new "remote").history staleRecord).side
          (.of ((new "remote").history staleRecord).side { roots := [], edges := [] } {})).state,
        Manager.swept ((new "remote").history staleRecord).side { roots := [], edges := [] }] := by
    decide +kernel
  have recorded : ((new "remote").history staleRecord).side.heap.RecordOf ⟨2, 0⟩ ⟨0⟩ ⟨0, 0⟩ := by
    refine ⟨{ key := ⟨0⟩, record := some { keys := [⟨0⟩], objects := [⟨0, 0⟩] } }, _, ?_, rfl,
      List.mem_cons_self⟩
    decide +kernel
  have live : ((new "remote").history staleRecord).side.exports.entry? ⟨0⟩ =
      some (.live ⟨3, 0⟩) := by decide +kernel
  have first := (restored_object "remote" (staleRecord ++ [.manage true {}])).1
  have second := (restored_object "remote" staleRecord).2 ⟨2, 0⟩ ⟨0⟩ ⟨0, 0⟩ ⟨3, 0⟩ recorded live
    (by decide)
  dsimp only at first second ⊢
  refine ⟨first _ _ ((new "remote").history (staleRecord ++ [.manage true {}])).side [] ⟨0⟩ ⟨0, 0⟩
    ?_ ?_ ?_, second.2.1⟩
  · rw [trail_append, passing]
    simp
  · decide +kernel
  · decide +kernel

/-- The forced run severs slot 0 from the object it has gone to, and gives it the object of the record. -/
theorem other_object_restored :
    let b := (new "remote").history staleRecord
    let run := b.manager.collectGraph b.side true {}
    b.side.exports.entry? ⟨0⟩ = some (.live ⟨3, 0⟩) ∧
      (b.passing (.manage true {})).map (fun s => s.exports.entry? ⟨0⟩) =
        [some .detached, some .detached] ∧
      run.answer.toOption.isSome = true ∧
      run.state.2.exports.entry? ⟨0⟩ = some (.live ⟨0, 0⟩) := by
  decide +kernel

end Managed

end TwinHeap
