import TwinHeap.Proofs.Side.Managing

/-! The two modes of the manager. On a side whose listed proxies have no records, a run in the forced
mode does what a run in the normal mode, a native collection and a repair do one after the other. -/
namespace TwinHeap

namespace Exports

/-- The slots of `t` with the lists of another table. No list is read when slots are severed or
restored, so that these changes go past it. -/
def relist (t lists : Exports) : Exports := { lists with rows := t.rows, places := t.places }

variable (t lists : Exports)

theorem detach_relist (k : ExportKey) :
    ((t.relist lists).detach k).2 = (t.detach k).2.relist lists := by
  have same : (t.relist lists).object? k = t.object? k := rfl
  unfold detach
  rw [same]
  cases t.object? k <;> rfl

theorem detachAll_relist (l : List (ExportKey × ObjectId)) :
    (t.relist lists).detachAll l = (t.detachAll l).relist lists := by
  induction l generalizing t with
  | nil => rfl
  | cons e l ih =>
      show ((t.relist lists).detach e.1).2.detachAll l = _
      rw [detach_relist, ih]
      rfl

theorem restoreAll_relist (l : List (ExportKey × ObjectId)) :
    (t.relist lists).restoreAll l = (t.restoreAll l).relist lists := by
  induction l generalizing t with
  | nil => rfl
  | cons e l ih => exact ih (t.restore e.1 e.2)

end Exports

namespace Side

def relist (s : Side) (lists : Exports) : Side := { s with exports := s.exports.relist lists }

variable (s : Side) (lists : Exports)

theorem attachRecord_relist (p : ObjectId) (r : RepairRecord) :
    (s.relist lists).attachRecord p r = (s.attachRecord p r).into fun s => s.relist lists := by
  have same : (s.relist lists).heap = s.heap := rfl
  unfold attachRecord
  rw [same]
  split
  · rfl
  · dsimp only
    split <;> rfl

theorem attachRecords_relist (l : List (ObjectId × RepairRecord)) :
    (s.relist lists).attachRecords l = (s.attachRecords l).into fun s => s.relist lists := by
  induction l generalizing s with
  | nil => rfl
  | cons e l ih =>
      have first := s.attachRecord_relist lists e.1 e.2
      rw [attachRecords, attachRecords, first]
      simp only [Outcome.into]
      split
      · rfl
      · exact ih _

theorem unlink_relist (l : List (ExportKey × ObjectId)) :
    (s.relist lists).unlink l =
      (s.unlink l).into fun s => s.relist (lists.setUnlinked (l.map fun e => (e.2, e.1))) := by
  have severed : (s.relist lists).exports.detachAll l = (s.exports.detachAll l).relist lists :=
    s.exports.detachAll_relist lists l
  unfold Exports.detachAll at severed
  unfold unlink
  rw [severed]
  rfl

theorem nativeCollect_relist :
    (s.relist lists).nativeCollect = s.nativeCollect.into fun s => s.relist lists := rfl

theorem commitRepair_relist (plan : RepairPlan) :
    (s.relist lists).commitRepair plan = (s.commitRepair plan).into fun s => s.relist lists := by
  have restored : (s.relist lists).exports.restoreAll plan.restores.entries =
      (s.exports.restoreAll plan.restores.entries).relist lists :=
    s.exports.restoreAll_relist lists plan.restores.entries
  unfold Exports.restoreAll at restored
  unfold commitRepair
  rw [restored]
  rfl

/-- Notes that are dropped and overrides that are taken back leave no trace. -/
theorem relist_finishRepair (s : Side) (lists : Exports) (lost : List (ObjectId × ExportKey)) :
    s.relist lists.finishRepair =
      { s.relist (lists.finishRepair.setUnlinked lost).override.finishRepair with
        exports :=
          { (s.relist (lists.finishRepair.setUnlinked lost).override.finishRepair).exports with
            overridden := lists.overridden } } := rfl

/-- A repair of all looks at the slots and the records, and then empties the lists. -/
theorem repairAll_relist {count : Nat} (ok : s.repairAll.answer = .ok count) :
    (s.relist lists).repairAll = s.repairAll.into fun s => s.relist lists.finishRepair := by
  have same : (s.relist lists).planRepair (s.relist lists).liveProxies =
      s.planRepair s.liveProxies := rfl
  unfold repairAll at ok ⊢
  rw [same]
  split at ok
  · cases ok
  · rw [commitRepair_relist]
    rfl

end Side

/-- The objects that a run severs, with the slots they lose. -/
def CollectionPlan.losses (plan : CollectionPlan) : List (ObjectId × ExportKey) :=
  plan.unlink.map fun e => (e.2, e.1)

theorem Manager.sever_relist {s : Side} {plan : CollectionPlan} (lists : Exports)
    (ok : (sever s plan).answer = .ok ()) :
    sever (s.relist lists) plan =
      (sever s plan).into fun s => s.relist (lists.setUnlinked plan.losses) := by
  unfold sever at ok ⊢
  rw [Side.attachRecords_relist]
  dsimp only [Outcome.into] at ok ⊢
  split at ok
  · cases ok
  · rw [Side.unlink_relist]
    rfl

/-- The records of the proxies in `ps` list slots with the objects that `holds` says they have. -/
def Heap.Truthful (h : Heap) (ps : List ObjectId) (holds : ExportKey → Option ObjectId) : Prop :=
  ∀ p ∈ ps, ∀ q r, h.proxy? p = some q → q.record = some r →
    r.Paired ∧ ∀ e ∈ r.entries, holds e.1 = some e.2

namespace Side

variable {s : Side} {ps : List ObjectId} {holds : ExportKey → Option ObjectId}

theorem truthful_setRecord {h : Heap} (truthful : h.Truthful ps holds) (p : ObjectId)
    {r : RepairRecord} (paired : r.Paired) (entries : ∀ e ∈ r.entries, holds e.1 = some e.2) :
    (h.setRecord p (some r)).Truthful ps holds := by
  intro x member q r' proxy record
  rw [Heap.proxy?_setRecord] at proxy
  split at proxy
  · obtain ⟨q', -, rfl⟩ := Option.map_eq_some_iff.1 proxy
    cases record
    exact ⟨paired, entries⟩
  · exact truthful x member q r' proxy record

theorem truthful_attachRecord (truthful : s.heap.Truthful ps holds) {p : ObjectId} (member : p ∈ ps)
    {r : RepairRecord} (paired : r.Paired) (entries : ∀ e ∈ r.entries, holds e.1 = some e.2) :
    (s.attachRecord p r).answer = .ok () ∧ (s.attachRecord p r).state.heap.Truthful ps holds := by
  unfold attachRecord
  cases found : s.heap.proxy? p with
  | none => exact ⟨rfl, truthful⟩
  | some q =>
      dsimp only
      cases record : q.record with
      | none => exact ⟨rfl, truthful_setRecord truthful p paired entries⟩
      | some old =>
          obtain ⟨oldPaired, oldEntries⟩ := truthful p member q old found record
          obtain ⟨merged, done, merges⟩ := RepairRecord.merges_merge oldPaired r.entries
          dsimp only
          rw [done]
          refine ⟨rfl, truthful_setRecord truthful p merges.paired fun e listed => ?_⟩
          exact (merges.source e listed).elim (oldEntries e) (entries e)

theorem recast_attachRecord (s : Side) (p : ObjectId) (r : RepairRecord) :
    s.heap.Recast (s.attachRecord p r).state.heap := by
  unfold attachRecord
  split
  · exact .refl s.heap
  · dsimp only
    split
    · exact Heap.recast_setRecord s.heap p _
    · exact Heap.recast_setRecord s.heap p _

theorem truthful_attachRecords (truthful : s.heap.Truthful ps holds)
    {l : List (ObjectId × RepairRecord)}
    (listed : ∀ p r, (p, r) ∈ l → p ∈ ps ∧ r.Paired ∧ ∀ e ∈ r.entries, holds e.1 = some e.2) :
    (s.attachRecords l).answer = .ok () ∧ (s.attachRecords l).state.heap.Truthful ps holds ∧
      s.heap.Recast (s.attachRecords l).state.heap := by
  induction l generalizing s with
  | nil => exact ⟨rfl, truthful, .refl s.heap⟩
  | cons e l ih =>
      obtain ⟨member, paired, entries⟩ := listed e.1 e.2 List.mem_cons_self
      obtain ⟨ok, first⟩ := truthful_attachRecord truthful member paired entries
      obtain ⟨okRest, rest, recast⟩ := ih first fun p r later =>
        listed p r (List.mem_cons_of_mem e later)
      rw [attachRecords]
      simp only [ok]
      exact ⟨okRest, rest, (s.recast_attachRecord e.1 e.2).trans recast⟩

/-- No live proxy of the import table has a record. -/
def Recordless (s : Side) : Prop := ∀ p ∈ s.liveProxies, (s.heap.proxy? p).bind Proxy.record = none

theorem Recordless.truthful (bare : s.Recordless) (holds : ExportKey → Option ObjectId) :
    s.heap.Truthful s.liveProxies holds := by
  intro p member q r proxy record
  have none := bare p member
  rw [proxy, Option.bind_some, record] at none
  cases none

theorem Recordless.planRepair (bare : s.Recordless) : s.planRepair s.liveProxies = .ok {} := by
  have all : ∀ ps : List ObjectId, (∀ p ∈ ps, (s.heap.proxy? p).bind Proxy.record = none) →
      ps.foldlM (RepairPlan.addProxy s.heap s.exports) {} = .ok {} := by
    intro ps
    induction ps with
    | nil => exact fun _ => rfl
    | cons p ps ih =>
        intro none
        have step : RepairPlan.addProxy s.heap s.exports {} p = .ok {} := by
          unfold RepairPlan.addProxy
          rw [none p List.mem_cons_self]
        rw [List.foldlM_cons, step]
        exact ih fun p member => none p (List.mem_cons_of_mem _ member)
  exact all s.liveProxies bare

/-- Severing a side without listed records goes through, and what it writes down is true. -/
theorem Recordless.sever (bare : s.Recordless) (g : IncomingGraph) :
    (Manager.sever s (.of s g {})).answer = .ok () ∧
      (Manager.sever s (.of s g {})).state.heap.Truthful s.liveProxies s.exports.object? ∧
      s.heap.Recast (Manager.sever s (.of s g {})).state.heap := by
  have fits := Manager.fits_unrepaired s g
  obtain ⟨ok, truthful, recast⟩ := truthful_attachRecords (bare.truthful s.exports.object?)
    (l := (CollectionPlan.of s g {}).records) fun p r member => by
      exact ⟨mem_liveProxies_iff_held.2 (fits.owner p r member), fits.paired p r member,
        fun e listed => (fits.sound p r e.1 e.2 member listed).1⟩
  unfold Manager.sever
  simp only [ok]
  exact ⟨trivial, truthful, recast⟩

theorem imports_sever (s : Side) (plan : CollectionPlan) :
    (Manager.sever s plan).state.imports = s.imports := by
  have rest := s.rest_attachRecords plan.records
  unfold Manager.sever
  dsimp only
  split
  · rw [rest]
  · show (s.attachRecords plan.records).state.imports = s.imports
    rw [rest]

/-- What was written down before the sweep can be applied after it: a slot that is not severed holds
what it held, and a severed one is named with what it held only. -/
theorem Recordless.planRepair_swept (bare : s.Recordless) (g : IncomingGraph) :
    ∃ repair, (Manager.swept s g).planRepair (Manager.swept s g).liveProxies = .ok repair := by
  obtain ⟨ok, truthful, recast⟩ := bare.sever g
  have named : ∀ {k x}, (Manager.swept s g).heap.RecordedBy (Manager.swept s g).liveProxies k x →
      s.exports.object? k = some x := by
    rintro k x ⟨p, member, q, r, proxy, record, entry⟩
    have before := Heap.proxy?_of_sweep proxy
    obtain ⟨j, weak, -⟩ := mem_liveProxies.1 member
    have listed : p ∈ s.liveProxies := by
      refine mem_liveProxies.2 ⟨j, ?_, recast.isAlive p ▸ Heap.isAlive_of_proxy? before⟩
      rw [← imports_sever s (.of s g {})]
      exact weak
    exact (truthful p listed q r before record).2 (k, x) entry
  have entry : ∀ k y, (Manager.swept s g).exports.entry? k = some (.live y) →
      s.exports.object? k = some y := by
    intro k y live
    have tables : (Manager.swept s g).exports = _ := exports_sever ok
    rw [tables] at live
    have severed := (Exports.entry?_detachAll s.exports _ k).symm.trans live
    split at severed
    · cases severed
    · exact Exports.object?_eq_some_iff.2 severed
  cases planned : (Manager.swept s g).planRepair (Manager.swept s g).liveProxies with
  | ok repair => exact ⟨repair, rfl⟩
  | error f =>
      obtain ⟨k, x, y, asked, differ, -, live | ⟨-, other⟩⟩ := clash_of_planRepair planned
      · exact (differ (Option.some.inj ((entry k y live).symm.trans (named asked)))).elim
      · exact (differ (Option.some.inj ((named other).symm.trans (named asked)))).elim

end Side

namespace Manager

variable {s : Side}

/-- A run in the normal mode only severs where there is nothing to repair; its lists are emptied
first, and it leaves the overrides installed. -/
theorem collect_of_recordless (m : Manager) {g : EdgeGraph} {incoming : IncomingGraph}
    (bare : s.Recordless) (fits : IncomingGraph.ofGraph g s = .ok incoming) :
    let plan := CollectionPlan.of s incoming {}
    ∃ report, (m.collect s g).answer = .ok report ∧
      report.roots = incoming.roots.length ∧ report.records = plan.records.length ∧
      report.unlinked = plan.unlink.length ∧
      (m.collect s g).state = ({ cycles := m.cycles + 1 },
        (sever s plan).state.relist (s.exports.finishRepair.setUnlinked plan.losses).override) := by
  dsimp only
  have ok := (bare.sever incoming).1
  have start : (s.commitRepair {}).state.finishRepair = s.relist s.exports.finishRepair := rfl
  have severed := sever_relist s.exports.finishRepair ok
  rw [collect, fits]
  dsimp only
  rw [bare.planRepair]
  dsimp only
  rw [carryOut, show (CollectionPlan.of s incoming {}).repair = {} from rfl, start, severed]
  simp only [Outcome.into, ok, finish]
  exact ⟨_, rfl, rfl, rfl, rfl, rfl⟩

/-- A run in the forced mode goes through, and repairs what is left after the sweep. -/
theorem collectForced_of_recordless (m : Manager) {g : EdgeGraph} {incoming : IncomingGraph}
    (bare : s.Recordless) (fits : IncomingGraph.ofGraph g s = .ok incoming) :
    let plan := CollectionPlan.of s incoming {}
    ∃ count, (swept s incoming).repairAll.answer = .ok count ∧
      (m.collectForced s g).answer = .ok
        { roots := incoming.roots.length
          records := plan.records.length
          unlinked := plan.unlink.length
          repaired := count
          native := some (sever s plan).state.nativeCollect.answer
          phases := [.rootMark, .livenessCheck, .unlink, .nativeGc, .repair] } ∧
      (m.collectForced s g).state = ({ cycles := m.cycles + 1 }, (swept s incoming).repairAll.state) := by
  dsimp only
  have ok := (bare.sever incoming).1
  obtain ⟨repair, planned⟩ := bare.planRepair_swept incoming
  have repaired : (swept s incoming).repairAll.answer =
      .ok ((swept s incoming).commitRepair repair).answer := by
    simp only [Side.repairAll, planned]
  refine ⟨_, repaired, ?_⟩
  unfold swept at repaired ⊢
  simp only [collectForced, fits, forceNative, ok, repaired, finish]
  exact ⟨trivial, trivial⟩

/-- The lists that a run in the forced mode leaves. -/
theorem repaired_relist (bare : s.Recordless) (g : IncomingGraph) {count : Nat}
    (repaired : (swept s g).repairAll.answer = .ok count) :
    (swept s g).repairAll.state = (swept s g).repairAll.state.relist s.exports.finishRepair := by
  have severed := sever_relist s.exports (bare.sever g).1
  have kept : swept s g =
      (swept s g).relist (s.exports.setUnlinked (CollectionPlan.of s g {}).losses) :=
    congrArg (fun r => r.state.nativeCollect.state) severed
  have again := (swept s g).repairAll_relist
    (s.exports.setUnlinked (CollectionPlan.of s g {}).losses) repaired
  rw [← kept] at again
  have same := congrArg Outcome.state again
  exact same

/-- Where no live proxy of the import table has a record, a run in the forced mode fails only as one in
the normal mode does on a graph that is out of range. Else it is a run in the normal mode with a native
collection and a repair after it, but for the overrides, which it does not install, and the phases. -/
theorem forced_run_splits (m : Manager) (s : Side) (g : EdgeGraph)
    (bare : ∀ p ∈ s.liveProxies, (s.heap.proxy? p).bind Proxy.record = none) :
    let plain := m.collect s g
    let forced := m.collectForced s g
    (∀ f, forced.answer = .error f ↔ plain.answer = .error f ∧ ∃ cause, f = .graph cause) ∧
    (∀ f, forced.answer = .error f → plain.state = (m, s) ∧ forced.state = (m, s)) ∧
    ((∀ cause, plain.answer ≠ .error (.graph cause)) →
      let native := plain.state.2.nativeCollect
      let repaired := native.state.repairAll
      ∃ report count, plain.answer = .ok report ∧ repaired.answer = .ok count ∧
        forced.answer = .ok
          { roots := report.roots
            records := report.records
            unlinked := report.unlinked
            repaired := count
            native := some native.answer
            phases := [.rootMark, .livenessCheck, .unlink, .nativeGc, .repair] } ∧
        forced.state = (plain.state.1, { repaired.state with
          exports := { repaired.state.exports with overridden := s.exports.overridden } })) := by
  have bare : s.Recordless := bare
  dsimp only
  cases fits : IncomingGraph.ofGraph g s with
  | error f =>
      have fault : ∃ cause, f = .graph cause := by
        unfold IncomingGraph.ofGraph at fits
        split at fits
        · cases fits
          exact ⟨_, rfl⟩
        · cases fits
      have plain : m.collect s g = { state := (m, s), answer := .error f } := by
        simp only [collect, fits]
      have forced : m.collectForced s g = { state := (m, s), answer := .error f } := by
        simp only [collectForced, fits]
      rw [plain, forced]
      refine ⟨fun f' => ⟨fun same => ?_, And.left⟩, fun _ _ => ⟨rfl, rfl⟩, fun other => ?_⟩
      · cases same
        exact ⟨rfl, fault⟩
      · obtain ⟨cause, rfl⟩ := fault
        exact (other cause rfl).elim
  | ok incoming =>
      obtain ⟨report, done, roots, records, unlinked, state⟩ := m.collect_of_recordless bare fits
      obtain ⟨count, repaired, answer, forced⟩ := m.collectForced_of_recordless bare fits
      have native := congrArg Outcome.state
        (Side.nativeCollect_relist (sever s (.of s incoming {})).state
          (s.exports.finishRepair.setUnlinked (CollectionPlan.of s incoming {}).losses).override)
      have repairs := (swept s incoming).repairAll_relist
        (s.exports.finishRepair.setUnlinked (CollectionPlan.of s incoming {}).losses).override repaired
      dsimp only [Outcome.into] at native repairs
      rw [← swept] at native
      refine ⟨fun f => ?_, fun f failed => ?_, fun _ => ⟨report, count, done, ?_, ?_, ?_⟩⟩
      · rw [answer, done]
        constructor
        · intro same
          cases same
        · intro both
          cases both.1
      · cases answer.symm.trans failed
      · rw [state]
        dsimp only
        rw [native, repairs]
        exact repaired
      · rw [answer, state, roots, records, unlinked]
        rfl
      · rw [forced, state]
        dsimp only
        rw [native, repairs]
        dsimp only
        rw [← Side.relist_finishRepair, ← repaired_relist bare incoming repaired]

/-- Slot 0 is in quarantine, slot 1 is a root, and slot 2 is severed and comes back by the record of the
proxy. -/
def quarantinedSide : Side :=
  ((Managed.new "remote").history
    [.mutate (.alloc .ordinary []), .mutate (.addRoot ⟨0, 0⟩), .share ⟨0, 0⟩, .manage false {},
      .release [⟨0⟩], .mutate (.alloc .ordinary []), .share ⟨1, 0⟩, .proxyFor ⟨0⟩,
      .mutate (.addRoot ⟨2, 0⟩), .mutate (.alloc .ordinary []), .share ⟨3, 0⟩,
      .mutate (.alloc .ordinary [])]).side

theorem forced_run_splits_record :
    let g := ({ root := [⟨1⟩] : EdgeGraph }.insert ⟨0⟩ [⟨2⟩])
    let m : Manager := { cycles := 1 }
    let plain := m.collect quarantinedSide g
    let forced := m.collectForced quarantinedSide g
    let repaired := plain.state.2.nativeCollect.state.repairAll
    (∀ p ∈ quarantinedSide.liveProxies,
      (quarantinedSide.heap.proxy? p).bind Proxy.record = none) ∧
    quarantinedSide.exports.quarantine = [⟨0⟩] ∧
    forced.answer.toOption = some
      { roots := 1, records := 1, unlinked := 1, repaired := 1, native := some ⟨4, 1⟩
        phases := [.rootMark, .livenessCheck, .unlink, .nativeGc, .repair] } ∧
    forced.state = (plain.state.1, { repaired.state with
      exports := { repaired.state.exports with
        overridden := quarantinedSide.exports.overridden } }) ∧
    repaired.state.exports.entry? ⟨2⟩ = some (.live ⟨3, 0⟩) := by
  dsimp only
  have bare : ∀ p ∈ quarantinedSide.liveProxies,
      (quarantinedSide.heap.proxy? p).bind Proxy.record = none := by decide +kernel
  have same := forced_run_splits { cycles := 1 } quarantinedSide
    ({ root := [⟨1⟩] : EdgeGraph }.insert ⟨0⟩ [⟨2⟩]) bare
  obtain ⟨report, count, done, repaired, answer, state⟩ := same.2.2 fun cause refused => by
    have done : (Manager.collect { cycles := 1 } quarantinedSide
        ({ root := [⟨1⟩] : EdgeGraph }.insert ⟨0⟩ [⟨2⟩])).answer.toOption.isSome = true := by
      decide +kernel
    rw [refused] at done
    cases done
  refine ⟨bare, by decide +kernel, by decide +kernel, state, ?_⟩
  decide +kernel

end Manager

end TwinHeap
