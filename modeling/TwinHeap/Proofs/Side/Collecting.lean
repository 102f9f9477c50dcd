import TwinHeap.Proofs.EdgeGraph.Exact
import TwinHeap.Proofs.Side.Filing

/-! What a run of the manager makes of the tables, whatever the side it starts from. Everything is
said in terms of the object that a slot has to offer before the run: the one it holds, or the one
that a record keeps for it. -/
namespace TwinHeap

namespace Side

/-- The entries of the records of all live proxies of the table. -/
def outstanding (s : Side) : List (ExportKey × ObjectId) :=
  s.liveProxies.flatMap fun p =>
    (((s.heap.proxy? p).bind Proxy.record).map RepairRecord.entries).getD []

/-- The object that a slot holds, or that a record keeps for it while it is detached. -/
def offer? (s : Side) (k : ExportKey) : Option ObjectId :=
  match s.exports.entry? k with
  | some (.live x) => some x
  | some .detached => Assoc.lookup k s.outstanding
  | _ => none

/-- An entry of a record names another object for the slot than it holds, or than another entry names
for it while it is detached. -/
def Contested (s : Side) (k : ExportKey) : Prop :=
  ∃ x y, (k, x) ∈ s.outstanding ∧ x ≠ y ∧ (s.exports.entry? k = some (.live y) ∨
    s.exports.entry? k = some .detached ∧ (k, y) ∈ s.outstanding)

variable {s s' : Side} {k : ExportKey} {x : ObjectId}

theorem mem_outstanding : (k, x) ∈ s.outstanding ↔ s.heap.RecordedBy s.liveProxies k x := by
  simp only [outstanding, List.mem_flatMap, Heap.RecordedBy]
  refine exists_congr fun p => and_congr_right fun _ => ?_
  constructor
  · intro member
    cases proxy : s.heap.proxy? p with
    | none => simp [proxy] at member
    | some q =>
        cases record : q.record with
        | none => simp [proxy, record] at member
        | some r => exact ⟨q, r, proxy, record, by simpa [proxy, record] using member⟩
  · rintro ⟨q, r, proxy, record, member⟩
    simpa [proxy, record] using member

/-- A repair can be planned exactly if no slot is contested. -/
theorem planRepair_ok_iff :
    (∃ plan, s.planRepair s.liveProxies = .ok plan) ↔ ∀ k, ¬ s.Contested k := by
  constructor
  · rintro ⟨plan, planned⟩ k ⟨x, y, member, differ, held⟩
    have plans := plans_of_planRepair planned
    have named := mem_outstanding.1 member
    rcases held with live | ⟨detached, other⟩
    · exact differ (plans.agree k x y named live).symm
    · have first := (plans.restores k x).2 ⟨detached, named⟩
      have second := (plans.restores k y).2 ⟨detached, mem_outstanding.1 other⟩
      exact differ (Option.some.inj (first.symm.trans second))
  · intro agreed
    cases planned : s.planRepair s.liveProxies with
    | ok plan => exact ⟨plan, rfl⟩
    | error f =>
        obtain ⟨k, x, y, named, differ, -, held⟩ := clash_of_planRepair planned
        refine (agreed k ⟨x, y, mem_outstanding.2 named, Ne.symm differ, held.imp_right ?_⟩).elim
        exact fun both => ⟨both.1, mem_outstanding.2 both.2⟩

theorem offer?_of_plans {plan : RepairPlan} (plans : s.Plans s.liveProxies plan) (k : ExportKey) :
    CollectionPlan.repaired? s plan k = s.offer? k := by
  have planned : s.exports.entry? k = some .detached →
      plan.restores.find? k = Assoc.lookup k s.outstanding := by
    intro detached
    cases found : plan.restores.find? k with
    | some x =>
        have named := ((plans.restores k x).1 found).2
        refine (Assoc.lookup_of_mem (mem_outstanding.2 named) fun y other => ?_).symm
        have also := (plans.restores k y).2 ⟨detached, mem_outstanding.1 other⟩
        exact Option.some.inj (also.symm.trans found)
    | none =>
        refine (Assoc.lookup_eq_none_iff.2 fun member => ?_).symm
        obtain ⟨⟨j, x⟩, listed, rfl⟩ := List.mem_map.1 member
        cases found.symm.trans ((plans.restores j x).2 ⟨detached, mem_outstanding.1 listed⟩)
  have unplanned : s.exports.entry? k ≠ some .detached → plan.restores.find? k = none := by
    intro other
    cases found : plan.restores.find? k with
    | none => rfl
    | some x => exact (other ((plans.restores k x).1 found).1).elim
  unfold CollectionPlan.repaired? offer? Exports.object?
  cases entry : s.exports.entry? k with
  | none => exact unplanned (by simp [entry])
  | some e =>
      cases e with
      | free => exact unplanned (by simp [entry])
      | detached => exact planned entry
      | live y => rfl

/-- The slots of a list that have an object to offer, each with that object. -/
def pledges (s : Side) (keys : List ExportKey) : List (ExportKey × ObjectId) :=
  CollectionPlan.holdings s.offer? keys

/-- The record that the proxy of an imported slot is given. It has an entry for each successor with
an object to offer, in the order of the graph. -/
def recordFor? (s : Side) (g : EdgeGraph) (i : ImportKey) : Option RepairRecord :=
  match s.pledges (((g.successors? i.across).getD []).map ImportKey.across) with
  | [] => none
  | e :: rest => some { keys := (e :: rest).map Prod.fst, objects := (e :: rest).map Prod.snd }

theorem recordOf_eq {repair : RepairPlan}
    (offers : ∀ k, CollectionPlan.repaired? s repair k = s.offer? k) (keys : List ExportKey) :
    CollectionPlan.recordOf s repair keys =
      { keys := (s.pledges keys).map Prod.fst, objects := (s.pledges keys).map Prod.snd } := by
  rw [CollectionPlan.recordOf_eq, funext offers]
  rfl

theorem attachRecord_of_bare {p : ObjectId} (r : RepairRecord)
    (bare : ∀ q, s.heap.proxy? p = some q → q.record = none) :
    (s.attachRecord p r).answer = .ok () ∧
      (s.attachRecord p r).state.heap = s.heap.setRecord p (some r) := by
  unfold attachRecord
  split
  · rename_i none
    refine ⟨rfl, ?_⟩
    unfold Heap.setRecord
    split
    · rename_i found
      rw [Heap.proxy?, found] at none
      cases none
    · rfl
  · rename_i q found
    rw [bare q found]
    exact ⟨rfl, rfl⟩

/-- Records are attached to proxies without one: each proxy of the list has its record, and the
others are as they were. -/
theorem attachRecords_of_bare {l : List (ObjectId × RepairRecord)} (nodup : (l.map Prod.fst).Nodup)
    (bare : ∀ e ∈ l, ∀ q, s.heap.proxy? e.1 = some q → q.record = none) :
    (s.attachRecords l).answer = .ok () ∧ s.heap.Recast (s.attachRecords l).state.heap ∧
      ∀ p, (s.attachRecords l).state.heap.proxy? p =
        match Assoc.lookup p l with
        | some r => (s.heap.proxy? p).map fun q => { q with record := some r }
        | none => s.heap.proxy? p := by
  induction l generalizing s with
  | nil => exact ⟨rfl, .refl s.heap, fun _ => rfl⟩
  | cons e l ih =>
      obtain ⟨p, r⟩ := e
      rw [List.map_cons, List.nodup_cons] at nodup
      obtain ⟨first, later⟩ := List.forall_mem_cons.1 bare
      obtain ⟨ok, heap⟩ := attachRecord_of_bare r first
      have proxy := Heap.proxy?_setRecord (h := s.heap) p (some r)
      rw [← heap] at proxy
      have still : ∀ e ∈ l, ∀ q, (s.attachRecord p r).state.heap.proxy? e.1 = some q →
          q.record = none := by
        intro e member q found
        rw [proxy, if_neg] at found
        · exact later e member q found
        · exact fun same => nodup.1 (same ▸ List.mem_map.2 ⟨e, member, rfl⟩)
      obtain ⟨okRest, recast, rest⟩ := ih nodup.2 still
      rw [attachRecords]
      simp only [ok]
      refine ⟨okRest, ?_, fun x => ?_⟩
      · exact (heap ▸ Heap.recast_setRecord s.heap p (some r)).trans recast
      · rw [rest, Assoc.lookup, proxy]
        by_cases same : p = x
        · subst same
          rw [Assoc.lookup_eq_none_iff.2 nodup.1, if_pos rfl, if_pos rfl]
        · rw [if_neg same, if_neg (Ne.symm same)]

/-- An object that a record keeps for a detached slot has no other slot, and is kept for none. -/
def Unshared (s : Side) : Prop :=
  ∀ j k x, s.exports.entry? k = some .detached → (k, x) ∈ s.outstanding →
    s.exports.entry? j = some (.live x) ∨
      s.exports.entry? j = some .detached ∧ (j, x) ∈ s.outstanding → j = k

theorem unshared_iff_entries : s.Unshared ↔
    ∀ e ∈ s.outstanding, s.exports.entry? e.1 = some .detached →
      (∀ d ∈ s.exports.liveObjects, d.2 = e.2 → d.1 = e.1) ∧
      ∀ d ∈ s.outstanding, d.2 = e.2 → s.exports.entry? d.1 = some .detached → d.1 = e.1 := by
  constructor
  · rintro unshared ⟨k, x⟩ kept detached
    refine ⟨?_, ?_⟩
    · rintro ⟨j, y⟩ live rfl
      exact unshared j k y detached kept (.inl (Exports.mem_liveObjects.1 live))
    · rintro ⟨j, y⟩ other rfl detached'
      exact unshared j k y detached kept (.inr ⟨detached', other⟩)
  · intro each j k x detached kept elsewhere
    obtain ⟨live, outstanding⟩ := each (k, x) kept detached
    rcases elsewhere with entry | ⟨detached', other⟩
    · exact live (j, x) (Exports.mem_liveObjects.2 entry) rfl
    · exact outstanding (j, x) other rfl detached'

instance (s : Side) : Decidable s.Unshared := decidable_of_iff _ unshared_iff_entries.symm

/-- What a run by the graph has made of `s`. -/
structure Collected (s : Side) (g : EdgeGraph) (s' : Side) : Prop where
  imports : s'.imports = s.imports
  heap : s.heap.Recast s'.heap
  size : s'.exports.size = s.exports.size
  entry : ∀ k, s'.exports.entry? k =
    match s.offer? k with
    | some x => if k.across ∈ g.root then some (.live x) else some .detached
    | none => s.exports.entry? k
  consistent : s'.exports.Consistent
  free : s'.exports.free = s.exports.quarantine ++ s.exports.free
  quarantine : s'.exports.quarantine = []
  note : ∀ x k, s'.exports.note? x = some k ↔ s.offer? k = some x ∧ k.across ∉ g.root
  overridden : s'.exports.overridden = true
  record : ∀ i p, s.imports.proxy? s.heap i = some p →
    s'.heap.proxy? p = (s.heap.proxy? p).map fun q => { q with record := s.recordFor? g i }
  others : ∀ p, (∀ i, s.imports.proxy? s.heap i ≠ some p) → s'.heap.proxy? p = s.heap.proxy? p

end Side

namespace CollectionPlan

variable {s : Side} {g : EdgeGraph} {repair : RepairPlan}

/-- The graph in the numbering of the side that receives it. -/
def crossed (g : EdgeGraph) : IncomingGraph where
  roots := g.root.map ImportKey.across
  edges := g.edges.entries.map fun e => (e.1.across, e.2.map ImportKey.across)

theorem mem_crossed_roots {k : ExportKey} : k ∈ (crossed g).roots ↔ k.across ∈ g.root := by
  constructor
  · intro member
    obtain ⟨j, root, rfl⟩ := List.mem_map.1 member
    exact root
  · exact fun root => List.mem_map.2 ⟨k.across, root, rfl⟩

theorem mem_crossed_edges {i : ImportKey} {ks : List ExportKey} : (i, ks) ∈ (crossed g).edges ↔
    ∃ js, g.successors? i.across = some js ∧ ks = js.map ImportKey.across := by
  constructor
  · intro member
    obtain ⟨⟨k, js⟩, edge, same⟩ := List.mem_map.1 member
    cases same
    exact ⟨js, Assoc.find?_eq_some_iff.2 edge, rfl⟩
  · rintro ⟨js, found, rfl⟩
    exact List.mem_map.2 ⟨(i.across, js), Assoc.find?_eq_some_iff.1 found, rfl⟩

/-- Each proxy is given one record at most. -/
theorem nodup_records (apart : EdgeGraph.Apart s.heap s.imports) :
    ((of s (crossed g) repair).records.map Prod.fst).Nodup := by
  have keys : (crossed g).edges.Pairwise fun d e => d.1 ≠ e.1 := by
    have nodup := g.edges.nodup
    rw [List.Nodup, List.pairwise_map] at nodup
    refine List.Pairwise.map _ (fun d e differ same => differ ?_) nodup
    exact congrArg ImportKey.across same
  obtain ⟨planned, records, owner⟩ : ∃ planned,
      (of s (crossed g) repair).records = (crossed g).edges.filterMap planned ∧
      ∀ e r, planned e = some r → s.imports.proxy? s.heap e.1 = some r.1 := by
    refine ⟨_, rfl, ?_⟩
    rintro ⟨i, ks⟩ r made
    dsimp only at made
    split at made
    · cases made
    · rename_i held
      split at made
      · cases made
      · cases made
        exact held
  rw [records, List.Nodup, List.pairwise_map]
  refine List.Pairwise.filterMap _ (fun d e differ => ?_) keys
  rintro ⟨p, r⟩ first ⟨q, r'⟩ second same
  cases same
  exact differ (apart d.1 e.1 p (owner d _ first) (owner e _ second))

/-- The planned record of the proxy in an imported slot. -/
theorem lookup_records (apart : EdgeGraph.Apart s.heap s.imports)
    (offers : ∀ k, repaired? s repair k = s.offer? k) {i : ImportKey} {p : ObjectId}
    (held : s.imports.proxy? s.heap i = some p) :
    Assoc.lookup p (of s (crossed g) repair).records = s.recordFor? g i := by
  have planned : ∀ r, (p, r) ∈ (of s (crossed g) repair).records ↔ s.recordFor? g i = some r := by
    intro r
    rw [mem_records_of]
    constructor
    · rintro ⟨i', ks, edge, held', rfl, full⟩
      cases apart i' i p held' held
      obtain ⟨js, found, rfl⟩ := mem_crossed_edges.1 edge
      rw [Side.recordOf_eq offers] at full ⊢
      simp only [Side.recordFor?, found, Option.getD_some]
      split
      · rename_i none
        simp [none] at full
      · rename_i some
        rw [some]
    · intro given
      unfold Side.recordFor? at given
      split at given
      · cases given
      · rename_i e rest pledged
        cases found : g.successors? i.across with
        | none => simp [found, Side.pledges, holdings] at pledged
        | some js =>
            rw [found, Option.getD_some] at pledged
            cases given
            refine ⟨i, _, mem_crossed_edges.2 ⟨js, found, rfl⟩, held, ?_, rfl⟩
            rw [Side.recordOf_eq offers, pledged]
  cases given : s.recordFor? g i with
  | some r =>
      refine Assoc.lookup_of_mem ((planned r).2 given) fun r' member => ?_
      exact Option.some.inj (((planned r').1 member).symm.trans given)
  | none =>
      refine Assoc.lookup_eq_none_iff.2 fun member => ?_
      obtain ⟨⟨q, r⟩, listed, rfl⟩ := List.mem_map.1 member
      cases given.symm.trans ((planned r).1 listed)

/-- Other objects are given none. -/
theorem lookup_records_of_unheld {g : IncomingGraph} {p : ObjectId}
    (unheld : ∀ i, s.imports.proxy? s.heap i ≠ some p) :
    Assoc.lookup p (of s g repair).records = none := by
  refine Assoc.lookup_eq_none_iff.2 fun member => ?_
  obtain ⟨⟨q, r⟩, planned, rfl⟩ := List.mem_map.1 member
  obtain ⟨i, -, -, held, -⟩ := mem_records_of.1 planned
  exact unheld i held

end CollectionPlan

namespace Manager

variable {s : Side} {g : EdgeGraph} {repair : RepairPlan}

theorem ofGraph_eq (g : EdgeGraph) (s : Side) :
    (g.InRange s.exports.size s.imports.size ∧
      IncomingGraph.ofGraph g s = .ok (CollectionPlan.crossed g)) ∨
    ¬ g.InRange s.exports.size s.imports.size ∧ ∃ f, IncomingGraph.ofGraph g s = .error f := by
  rw [← IncomingGraph.check_eq_ok_iff, IncomingGraph.ofGraph]
  cases IncomingGraph.check g s.exports.size s.imports.size with
  | error f => exact .inr ⟨nofun, _, rfl⟩
  | ok _ => exact .inl ⟨rfl, rfl⟩

/-- The repaired tables are consistent again. -/
theorem filed_repaired (consistent : s.exports.Consistent) (unshared : s.Unshared)
    (plans : s.Plans s.liveProxies repair) :
    (s.commitRepair repair).state.finishRepair.exports.Filed := by
  obtain ⟨ordered, filed⟩ := Exports.consistent_iff.1 consistent
  have planned : ∀ e ∈ repair.restores.entries, s.exports.entry? e.1 = some .detached ∧
      e ∈ s.outstanding := by
    intro e member
    have both := (plans.restores e.1 e.2).1 (Assoc.find?_eq_some_iff.2 member)
    exact ⟨both.1, Side.mem_outstanding.2 both.2⟩
  refine Exports.filed_finishRepair (Exports.filed_restoreAll filed
    (fun e member => (planned e member).1) repair.restores.nodup (fun e member => ?_) ?_)
  · obtain ⟨detached, kept⟩ := planned e member
    cases place : s.exports.keyOf? e.2 with
    | none => rfl
    | some j =>
        have live := (consistent.place e.2 j).1 place
        cases unshared j e.1 e.2 detached kept (.inl live)
        cases live.symm.trans detached
  · have nodup := repair.restores.nodup
    rw [List.Nodup, List.pairwise_map] at nodup ⊢
    refine nodup.imp_of_mem fun {d e} hd he differ same => differ ?_
    obtain ⟨j, x⟩ := d
    obtain ⟨k, y⟩ := e
    cases same
    exact unshared j k x (planned _ he).1 (planned _ he).2 (.inr (planned _ hd))

/-- After a repair no proxy of the table has a record. -/
theorem bare_repaired {s' : Side} (repairs : s.Repairs s.liveProxies s') {i : ImportKey}
    {p : ObjectId} (held : s.imports.proxy? s.heap i = some p) :
    s'.heap.proxy? p = (s.heap.proxy? p).map fun q => { q with record := none } := by
  rw [repairs.proxy, if_pos (Side.mem_liveProxies_iff_held.2 ⟨i, held⟩)]

/-- So there is room for the planned records. -/
theorem bare_records {s' : Side} {g : IncomingGraph} (repairs : s.Repairs s.liveProxies s') :
    ∀ e ∈ (CollectionPlan.of s g repair).records, ∀ q, s'.heap.proxy? e.1 = some q →
      q.record = none := by
  intro e member q found
  obtain ⟨i, ks, -, held, -⟩ := CollectionPlan.mem_records_of.1 member
  rw [bare_repaired repairs held] at found
  obtain ⟨q', -, rfl⟩ := Option.map_eq_some_iff.1 found
  rfl

/-- A severing of proxies without records gives each of them the record that is planned for it. -/
theorem sever_of_bare {plan : CollectionPlan} (nodup : (plan.records.map Prod.fst).Nodup)
    (bare : ∀ e ∈ plan.records, ∀ q, s.heap.proxy? e.1 = some q → q.record = none) :
    (sever s plan).answer = .ok () ∧ (sever s plan).state.imports = s.imports ∧
      s.heap.Recast (sever s plan).state.heap ∧
      ∀ p, (sever s plan).state.heap.proxy? p =
        match Assoc.lookup p plan.records with
        | some r => (s.heap.proxy? p).map fun q => { q with record := some r }
        | none => s.heap.proxy? p := by
  obtain ⟨ok, recast, proxy⟩ := Side.attachRecords_of_bare nodup bare
  have rest := congrArg Side.imports (s.rest_attachRecords plan.records)
  simp only [sever, ok]
  exact ⟨trivial, rest, recast, proxy⟩

section Slots

variable {t : Side} {plan : CollectionPlan} {k : ExportKey} {x : ObjectId}

/-- A slot with an object keeps it if the graph has the slot as a root. -/
theorem entry_sever_of_object (fits : CollectionPlan.Fits t (CollectionPlan.crossed g) plan)
    (holds : t.exports.object? k = some x) :
    Exports.entry? (t.exports.detachAll plan.unlink) k =
      if k.across ∈ g.root then some (.live x) else some .detached := by
  rcases Exports.detachAll_cases fits.live k with ⟨⟨y, member⟩, detached⟩ | ⟨unlisted, same⟩
  · have loose := ((fits.unlink k y).1 member).1
    rw [detached, if_neg fun root => loose (CollectionPlan.mem_crossed_roots.2 root)]
  · have root : k ∈ (CollectionPlan.crossed g).roots :=
      Decidable.byContradiction fun loose => unlisted x ((fits.unlink k x).2 ⟨loose, holds⟩)
    rw [same, if_pos (CollectionPlan.mem_crossed_roots.1 root)]
    exact Exports.object?_eq_some_iff.1 holds

/-- A slot that no repair gives an object is left alone. -/
theorem entry_sever_of_vacant (repairs : s.Repairs s.liveProxies t)
    (vacant : t.exports.object? k = none) :
    Exports.entry? (t.exports.detachAll plan.unlink) k = s.exports.entry? k := by
  rw [Exports.entry?_detachAll_of_object?_eq_none vacant]
  rcases repairs.entry k with ⟨x, -, -, live⟩ | ⟨same, -⟩
  · cases vacant.symm.trans (Exports.object?_eq_some_iff.2 live)
  · exact same

end Slots

/-- The records are attached and the slots are severed on the repaired side. -/
theorem collected_sever {t : Side} (apart : EdgeGraph.Apart s.heap s.imports)
    (ordered : s.exports.Ordered) (plans : s.Plans s.liveProxies repair)
    (repairs : s.Repairs s.liveProxies t) (filed : t.exports.Filed)
    (free : t.exports.free = s.exports.quarantine ++ s.exports.free)
    (quarantine : t.exports.quarantine = [])
    (fits : CollectionPlan.Fits t (CollectionPlan.crossed g)
      (.of s (CollectionPlan.crossed g) repair)) :
    let severed := sever t (.of s (CollectionPlan.crossed g) repair)
    severed.answer = .ok () ∧
      s.Collected g { severed.state with exports := severed.state.exports.override } := by
  dsimp only
  have offers := Side.offer?_of_plans plans
  have object : ∀ k, s.offer? k = t.exports.object? k :=
    fun k => (offers k).symm.trans (Side.repaired?_eq plans repairs k)
  obtain ⟨orderedNext, size⟩ := repairs.ordered ordered
  obtain ⟨ok, imports, recast, proxy⟩ := sever_of_bare (CollectionPlan.nodup_records apart)
    (bare_records repairs)
  have tables := Side.exports_sever ok
  have consistent := Exports.consistent_unlink orderedNext filed
    (CollectionPlan.of s (CollectionPlan.crossed g) repair).unlink
  have lists := t.exports.lists_detachAll
    (CollectionPlan.of s (CollectionPlan.crossed g) repair).unlink
  rw [← tables] at consistent
  refine ⟨ok, ⟨imports.trans repairs.imports, repairs.heap.trans recast, ?_, fun k => ?_,
    consistent, ?_, ?_, fun x k => ?_, rfl, fun i p held => ?_, fun p unheld => ?_⟩⟩
  · rw [tables]
    exact (Exports.ordered_detachAll orderedNext _).2.trans size
  · rw [tables]
    show Exports.entry? (t.exports.detachAll _) k = _
    rw [object]
    cases holds : t.exports.object? k with
    | some x => exact entry_sever_of_object fits holds
    | none => exact entry_sever_of_vacant repairs holds
  · rw [tables]
    exact lists.1.trans free
  · rw [tables]
    exact lists.2.trans quarantine
  · rw [object, ← CollectionPlan.mem_crossed_roots, and_comm, ← fits.unlink, tables]
    exact Exports.note?_unlink_iff fits.live filed
  · show (sever t _).state.heap.proxy? p = _
    rw [proxy, CollectionPlan.lookup_records apart offers held, bare_repaired repairs held]
    cases s.recordFor? g i <;> cases s.heap.proxy? p <;> rfl
  · have unlisted : p ∉ s.liveProxies := fun listed =>
      (Side.mem_liveProxies_iff_held.1 listed).elim unheld
    show (sever t _).state.heap.proxy? p = _
    rw [proxy, CollectionPlan.lookup_records_of_unheld unheld, repairs.proxy, if_neg unlisted]

/-- A run that is carried out after its repair could be planned. -/
theorem collected_carryOut (m : Manager) (g : EdgeGraph) (consistent : s.exports.Consistent)
    (apart : EdgeGraph.Apart s.heap s.imports) (unshared : s.Unshared)
    (planned : s.planRepair s.liveProxies = .ok repair) :
    (∃ report, (m.carryOut s (CollectionPlan.crossed g)
        (.of s (CollectionPlan.crossed g) repair)).answer = .ok report) ∧
      s.Collected g (m.carryOut s (CollectionPlan.crossed g)
        (.of s (CollectionPlan.crossed g) repair)).state.2 := by
  have ordered := (Exports.consistent_iff.1 consistent).1
  have plans := Side.plans_of_planRepair planned
  have lists := s.exports.lists_restoreAll repair.restores.entries
  obtain ⟨ok, collected⟩ := collected_sever (g := g) apart ordered plans
    (Side.repairs_commitRepair plans).finish (filed_repaired consistent unshared plans)
    (congr (congrArg _ lists.2) lists.1) rfl (fits_repaired ordered planned)
  have first : (CollectionPlan.of s (CollectionPlan.crossed g) repair).repair = repair := rfl
  simp only [carryOut, first, ok]
  exact ⟨⟨_, rfl⟩, collected⟩

/-- A run is carried out exactly if the graph names no slot that does not exist and no slot is
contested. Then each slot with an object to offer holds it if it is a root and has lost it if it is
not, and the records and the notes say which slots offered what. -/
theorem collect_spec (m : Manager) {s : Side} (g : EdgeGraph) (consistent : s.exports.Consistent)
    (apart : EdgeGraph.Apart s.heap s.imports) (unshared : s.Unshared) :
    ((∃ report, (m.collect s g).answer = .ok report) ↔
      g.InRange s.exports.size s.imports.size ∧ ∀ k, ¬ s.Contested k) ∧
    ∀ report, (m.collect s g).answer = .ok report → s.Collected g (m.collect s g).state.2 := by
  rw [← Side.planRepair_ok_iff]
  unfold collect
  rcases ofGraph_eq g s with ⟨inRange, read⟩ | ⟨outside, f, refused⟩
  · rw [read]
    cases planned : s.planRepair s.liveProxies with
    | error f => exact ⟨⟨nofun, fun both => nomatch both.2⟩, nofun⟩
    | ok repair =>
        obtain ⟨done, collected⟩ := collected_carryOut m g consistent apart unshared planned
        exact ⟨⟨fun _ => ⟨inRange, repair, rfl⟩, fun _ => done⟩, fun _ _ => collected⟩
  · rw [refused]
    exact ⟨⟨nofun, fun both => (outside both.1).elim⟩, nofun⟩

/-- Slot 0 is severed, with its object in the record of the proxy in slot 0 of the imports. Slot 1 is
live. -/
def recordedSide : Side :=
  ((Managed.new "remote").history
    [.mutate (.alloc .ordinary []), .mutate (.addRoot ⟨0, 0⟩), .share ⟨0, 0⟩, .proxyFor ⟨0⟩,
      .manage false (EdgeGraph.insert {} ⟨0⟩ [⟨0⟩]), .mutate (.alloc .ordinary []),
      .share ⟨2, 0⟩]).side

/-- Slot 0 is repaired and stays, slot 1 is severed, and the record keeps both. -/
theorem collect_spec_recorded :
    let g := ({ root := [⟨0⟩] : EdgeGraph }.insert ⟨0⟩ [⟨0⟩, ⟨1⟩])
    let run := Manager.collect {} recordedSide g
    recordedSide.exports.entry? ⟨0⟩ = some .detached ∧
    recordedSide.exports.entry? ⟨1⟩ = some (.live ⟨2, 0⟩) ∧
    (∃ report, run.answer = .ok report) ∧ recordedSide.Collected g run.state.2 ∧
    run.state.2.exports.entry? ⟨0⟩ = some (.live ⟨0, 0⟩) ∧
    run.state.2.exports.entry? ⟨1⟩ = some .detached ∧
    run.state.2.heap.proxy? ⟨1, 0⟩ = some
      { key := ⟨0⟩, record := some { keys := [⟨0⟩, ⟨1⟩], objects := [⟨0, 0⟩, ⟨2, 0⟩] } } := by
  dsimp only
  have consistent : recordedSide.exports.Consistent := by decide +kernel
  have apart : EdgeGraph.Apart recordedSide.heap recordedSide.imports :=
    EdgeGraph.apart_of_nodup (by decide +kernel)
  have unshared : recordedSide.Unshared := by decide +kernel
  obtain ⟨carried, collected⟩ := collect_spec {} ({ root := [⟨0⟩] : EdgeGraph }.insert ⟨0⟩ [⟨0⟩, ⟨1⟩])
    consistent apart unshared
  have planned : ∃ plan, recordedSide.planRepair recordedSide.liveProxies = .ok plan := by
    have some : (recordedSide.planRepair recordedSide.liveProxies).toOption.isSome = true := by
      decide +kernel
    cases plan : recordedSide.planRepair recordedSide.liveProxies with
    | ok repair => exact ⟨repair, rfl⟩
    | error f =>
        rw [plan] at some
        cases some
  obtain ⟨report, done⟩ := carried.2 ⟨by decide +kernel, Side.planRepair_ok_iff.1 planned⟩
  have collected := collected report done
  refine ⟨by decide +kernel, by decide +kernel, ⟨report, done⟩, collected, ?_, ?_, ?_⟩
  · exact (collected.entry ⟨0⟩).trans (by decide +kernel)
  · exact (collected.entry ⟨1⟩).trans (by decide +kernel)
  · exact (collected.record ⟨0⟩ ⟨1, 0⟩ (by decide +kernel)).trans (by decide +kernel)

end Manager

end TwinHeap
