import TwinHeap.Proofs.Side.Recording

/-! What a severing leaves with the proxies, and which slots it takes. -/
namespace TwinHeap

namespace CollectionPlan

/-- The keys that hold an object, each with its object. -/
def holdings (holds : ExportKey → Option ObjectId) (keys : List ExportKey) :
    List (ExportKey × ObjectId) :=
  keys.filterMap fun k => (holds k).map fun x => (k, x)

theorem mem_holdings {holds : ExportKey → Option ObjectId} {keys : List ExportKey} {k : ExportKey}
    {x : ObjectId} : (k, x) ∈ holdings holds keys ↔ k ∈ keys ∧ holds k = some x := by
  simp only [holdings, List.mem_filterMap, Option.map_eq_some_iff, Prod.mk.injEq]
  constructor
  · rintro ⟨j, member, y, held, rfl, rfl⟩
    exact ⟨member, held⟩
  · rintro ⟨member, held⟩
    exact ⟨k, member, x, held, rfl, rfl⟩

/-- A record is filled with one key after another, as far as they hold an object. -/
theorem foldl_push_eq {step : RepairRecord → ExportKey → RepairRecord}
    {holds : ExportKey → Option ObjectId}
    (found : ∀ r k x, holds k = some x → step r k = r.push k x)
    (missing : ∀ r k, holds k = none → step r k = r) (keys : List ExportKey) (r : RepairRecord) :
    keys.foldl step r =
      { keys := r.keys ++ (holdings holds keys).map Prod.fst
        objects := r.objects ++ (holdings holds keys).map Prod.snd } := by
  induction keys generalizing r with
  | nil => simp [holdings]
  | cons k keys ih =>
      rw [List.foldl_cons, ih]
      cases held : holds k with
      | none => simp [holdings, held, missing r k held]
      | some x => simp [holdings, held, found r k x held, RepairRecord.push]

theorem recordOf_eq (s : Side) (repair : RepairPlan) (keys : List ExportKey) :
    recordOf s repair keys =
      { keys := (holdings (repaired? s repair) keys).map Prod.fst
        objects := (holdings (repaired? s repair) keys).map Prod.snd } :=
  foldl_push_eq (fun r k x held => by simp only [held]) (fun r k none => by simp only [none]) keys {}

theorem recordOf_spec (s : Side) (repair : RepairPlan) (keys : List ExportKey) :
    (recordOf s repair keys).Paired ∧ ∀ e, e ∈ (recordOf s repair keys).entries ↔
      e.1 ∈ keys ∧ repaired? s repair e.1 = some e.2 := by
  rw [recordOf_eq]
  refine ⟨by simp only [RepairRecord.Paired, List.length_map], fun e => ?_⟩
  rw [RepairRecord.entries, List.zip_map', List.map_id']
  exact mem_holdings

theorem contains_rootMarks (keys : List ExportKey) (marks : SlotSet) (k : ExportKey) :
    (keys.foldl (fun m k => m.insert k.number) marks).contains k.number = true ↔
      k ∈ keys ∨ marks.contains k.number = true := by
  induction keys generalizing marks with
  | nil => simp
  | cons j keys ih =>
      rw [List.foldl_cons, ih, SlotSet.contains_insert, Bool.or_eq_true, decide_eq_true_eq,
        List.mem_cons]
      have same : j.number = k.number ↔ k = j :=
        ⟨fun e => by cases j; cases k; exact congrArg ExportKey.mk e.symm, fun e => by rw [e]⟩
      rw [same]
      exact or_left_comm.trans (or_assoc).symm

/-- The plan says of the tables of `s` what the graph asks for. -/
structure Fits (s : Side) (g : IncomingGraph) (plan : CollectionPlan) : Prop where
  paired : ∀ p r, (p, r) ∈ plan.records → r.Paired
  owner : ∀ p r, (p, r) ∈ plan.records → ∃ i, s.imports.proxy? s.heap i = some p
  sound : ∀ p r k x, (p, r) ∈ plan.records → (k, x) ∈ r.entries →
    s.exports.object? k = some x ∧
      ∃ i ks, (i, ks) ∈ g.edges ∧ s.imports.proxy? s.heap i = some p ∧ k ∈ ks
  complete : ∀ p k x i ks, (i, ks) ∈ g.edges → s.imports.proxy? s.heap i = some p → k ∈ ks →
    s.exports.object? k = some x → ∃ r, (p, r) ∈ plan.records ∧ (k, x) ∈ r.entries
  unlink : ∀ k x, (k, x) ∈ plan.unlink ↔ k ∉ g.roots ∧ s.exports.object? k = some x

/-- The planned slots are live. -/
theorem Fits.live {s : Side} {g : IncomingGraph} {plan : CollectionPlan} (fits : Fits s g plan)
    (k : ExportKey) (x : ObjectId) (member : (k, x) ∈ plan.unlink) :
    s.exports.entry? k = some (.live x) :=
  Exports.object?_eq_some_iff.1 ((fits.unlink k x).1 member).2

section Of

variable {s before : Side} {repair : RepairPlan} {g : IncomingGraph}

theorem mem_records_of {p : ObjectId} {r : RepairRecord} :
    (p, r) ∈ (CollectionPlan.of before g repair).records ↔
      ∃ i ks, (i, ks) ∈ g.edges ∧ before.imports.proxy? before.heap i = some p ∧
        r = recordOf before repair ks ∧ r.keys.isEmpty = false := by
  simp only [CollectionPlan.of, List.mem_filterMap, Prod.exists]
  constructor
  · rintro ⟨i, ks, edge, found⟩
    cases held : before.imports.proxy? before.heap i with
    | none =>
        rw [held] at found
        cases found
    | some q =>
        rw [held] at found
        dsimp only at found
        split at found
        · cases found
        · rename_i full
          cases found
          exact ⟨i, ks, edge, held, rfl, Bool.eq_false_iff.2 full⟩
  · rintro ⟨i, ks, edge, held, rfl, full⟩
    exact ⟨i, ks, edge, by simp [held, full]⟩

theorem mem_unlink_of {k : ExportKey} {x : ObjectId} :
    (k, x) ∈ (CollectionPlan.of before g repair).unlink ↔
      k.number < before.exports.size ∧ k ∉ g.roots ∧ repaired? before repair k = some x := by
  have marked := contains_rootMarks g.roots (SlotSet.withRoom before.exports.size) k
  rw [SlotSet.contains_withRoom, or_iff_left Bool.false_ne_true] at marked
  simp only [CollectionPlan.of, List.mem_filterMap]
  constructor
  · rintro ⟨j, member, found⟩
    split at found
    · cases found
    · rename_i unmarked
      obtain ⟨y, holds, same⟩ := Option.map_eq_some_iff.1 found
      cases same
      exact ⟨of_decide_eq_true (Rows.mem_keys.1 member), fun root => unmarked (marked.2 root), holds⟩
  · rintro ⟨below, loose, holds⟩
    refine ⟨k, Rows.mem_keys.2 (decide_eq_true below), ?_⟩
    rw [if_neg (fun mark => loose (marked.1 mark)), holds]
    rfl

/-- A plan can be made before the repair that it counts on. -/
theorem fits_of (g : IncomingGraph)
    (object : ∀ k, repaired? before repair k = s.exports.object? k)
    (imports : s.imports = before.imports) (alive : ∀ x, s.heap.isAlive x = before.heap.isAlive x)
    (size : s.exports.size = before.exports.size) : Fits s g (.of before g repair) := by
  have proxy : ∀ i, before.imports.proxy? before.heap i = s.imports.proxy? s.heap i := by
    intro i
    unfold Imports.proxy?
    rw [imports]
    split
    · rw [alive]
    · rfl
  refine ⟨?_, ?_, ?_, ?_, ?_⟩
  · intro p r member
    obtain ⟨i, ks, edge, held, rfl, full⟩ := mem_records_of.1 member
    exact (recordOf_spec before repair ks).1
  · intro p r member
    obtain ⟨i, ks, edge, held, -⟩ := mem_records_of.1 member
    exact ⟨i, (proxy i).symm.trans held⟩
  · intro p r k x member entry
    obtain ⟨i, ks, edge, held, rfl, full⟩ := mem_records_of.1 member
    have both := ((recordOf_spec before repair ks).2 (k, x)).1 entry
    exact ⟨object k ▸ both.2, i, ks, edge, (proxy i).symm.trans held, both.1⟩
  · intro p k x i ks edge held member holds
    have entry := ((recordOf_spec before repair ks).2 (k, x)).2 ⟨member, (object k).trans holds⟩
    have listed : k ∈ (recordOf before repair ks).keys := (List.of_mem_zip entry).1
    refine ⟨recordOf before repair ks, mem_records_of.2 ⟨i, ks, edge, (proxy i).trans held, rfl, ?_⟩,
      entry⟩
    exact List.isEmpty_eq_false_iff.2 (List.ne_nil_of_mem listed)
  · intro k x
    rw [mem_unlink_of, object]
    refine ⟨And.right, fun both => ⟨?_, both⟩⟩
    exact Nat.lt_of_lt_of_eq (Exports.lt_size_of_entry? (Exports.object?_eq_some_iff.1 both.2)) size

end Of

end CollectionPlan

namespace Side

variable {s s' : Side}

/-- The graph leads from the slot that `p` stands for to the slot `k`. -/
def Leads (s : Side) (g : IncomingGraph) (p : ObjectId) (k : ExportKey) : Prop :=
  ∃ i ks, (i, ks) ∈ g.edges ∧ s.imports.proxy? s.heap i = some p ∧ k ∈ ks

/-- The graph has been carried out on `s`, which made it `s'`. Records of `s` stay, but for slots that
the graph leads their proxies to. -/
structure Cut (s : Side) (g : IncomingGraph) (s' : Side) : Prop where
  heap : s.heap.Recast s'.heap
  paired : s'.heap.PairedRecords
  source : ∀ p k x, s'.heap.RecordOf p k x → s.heap.RecordOf p k x ∨
    (s.heap.proxy? p).isSome = true ∧ s.exports.object? k = some x ∧ s.Leads g p k
  written : ∀ p k x, (s.heap.proxy? p).isSome = true → s.exports.object? k = some x →
    s.Leads g p k → s'.heap.RecordOf p k x
  kept : ∀ p k x, s.heap.RecordOf p k x →
    (s.Leads g p k → ∀ y, s.exports.object? k = some y → y = x) → s'.heap.RecordOf p k x
  owner : ∀ p, s'.heap.HasRecord p →
    s.heap.HasRecord p ∨ ∃ i, s.imports.proxy? s.heap i = some p
  imports : s'.imports = s.imports
  entry : ∀ k, s'.exports.entry? k =
    if k ∉ g.roots ∧ (s.exports.object? k).isSome = true then some .detached
    else s.exports.entry? k
  note : ∀ x k, s'.exports.note? x = some k → k ∉ g.roots ∧ s.exports.object? k = some x
  ordered : s.exports.Ordered → s'.exports.Ordered ∧ s'.exports.size = s.exports.size

/-- The graph has been carried out on a side without records. -/
structure Severed (s : Side) (g : IncomingGraph) (s' : Side) : Prop where
  heap : s.heap.Recast s'.heap
  record : ∀ p k x, s'.heap.RecordOf p k x ↔
    (s.heap.proxy? p).isSome = true ∧ s.exports.object? k = some x ∧
      ∃ i ks, (i, ks) ∈ g.edges ∧ s.imports.proxy? s.heap i = some p ∧ k ∈ ks
  paired : ∀ p q r, s'.heap.proxy? p = some q → q.record = some r → r.Paired
  imports : s'.imports = s.imports
  entry : ∀ k, s'.exports.entry? k =
    if k ∉ g.roots ∧ (s.exports.object? k).isSome = true then some .detached
    else s.exports.entry? k
  note : ∀ x k, s'.exports.note? x = some k → k ∉ g.roots ∧ s.exports.object? k = some x
  ordered : s.exports.Ordered → s'.exports.Ordered ∧ s'.exports.size = s.exports.size

theorem Cut.severed {g : IncomingGraph} (cut : s.Cut g s') (bare : s.Unrecorded) :
    s.Severed g s' where
  heap := cut.heap
  record := fun p k x => by
    constructor
    · exact fun recorded => (cut.source p k x recorded).resolve_left bare.not_recordOf
    · exact fun ⟨alive, holds, leads⟩ => cut.written p k x alive holds leads
  paired := cut.paired
  imports := cut.imports
  entry := cut.entry
  note := cut.note
  ordered := cut.ordered

/-- The planned slots are severed, and noted with what they held. -/
theorem exports_sever {plan : CollectionPlan} (ok : (Manager.sever s plan).answer = .ok ()) :
    (Manager.sever s plan).state.exports =
      (s.exports.detachAll plan.unlink).setUnlinked (plan.unlink.map fun e => (e.2, e.1)) := by
  have rest := s.rest_attachRecords plan.records
  unfold Manager.sever at ok ⊢
  dsimp only at ok ⊢
  split at ok
  · cases ok
  · rw [rest]
    rfl

theorem cut_sever {g : IncomingGraph} {plan : CollectionPlan} (paired : s.heap.PairedRecords)
    (fits : CollectionPlan.Fits s g plan) :
    (Manager.sever s plan).answer = .ok () ∧ s.Cut g (Manager.sever s plan).state := by
  obtain ⟨ok, attached⟩ := attached_attachRecords paired plan.records
    fun e member => fits.paired e.1 e.2 member
  have imports : (s.attachRecords plan.records).state.imports = s.imports := by rw [attached.rest]
  have tables : (Manager.sever s plan).state.exports = _ :=
    exports_sever (by simp only [Manager.sever, ok])
  have sound : ∀ {p k x}, Listed plan.records p k x →
      s.exports.object? k = some x ∧ s.Leads g p k := by
    rintro p k x ⟨r, member, entry⟩
    exact fits.sound p r k x member entry
  unfold Manager.sever at tables ⊢
  simp only [ok] at tables ⊢
  refine ⟨trivial, attached.heap, attached.paired, fun p k x recorded => ?_,
    fun p k x alive holds leads => ?_, fun p k x recorded agree => ?_, fun p has => ?_, imports,
    fun k => ?_, fun x k noted => ?_, fun ordered => ?_⟩
  · exact (attached.source p k x recorded).imp_right fun now => ⟨now.1, sound now.2⟩
  · obtain ⟨i, ks, edge, held, member⟩ := leads
    refine attached.kept p k x (.inr ⟨alive, fits.complete p k x i ks edge held member holds⟩) ?_
    exact fun y listed => Option.some.inj ((sound listed).1.symm.trans holds)
  · refine attached.kept p k x (.inl recorded) fun y listed => ?_
    exact agree (sound listed).2 y (sound listed).1
  · exact (attached.owner p has).imp_right fun ⟨r, member⟩ => fits.owner p r member
  · have entry := Exports.entry?_detachAll s.exports plan.unlink k
    rw [tables]
    apply entry.trans
    refine ite_congr (propext ?_) (fun _ => rfl) fun _ => rfl
    rw [List.mem_map]
    constructor
    · rintro ⟨⟨e, member, rfl⟩, holds⟩
      exact ⟨((fits.unlink e.1 e.2).1 member).1, holds⟩
    · rintro ⟨loose, holds⟩
      obtain ⟨x, object⟩ := Option.isSome_iff_exists.1 holds
      exact ⟨⟨(k, x), (fits.unlink k x).2 ⟨loose, object⟩, rfl⟩, holds⟩
  · rw [tables] at noted
    obtain ⟨e, member, same⟩ := List.mem_map.1 (Exports.mem_of_note?_setUnlinked noted)
    cases same
    exact (fits.unlink e.1 e.2).1 member
  · rw [tables]
    have kept := Exports.ordered_detachAll ordered plan.unlink
    exact ⟨Exports.ordered_setUnlinked kept.1 _, kept.2⟩

theorem severed_sever {g : IncomingGraph} {plan : CollectionPlan} (bare : s.Unrecorded)
    (fits : CollectionPlan.Fits s g plan) :
    (Manager.sever s plan).answer = .ok () ∧ s.Severed g (Manager.sever s plan).state := by
  obtain ⟨ok, cut⟩ := cut_sever bare.pairedRecords fits
  exact ⟨ok, cut.severed bare⟩

end Side

end TwinHeap
