import TwinHeap.Proofs.Side.Collecting
import TwinHeap.Proofs.Side.Modes

/-! The repair of all proxies as a whole: when it is refused, what it restores, and that neither the
order of the visits nor a second repair makes a difference. -/
namespace TwinHeap

namespace Object

@[simp] theorem withRecord_withRecord (o : Object) (r r' : Option RepairRecord) :
    (o.withRecord r).withRecord r' = o.withRecord r' := by
  obtain ⟨c, body⟩ := o
  cases body <;> rfl

/-- Taking away a record that is not there changes nothing. -/
theorem withRecord_of_bare {o : Object} (bare : ∀ q, o.proxy? = some q → q.record = none) :
    o.withRecord none = o := by
  obtain ⟨c, body⟩ := o
  cases body with
  | plain fields => rfl
  | weak target => rfl
  | proxy q =>
      obtain ⟨key, record⟩ := q
      cases bare _ rfl
      rfl

end Object

theorem Heap.get?_clearRecords (h : Heap) (ps : List ObjectId) (x : ObjectId) :
    (h.clearRecords ps).get? x =
      if x ∈ ps then (h.get? x).map fun o => o.withRecord none else h.get? x := by
  induction ps generalizing h with
  | nil => rfl
  | cons p ps ih =>
      apply (ih (h.setRecord p none)).trans
      rw [get?_setRecord]
      by_cases same : x = p
      · subst same
        cases h.get? x <;> simp
      · simp [same]

/-- The entries of the record of a proxy, if it has one. -/
def Heap.entriesOf (h : Heap) (p : ObjectId) : List (ExportKey × ObjectId) :=
  (((h.proxy? p).bind Proxy.record).map RepairRecord.entries).getD []

namespace RepairPlan

variable {exports : Exports} {plan plan' : RepairPlan}

/-- The plan for entries that are visited in the order of the list. -/
def ofEntries (exports : Exports) (es : List (ExportKey × ObjectId)) : Except Fault RepairPlan :=
  es.foldlM (addEntry exports) {}

/-- The proxies of a plan are not looked at when an entry is added. -/
theorem restores_addEntry (same : plan.restores = plan'.restores) (e : ExportKey × ObjectId) :
    (addEntry exports plan e).map restores = (addEntry exports plan' e).map restores := by
  unfold addEntry
  rw [same]
  split
  · split
    · split
      · exact congrArg Except.ok same
      · rfl
    · rfl
  · split
    · exact congrArg Except.ok same
    · rfl
  · exact congrArg Except.ok same

theorem restores_bind {r r' : Except Fault RepairPlan}
    {step step' : RepairPlan → Except Fault RepairPlan} (first : r.map restores = r'.map restores)
    (next : ∀ plan plan' : RepairPlan, plan.restores = plan'.restores →
      (step plan).map restores = (step' plan').map restores) :
    (r >>= step).map restores = (r' >>= step').map restores := by
  cases r with
  | error f =>
      cases r' with
      | error f' =>
          cases first
          rfl
      | ok plan' => cases first
  | ok plan =>
      cases r' with
      | error f' => cases first
      | ok plan' => exact next plan plan' (Except.ok.inj first)

theorem restores_foldlM (same : plan.restores = plan'.restores)
    (es : List (ExportKey × ObjectId)) :
    (es.foldlM (addEntry exports) plan).map restores =
      (es.foldlM (addEntry exports) plan').map restores := by
  induction es generalizing plan plan' with
  | nil => exact congrArg Except.ok same
  | cons e es ih =>
      rw [List.foldlM_cons, List.foldlM_cons]
      exact restores_bind (restores_addEntry same e) fun _ _ same => ih same

/-- To plan for a proxy is to plan for the entries of its record. -/
theorem restores_addProxy (h : Heap) (same : plan.restores = plan'.restores) (p : ObjectId) :
    (addProxy h exports plan p).map restores =
      ((h.entriesOf p).foldlM (addEntry exports) plan').map restores := by
  unfold addProxy Heap.entriesOf
  cases (h.proxy? p).bind Proxy.record with
  | none => exact congrArg Except.ok same
  | some r =>
      refine restores_foldlM ?_ r.entries
      exact same

theorem restores_addProxies (h : Heap) (same : plan.restores = plan'.restores)
    (ps : List ObjectId) :
    (ps.foldlM (addProxy h exports) plan).map restores =
      ((ps.flatMap h.entriesOf).foldlM (addEntry exports) plan').map restores := by
  induction ps generalizing plan plan' with
  | nil => exact congrArg Except.ok same
  | cons p ps ih =>
      rw [List.foldlM_cons, List.flatMap_cons, List.foldlM_append]
      exact restores_bind (restores_addProxy h same p) fun _ _ same => ih same

/-- What comes of planning for a list of entries does not depend on their order. -/
theorem answers_ofEntries (exports : Exports) (es : List (ExportKey × ObjectId)) :
    Answers exports {} (fun k x => (k, x) ∈ es) (fun _ => False) (ofEntries exports es) := by
  refine (answers_foldlM (addEntry_spec exports) es {}).congr (fun k x => ?_) fun x => ?_
  · exact ⟨fun ⟨e, member, same⟩ => same ▸ member, fun member => ⟨(k, x), member, rfl⟩⟩
  · simp

theorem Covers.find?_iff {Asked : ExportKey → ObjectId → Prop}
    (covers : Covers exports {} Asked plan) {k : ExportKey} {x : ObjectId} :
    plan.restores.find? k = some x ↔ exports.entry? k = some .detached ∧ Asked k x := by
  refine ⟨fun found => ?_, fun both => covers.added k x both.2 both.1⟩
  exact ((covers.source k x found).resolve_left fun none => nomatch none).symm

/-- A plan for all that is asked for and a clash of it exclude each other. -/
theorem Covers.not_clash {Asked : ExportKey → ObjectId → Prop}
    (covers : Covers exports {} Asked plan) {f : Fault} : ¬ Clash exports {} Asked f := by
  rintro ⟨k, x, y, asked, differ, -, live | ⟨detached, none | other⟩⟩
  · exact differ (covers.agree k x y asked live)
  · cases none
  · have first := covers.added k x asked detached
    exact differ (Option.some.inj ((covers.added k y other detached).symm.trans first))

end RepairPlan

namespace Exports

variable {t : Exports} {l l' : List (ExportKey × ObjectId)}

/-- Detached slots can be restored in any order. -/
theorem entry?_restoreAll_of_perm (perm : l.Perm l') (nodup : (l'.map Prod.fst).Nodup)
    (detached : ∀ e ∈ l', t.entry? e.1 = some .detached) (k : ExportKey) :
    Exports.entry? (t.restoreAll l) k = Exports.entry? (t.restoreAll l') k := by
  have nodup' : (l.map Prod.fst).Nodup := (perm.map Prod.fst).nodup_iff.2 nodup
  have detached' : ∀ e ∈ l, t.entry? e.1 = some .detached := fun e member =>
    detached e (perm.mem_iff.1 member)
  have same : Assoc.lookup k l = Assoc.lookup k l' := by
    apply Option.ext
    intro x
    have iff := Assoc.find?_eq_some_iff (m := ⟨l, nodup'⟩) (k := k) (a := x)
    have iff' := Assoc.find?_eq_some_iff (m := ⟨l', nodup⟩) (k := k) (a := x)
    exact iff.trans (perm.mem_iff.trans iff'.symm)
  exact (entry?_restoreAll detached' nodup' k).trans
    (same ▸ (entry?_restoreAll detached nodup k).symm)

end Exports

namespace Side

variable {s : Side}

/-- Planning proxy by proxy is planning entry by entry. -/
theorem restores_planRepair (s : Side) :
    (s.planRepair s.liveProxies).map RepairPlan.restores =
      (RepairPlan.ofEntries s.exports s.outstanding).map RepairPlan.restores :=
  RepairPlan.restores_addProxies s.heap rfl s.liveProxies

/-- All records of live proxies have been applied to `s`, which restored `n` slots and made it
`s'`. -/
structure RepairedAll (s : Side) (n : Nat) (s' : Side) : Prop where
  restored : ∀ k x, s.exports.entry? k = some .detached → (k, x) ∈ s.outstanding →
    s'.exports.entry? k = some (.live x)
  kept : ∀ k, (s.exports.entry? k = some .detached → ∀ x, (k, x) ∉ s.outstanding) →
    s'.exports.entry? k = s.exports.entry? k
  count : n = s.exports.rows.keys.countP fun k =>
    decide (s.exports.entry? k = some .detached) && (s'.exports.object? k).isSome
  object : ∀ x, s'.heap.get? x =
    if x ∈ s.liveProxies then (s.heap.get? x).map fun o => o.withRecord none else s.heap.get? x
  roots : s'.heap.rootIds = s.heap.rootIds
  imports : s'.imports = s.imports
  unlinked : s'.exports.unlinked = none
  free : s'.exports.free = s.exports.quarantine ++ s.exports.free
  quarantine : s'.exports.quarantine = []

variable {plan : RepairPlan}

theorem repairAll_of_planRepair (planned : s.planRepair s.liveProxies = .ok plan) :
    s.repairAll.answer = .ok plan.restores.size ∧
      s.repairAll.state = (s.commitRepair plan).state.finishRepair := by
  unfold repairAll
  rw [planned]
  exact ⟨rfl, rfl⟩

namespace Plans

variable (plans : s.Plans s.liveProxies plan)

include plans

theorem mem_restores {k : ExportKey} {x : ObjectId} :
    (k, x) ∈ plan.restores.entries ↔
      s.exports.entry? k = some .detached ∧ (k, x) ∈ s.outstanding :=
  Assoc.find?_eq_some_iff.symm.trans
    ((plans.restores k x).trans (and_congr_right fun _ => mem_outstanding.symm))

theorem detached : ∀ e ∈ plan.restores.entries, s.exports.entry? e.1 = some .detached :=
  fun _ member => (plans.mem_restores.1 member).1

theorem entry?_commitRepair (k : ExportKey) :
    (s.commitRepair plan).state.exports.entry? k =
      match plan.restores.find? k with
      | some x => some (.live x)
      | none => s.exports.entry? k :=
  Exports.entry?_restoreAll plans.detached plan.restores.nodup k

/-- The slots that a repair restores are the ones that were detached and are live after it. -/
theorem size_restores :
    plan.restores.size = s.exports.rows.keys.countP fun k =>
      decide (s.exports.entry? k = some .detached) &&
        ((s.commitRepair plan).state.exports.object? k).isSome := by
  have perm : plan.restores.keys.Perm (s.exports.rows.keys.filter fun k =>
      decide (s.exports.entry? k = some .detached) &&
        ((s.commitRepair plan).state.exports.object? k).isSome) := by
    refine (List.perm_ext_iff_of_nodup plan.restores.nodup ?_).2 fun k => ?_
    · exact (Rows.ascending_keys s.exports.rows).nodup.filter _
    · simp only [List.mem_filter, Rows.mem_keys, Bool.and_eq_true, decide_eq_true_eq,
        Option.isSome_iff_exists, Exports.object?_eq_some_iff, plans.entry?_commitRepair k]
      constructor
      · intro listed
        obtain ⟨⟨k, x⟩, member, rfl⟩ := List.mem_map.1 listed
        have detached := plans.detached _ member
        refine ⟨decide_eq_true (Exports.lt_size_of_entry? detached), detached, x, ?_⟩
        rw [Assoc.find?_eq_some_iff.2 member]
      · rintro ⟨-, detached, x, live⟩
        cases found : plan.restores.find? k with
        | some y => exact List.mem_map.2 ⟨(k, y), Assoc.find?_eq_some_iff.1 found, rfl⟩
        | none =>
            rw [found, detached] at live
            cases live
  rw [List.countP_eq_length_filter, ← perm.length_eq]
  exact (List.length_map _).symm

theorem get?_commitRepair (x : ObjectId) :
    (s.commitRepair plan).state.heap.get? x =
      if x ∈ s.liveProxies then (s.heap.get? x).map fun o => o.withRecord none
      else s.heap.get? x := by
  refine (Heap.get?_clearRecords s.heap plan.proxies x).trans ?_
  by_cases member : x ∈ s.liveProxies
  · rw [if_pos member]
    split
    · rfl
    · rename_i unlisted
      cases found : s.heap.get? x with
      | none => rfl
      | some o =>
          refine congrArg some (Object.withRecord_of_bare fun q proxy => ?_).symm
          cases record : q.record with
          | none => rfl
          | some r =>
              have owner : s.heap.proxy? x = some q := by
                rw [Heap.proxy?, found]
                exact proxy
              exact (unlisted ((plans.proxies x).2 ⟨member, q, r, owner, record⟩)).elim
  · rw [if_neg member, if_neg fun listed => member ((plans.proxies x).1 listed).1]

theorem repairedAll :
    s.RepairedAll plan.restores.size (s.commitRepair plan).state.finishRepair where
  restored := fun k x detached named => by
    have found := Assoc.find?_eq_some_iff.2 (plans.mem_restores.2 ⟨detached, named⟩)
    refine (plans.entry?_commitRepair k).trans ?_
    rw [found]
  kept := fun k idle => by
    refine (plans.entry?_commitRepair k).trans ?_
    cases found : plan.restores.find? k with
    | none => rfl
    | some x =>
        obtain ⟨detached, named⟩ := plans.mem_restores.1 (Assoc.find?_eq_some_iff.1 found)
        exact (idle detached x named).elim
  count := plans.size_restores
  object := plans.get?_commitRepair
  roots := (Heap.recast_clearRecords s.heap plan.proxies).roots
  imports := rfl
  unlinked := rfl
  free := by
    obtain ⟨free, quarantine⟩ := Exports.lists_restoreAll s.exports plan.restores.entries
    exact congrArg₂ (· ++ ·) quarantine free
  quarantine := rfl

end Plans

/-- After a repair of all proxies there is no record left to apply. -/
theorem RepairedAll.recordless {n : Nat} {s' : Side} (repaired : s.RepairedAll n s') :
    s'.Recordless := by
  intro p member
  obtain ⟨j, weak, alive⟩ := mem_liveProxies.1 member
  rw [repaired.imports] at weak
  have object := repaired.object p
  have before : s.heap.isAlive p = true := by
    rw [Heap.isAlive, object] at alive
    split at alive
    · rwa [Option.isSome_map] at alive
    · exact alive
  rw [if_pos (mem_liveProxies.2 ⟨j, weak, before⟩)] at object
  rw [Heap.proxy?, object]
  cases s.heap.get? p with
  | none => rfl
  | some o => cases proxy : o.proxy? <;> simp [proxy]

/-- Without records a repair only clears the lists. -/
theorem Recordless.repairAll (bare : s.Recordless) :
    s.repairAll.answer = .ok 0 ∧ s.repairAll.state = s.finishRepair :=
  repairAll_of_planRepair bare.planRepair

theorem RepairedAll.again {n : Nat} {s' : Side} (repaired : s.RepairedAll n s') :
    s'.repairAll.answer = .ok 0 ∧ s'.repairAll.state = s' := by
  obtain ⟨answer, state⟩ := repaired.recordless.repairAll
  refine ⟨answer, state.trans ?_⟩
  obtain ⟨name, heap, exports, imports⟩ := s'
  obtain ⟨rows, places, free, quarantine, unlinked, overridden⟩ := exports
  cases repaired.unlinked
  cases repaired.quarantine
  rfl

/-- A refused repair changes nothing, and there is a contested slot. -/
theorem repairAll_of_error {f : Fault} (refused : s.planRepair s.liveProxies = .error f) :
    s.repairAll.answer = .error f ∧ s.repairAll.state = s ∧
      ∃ k, s.Contested k ∧ f = .brokenSlot k.number := by
  obtain ⟨k, x, y, named, differ, fault, held⟩ := clash_of_planRepair refused
  refine ⟨by rw [repairAll, refused], by rw [repairAll, refused], k, ?_, fault⟩
  exact ⟨x, y, mem_outstanding.2 named, Ne.symm differ,
    held.imp_right fun both => ⟨both.1, mem_outstanding.2 both.2⟩⟩

theorem repairAll_error_iff :
    (∃ f, s.repairAll.answer = .error f) ↔ ∃ k, s.Contested k := by
  constructor
  · rintro ⟨f, answer⟩
    cases planned : s.planRepair s.liveProxies with
    | error g =>
        obtain ⟨-, -, k, contested, -⟩ := repairAll_of_error planned
        exact ⟨k, contested⟩
    | ok plan =>
        rw [(repairAll_of_planRepair planned).1] at answer
        cases answer
  · rintro ⟨k, contested⟩
    cases planned : s.planRepair s.liveProxies with
    | error f => exact ⟨f, (repairAll_of_error planned).1⟩
    | ok plan => exact (planRepair_ok_iff.1 ⟨plan, planned⟩ k contested).elim

/-- Either order of planning comes to a plan for all outstanding entries, or both meet a clash. -/
theorem answers_planRepair (s : Side) :
    RepairPlan.Answers s.exports {} (fun k x => (k, x) ∈ s.outstanding)
      (fun x => x ∈ s.liveProxies ∧ s.heap.HasRecord x) (s.planRepair s.liveProxies) :=
  (RepairPlan.addProxies_spec s.heap s.exports {} s.liveProxies).congr
    (fun _ _ => mem_outstanding.symm) fun _ => .rfl

theorem repairAll_of_perm {es : List (ExportKey × ObjectId)} (perm : es.Perm s.outstanding) :
    match RepairPlan.ofEntries s.exports es with
    | .error _ => ∃ f, s.repairAll.answer = .error f
    | .ok plan => ∀ rs, rs.Perm plan.restores.entries →
        s.repairAll.answer = .ok rs.length ∧
          ∀ k, Exports.entry? (s.exports.restoreAll rs) k =
            s.repairAll.state.exports.entry? k := by
  -- both plans answer for the same entries, so they clash or agree together
  have asked := (RepairPlan.answers_ofEntries s.exports es).congr
    (fun _ _ => perm.mem_iff) fun _ => .rfl
  have asked' := s.answers_planRepair
  cases made : RepairPlan.ofEntries s.exports es with
  | error f =>
      rw [made] at asked
      cases planned : s.planRepair s.liveProxies with
      | error g => exact ⟨g, (repairAll_of_error planned).1⟩
      | ok plan' =>
          rw [planned] at asked'
          exact (asked'.1.not_clash asked).elim
  | ok plan =>
      rw [made] at asked
      cases planned : s.planRepair s.liveProxies with
      | error g =>
          rw [planned] at asked'
          exact (asked.1.not_clash asked').elim
      | ok plan' =>
          rw [planned] at asked'
          intro rs visited
          have same : plan.restores.entries.Perm plan'.restores.entries := by
            refine (List.perm_ext_iff_of_nodup (.of_map _ plan.restores.nodup)
              (.of_map _ plan'.restores.nodup)).2 fun ⟨k, x⟩ => ?_
            rw [← Assoc.find?_eq_some_iff, ← Assoc.find?_eq_some_iff, asked.1.find?_iff,
              asked'.1.find?_iff]
          have visited' := visited.trans same
          have plans := plans_of_planRepair planned
          obtain ⟨answer, state⟩ := repairAll_of_planRepair planned
          refine ⟨answer.trans (congrArg Except.ok visited'.length_eq.symm), fun k => ?_⟩
          rw [state]
          exact Exports.entry?_restoreAll_of_perm visited' plan'.restores.nodup plans.detached k

/-- A repair of all proxies is refused exactly if a slot is contested, and then nothing has changed.
Otherwise it restores the detached slots that the records name, whatever the order in which proxies,
entries and slots are visited, and a second one finds nothing to do. -/
theorem repairAll_exact (s : Side) :
    ((∃ f, s.repairAll.answer = .error f) ↔ ∃ k, s.Contested k) ∧
    (∀ f, s.repairAll.answer = .error f →
      s.repairAll.state = s ∧ ∃ k, s.Contested k ∧ f = .brokenSlot k.number) ∧
    (∀ n, s.repairAll.answer = .ok n →
      s.RepairedAll n s.repairAll.state ∧
        s.repairAll.state.repairAll.answer = .ok 0 ∧
        s.repairAll.state.repairAll.state = s.repairAll.state) ∧
    (s.planRepair s.liveProxies).map RepairPlan.restores =
      (RepairPlan.ofEntries s.exports s.outstanding).map RepairPlan.restores ∧
    ∀ es, es.Perm s.outstanding →
      match RepairPlan.ofEntries s.exports es with
      | .error _ => ∃ f, s.repairAll.answer = .error f
      | .ok plan => ∀ rs, rs.Perm plan.restores.entries →
          s.repairAll.answer = .ok rs.length ∧
            ∀ k, Exports.entry? (s.exports.restoreAll rs) k =
              s.repairAll.state.exports.entry? k := by
  refine ⟨repairAll_error_iff, ?_, ?_, s.restores_planRepair, fun _ => repairAll_of_perm⟩
  · intro f answer
    cases planned : s.planRepair s.liveProxies with
    | error g =>
        obtain ⟨refused, unchanged, contested⟩ := repairAll_of_error planned
        cases refused.symm.trans answer
        exact ⟨unchanged, contested⟩
    | ok plan =>
        rw [(repairAll_of_planRepair planned).1] at answer
        cases answer
  · intro n answer
    cases planned : s.planRepair s.liveProxies with
    | error g =>
        rw [(repairAll_of_error planned).1] at answer
        cases answer
    | ok plan =>
        obtain ⟨restored, state⟩ := repairAll_of_planRepair planned
        cases restored.symm.trans answer
        have repaired := (plans_of_planRepair planned).repairedAll
        rw [← state] at repaired
        exact ⟨repaired, repaired.again⟩

end Side

end TwinHeap
