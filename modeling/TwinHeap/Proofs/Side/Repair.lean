import TwinHeap.Manager
import TwinHeap.Proofs.Heap.Change
import TwinHeap.Proofs.Table.ImportSlots
import TwinHeap.Proofs.Table.Sharing

/-! What a repair restores, and which records can stop it. -/
namespace TwinHeap

/-- The record of a live proxy names the slot with the object. -/
def Heap.RecordOf (h : Heap) (p : ObjectId) (k : ExportKey) (x : ObjectId) : Prop :=
  ∃ q r, h.proxy? p = some q ∧ q.record = some r ∧ (k, x) ∈ r.entries

/-- Whether a live proxy has a record. -/
def Heap.HasRecord (h : Heap) (p : ObjectId) : Prop :=
  ∃ q r, h.proxy? p = some q ∧ q.record = some r

/-- The record of one of the proxies names the slot with the object. -/
def Heap.RecordedBy (h : Heap) (ps : List ObjectId) (k : ExportKey) (x : ObjectId) : Prop :=
  ∃ p ∈ ps, h.RecordOf p k x

/-- Some record of the side names the slot with the object. -/
def Side.Recorded (s : Side) (k : ExportKey) (x : ObjectId) : Prop := ∃ p, s.heap.RecordOf p k x

theorem Side.recorded_of_recordedBy {s : Side} {ps : List ObjectId} {k : ExportKey} {x : ObjectId}
    (named : s.heap.RecordedBy ps k x) : s.Recorded k x := by
  obtain ⟨p, -, record⟩ := named
  exact ⟨p, record⟩

theorem Heap.recordOf_iff {h : Heap} {p : ObjectId} {q : Proxy} {r : RepairRecord}
    (proxy : h.proxy? p = some q) (record : q.record = some r) {k : ExportKey} {x : ObjectId} :
    h.RecordOf p k x ↔ (k, x) ∈ r.entries := by
  constructor
  · rintro ⟨q', r', proxy', record', member⟩
    cases proxy.symm.trans proxy'
    cases record.symm.trans record'
    exact member
  · exact fun member => ⟨q, r, proxy, record, member⟩

namespace RepairPlan

variable {exports : Exports} {plan plan' : RepairPlan} {h : Heap}

/-- Going from `plan` to `plan'` has covered the entries that `Asked` holds for. -/
structure Covers (exports : Exports) (plan : RepairPlan) (Asked : ExportKey → ObjectId → Prop)
    (plan' : RepairPlan) : Prop where
  kept : ∀ k x, plan.restores.find? k = some x → plan'.restores.find? k = some x
  added : ∀ k x, Asked k x → exports.entry? k = some .detached →
    plan'.restores.find? k = some x
  source : ∀ k x, plan'.restores.find? k = some x →
    plan.restores.find? k = some x ∨ Asked k x ∧ exports.entry? k = some .detached
  agree : ∀ k x y, Asked k x → exports.entry? k = some (.live y) → y = x

/-- Two objects claim one slot, and one of them is asked for now. -/
def Clash (exports : Exports) (plan : RepairPlan) (Asked : ExportKey → ObjectId → Prop)
    (f : Fault) : Prop :=
  ∃ k x y, Asked k x ∧ y ≠ x ∧ f = .brokenSlot k.number ∧
    (exports.entry? k = some (.live y) ∨
      exports.entry? k = some .detached ∧ (plan.restores.find? k = some y ∨ Asked k y))

theorem Covers.none (exports : Exports) (plan : RepairPlan) :
    Covers exports plan (fun _ _ => False) plan where
  kept := fun _ _ found => found
  added := fun _ _ asked => asked.elim
  source := fun _ _ found => .inl found
  agree := fun _ _ _ asked => asked.elim

theorem Covers.trans {plan'' : RepairPlan} {A B : ExportKey → ObjectId → Prop}
    (first : Covers exports plan A plan') (next : Covers exports plan' B plan'') :
    Covers exports plan (fun k x => A k x ∨ B k x) plan'' where
  kept := fun k x found => next.kept k x (first.kept k x found)
  added := fun k x asked detached => by
    rcases asked with a | b
    · exact next.kept k x (first.added k x a detached)
    · exact next.added k x b detached
  source := fun k x found => by
    rcases next.source k x found with early | ⟨asked, detached⟩
    · rcases first.source k x early with old | ⟨asked, detached⟩
      · exact .inl old
      · exact .inr ⟨.inl asked, detached⟩
    · exact .inr ⟨.inr asked, detached⟩
  agree := fun k x y asked live => by
    rcases asked with a | b
    · exact first.agree k x y a live
    · exact next.agree k x y b live

theorem Clash.later {A B : ExportKey → ObjectId → Prop} {f : Fault}
    (first : Covers exports plan A plan') (clash : Clash exports plan' B f) :
    Clash exports plan (fun k x => A k x ∨ B k x) f := by
  obtain ⟨k, x, y, asked, differ, fault, held⟩ := clash
  refine ⟨k, x, y, .inr asked, differ, fault, held.imp id ?_⟩
  rintro ⟨detached, planned | other⟩
  · rcases first.source k y planned with old | ⟨early, -⟩
    · exact ⟨detached, .inl old⟩
    · exact ⟨detached, .inr (.inl early)⟩
  · exact ⟨detached, .inr (.inr other)⟩

theorem Clash.imp {A B : ExportKey → ObjectId → Prop} {f : Fault} (weaken : ∀ k x, A k x → B k x)
    (clash : Clash exports plan A f) : Clash exports plan B f := by
  obtain ⟨k, x, y, asked, differ, fault, held⟩ := clash
  exact ⟨k, x, y, weaken k x asked, differ, fault,
    held.imp id fun both => ⟨both.1, both.2.imp id (weaken k y)⟩⟩

theorem Covers.congr {A B : ExportKey → ObjectId → Prop} (same : ∀ k x, A k x ↔ B k x)
    (covers : Covers exports plan A plan') : Covers exports plan B plan' := by
  have e : A = B := funext fun k => funext fun x => propext (same k x)
  exact e ▸ covers

/-- What comes of planning for entries: a plan that covers them, with the proxies that `Adds` holds
for, or a clash. -/
def Answers (exports : Exports) (plan : RepairPlan) (Asked : ExportKey → ObjectId → Prop)
    (Adds : ObjectId → Prop) : Except Fault RepairPlan → Prop
  | .ok plan' => Covers exports plan Asked plan' ∧
      ∀ x, x ∈ plan'.proxies ↔ x ∈ plan.proxies ∨ Adds x
  | .error f => Clash exports plan Asked f

section Answers

variable {A B : ExportKey → ObjectId → Prop} {P Q : ObjectId → Prop}

theorem Answers.congr {r : Except Fault RepairPlan} (asked : ∀ k x, A k x ↔ B k x)
    (adds : ∀ x, P x ↔ Q x) (answers : Answers exports plan A P r) :
    Answers exports plan B Q r := by
  have sameAsked : A = B := funext fun k => funext fun x => propext (asked k x)
  have sameAdds : P = Q := funext fun x => propext (adds x)
  rw [← sameAsked, ← sameAdds]
  exact answers

theorem Answers.bind {r : Except Fault RepairPlan} {step : RepairPlan → Except Fault RepairPlan}
    (first : Answers exports plan A P r)
    (next : ∀ plan', r = .ok plan' → Answers exports plan' B Q (step plan')) :
    Answers exports plan (fun k x => A k x ∨ B k x) (fun x => P x ∨ Q x) (r >>= step) := by
  cases r with
  | error f => exact Clash.imp (fun k x => .inl) first
  | ok plan' =>
      have later := next plan' rfl
      show Answers exports plan _ _ (step plan')
      cases now : step plan' with
      | error f =>
          rw [now] at later
          exact Clash.later first.1 later
      | ok plan'' =>
          rw [now] at later
          refine ⟨first.1.trans later.1, fun x => ?_⟩
          rw [later.2, first.2, or_assoc]

/-- Planning step by step covers what the steps cover. -/
theorem answers_foldlM {α : Type} {step : RepairPlan → α → Except Fault RepairPlan}
    {A : α → ExportKey → ObjectId → Prop} {P : α → ObjectId → Prop}
    (each : ∀ plan a, Answers exports plan (A a) (P a) (step plan a)) (l : List α)
    (plan : RepairPlan) :
    Answers exports plan (fun k x => ∃ a ∈ l, A a k x) (fun x => ∃ a ∈ l, P a x)
      (l.foldlM step plan) := by
  induction l generalizing plan with
  | nil =>
      refine ⟨(Covers.none exports plan).congr fun k x => ?_, fun x => ?_⟩
      · simp
      · simp
  | cons a l ih =>
      rw [List.foldlM_cons]
      refine ((each plan a).bind fun plan' _ => ih plan').congr (fun k x => ?_) fun x => ?_
      · simp only [List.mem_cons, exists_eq_or_imp]
      · simp only [List.mem_cons, exists_eq_or_imp]

end Answers

section Entry

variable {k : ExportKey} {x : ObjectId}

theorem covers_idle
    (planned : exports.entry? k = some .detached → plan.restores.find? k = some x)
    (agree : ∀ y, exports.entry? k = some (.live y) → y = x) :
    Covers exports plan (fun j z => (j, z) = (k, x)) plan where
  kept := fun _ _ found => found
  added := fun j z same detached => by
    cases same
    exact planned detached
  source := fun _ _ found => .inl found
  agree := fun j z y same live => by
    cases same
    exact agree y live

theorem covers_insert (detached : exports.entry? k = some .detached)
    (fresh : plan.restores.find? k = none) :
    Covers exports plan (fun j z => (j, z) = (k, x))
      { plan with restores := plan.restores.insert k x } where
  kept := fun j z old => by
    rw [Assoc.find?_insert, if_neg]
    · exact old
    · rintro rfl
      rw [fresh] at old
      cases old
  added := fun j z same _ => by
    cases same
    simp
  source := fun j z now => by
    rw [Assoc.find?_insert] at now
    split at now
    · rename_i same
      cases now
      subst same
      exact .inr ⟨rfl, detached⟩
    · exact .inl now
  agree := fun j z y same live => by
    cases same
    rw [detached] at live
    cases live

end Entry

theorem addEntry_spec (exports : Exports) (plan : RepairPlan) (e : ExportKey × ObjectId) :
    Answers exports plan (fun k x => (k, x) = e) (fun _ => False) (addEntry exports plan e) := by
  obtain ⟨k, x⟩ := e
  have same : ∀ z, z ∈ plan.proxies ↔ z ∈ plan.proxies ∨ False := fun z => (or_iff_left id).symm
  unfold addEntry
  dsimp only
  cases found : exports.entry? k with
  | none => exact ⟨covers_idle (by simp [found]) (by simp [found]), same⟩
  | some entry =>
      cases entry with
      | free => exact ⟨covers_idle (by simp [found]) (by simp [found]), same⟩
      | live current =>
          dsimp only
          by_cases agree : current = x
          · rw [if_pos agree]
            exact ⟨covers_idle (by simp [found]) (by simp [found, agree]), same⟩
          · rw [if_neg agree]
            exact ⟨k, x, current, rfl, agree, rfl, .inl found⟩
      | detached =>
          dsimp only
          cases planned : plan.restores.find? k with
          | some y =>
              dsimp only
              by_cases agree : y = x
              · rw [if_pos agree]
                exact ⟨covers_idle (fun _ => agree ▸ planned) (by simp [found]), same⟩
              · rw [if_neg agree]
                exact ⟨k, x, y, rfl, agree, rfl, .inr ⟨found, .inl planned⟩⟩
          | none => exact ⟨covers_insert found planned, same⟩

theorem addProxy_spec (h : Heap) (exports : Exports) (plan : RepairPlan) (p : ObjectId) :
    Answers exports plan (h.RecordOf p) (fun x => x = p ∧ h.HasRecord p)
      (addProxy h exports plan p) := by
  unfold addProxy
  cases found : (h.proxy? p).bind Proxy.record with
  | none =>
      have bare : ¬ h.HasRecord p := by
        rintro ⟨q, r, proxy, record⟩
        rw [proxy, Option.bind_some, record] at found
        cases found
      refine ⟨(Covers.none exports plan).congr fun k x => ⟨False.elim, ?_⟩, fun x => ?_⟩
      · rintro ⟨q, r, proxy, record, -⟩
        exact bare ⟨q, r, proxy, record⟩
      · exact ⟨.inl, fun either => either.resolve_right fun both => bare both.2⟩
  | some r =>
      obtain ⟨q, proxy, record⟩ := Option.bind_eq_some_iff.1 found
      have asked : ∀ k x, (∃ e ∈ r.entries, (k, x) = e) ↔ h.RecordOf p k x := by
        intro k x
        rw [Heap.recordOf_iff proxy record]
        constructor
        · rintro ⟨e, member, rfl⟩
          exact member
        · exact fun member => ⟨(k, x), member, rfl⟩
      have spec := (answers_foldlM (addEntry_spec exports) r.entries
        { plan with proxies := plan.proxies ++ [p] }).congr asked fun _ => .rfl
      dsimp only
      cases now : r.entries.foldlM (addEntry exports) { plan with proxies := plan.proxies ++ [p] } with
      | error f =>
          rw [now] at spec
          exact spec
      | ok plan' =>
          rw [now] at spec
          refine ⟨⟨spec.1.kept, spec.1.added, spec.1.source, spec.1.agree⟩, fun x => ?_⟩
          rw [spec.2]
          simp only [List.mem_append, List.mem_singleton, and_false, exists_false, or_false]
          exact or_congr_right ⟨fun same => ⟨same, q, r, proxy, record⟩, And.left⟩

theorem addProxies_spec (h : Heap) (exports : Exports) (plan : RepairPlan) (ps : List ObjectId) :
    Answers exports plan (h.RecordedBy ps) (fun x => x ∈ ps ∧ h.HasRecord x)
      (ps.foldlM (addProxy h exports) plan) := by
  apply (answers_foldlM (addProxy_spec h exports) ps plan).congr (fun _ _ => .rfl)
  intro x
  constructor
  · rintro ⟨p, member, rfl, has⟩
    exact ⟨member, has⟩
  · rintro ⟨member, has⟩
    exact ⟨x, member, rfl, has⟩

end RepairPlan

namespace Side

variable {s : Side} {ps : List ObjectId} {plan : RepairPlan}

/-- A plan for a repair by the records of `ps`, against the tables as they are. -/
structure Plans (s : Side) (ps : List ObjectId) (plan : RepairPlan) : Prop where
  restores : ∀ k x, plan.restores.find? k = some x ↔
    s.exports.entry? k = some .detached ∧ s.heap.RecordedBy ps k x
  agree : ∀ k x y, s.heap.RecordedBy ps k x → s.exports.entry? k = some (.live y) → y = x
  proxies : ∀ x, x ∈ plan.proxies ↔ x ∈ ps ∧ s.heap.HasRecord x

theorem plans_of_planRepair (planned : s.planRepair ps = .ok plan) : s.Plans ps plan := by
  have spec := RepairPlan.addProxies_spec s.heap s.exports {} ps
  rw [← planRepair, planned] at spec
  obtain ⟨covers, proxies⟩ := spec
  refine ⟨fun k x => ⟨fun found => ?_, fun both => covers.added k x both.2 both.1⟩, covers.agree, ?_⟩
  · rcases covers.source k x found with none | both
    · cases none
    · exact both.symm
  · intro x
    rw [proxies]
    exact or_iff_right (fun none => nomatch none)

/-- A repair is refused only if a record names a slot with another object than the one it holds, or
than another record names for it. -/
theorem clash_of_planRepair {f : Fault} (refused : s.planRepair ps = .error f) :
    ∃ k x y, s.heap.RecordedBy ps k x ∧ y ≠ x ∧ f = .brokenSlot k.number ∧
      (s.exports.entry? k = some (.live y) ∨
        s.exports.entry? k = some .detached ∧ s.heap.RecordedBy ps k y) := by
  have spec := RepairPlan.addProxies_spec s.heap s.exports {} ps
  rw [← planRepair, refused] at spec
  obtain ⟨k, x, y, asked, differ, fault, held⟩ := spec
  refine ⟨k, x, y, asked, differ, fault, held.imp id ?_⟩
  rintro ⟨detached, none | other⟩
  · cases none
  · exact ⟨detached, other⟩

/-- The records of `ps` have been applied to `s`, which made it `s'`. -/
structure Repairs (s : Side) (ps : List ObjectId) (s' : Side) : Prop where
  heap : s.heap.Recast s'.heap
  proxy : ∀ x, s'.heap.proxy? x =
    if x ∈ ps then (s.heap.proxy? x).map fun q => { q with record := none } else s.heap.proxy? x
  imports : s'.imports = s.imports
  name : s'.name = s.name
  agree : ∀ k x y, s.heap.RecordedBy ps k x → s.exports.entry? k = some (.live y) → y = x
  entry : ∀ k,
    (∃ x, s.exports.entry? k = some .detached ∧ s.heap.RecordedBy ps k x ∧
      s'.exports.entry? k = some (.live x)) ∨
    s'.exports.entry? k = s.exports.entry? k ∧
      ∀ x, s.exports.entry? k = some .detached → ¬ s.heap.RecordedBy ps k x
  note : ∀ x k, s'.exports.note? x = some k → s.exports.note? x = some k
  ordered : s.exports.Ordered → s'.exports.Ordered ∧ s'.exports.size = s.exports.size

theorem repairs_commitRepair (plans : s.Plans ps plan) :
    s.Repairs ps (s.commitRepair plan).state where
  heap := Heap.recast_clearRecords s.heap plan.proxies
  proxy := fun x => by
    refine (Heap.proxy?_clearRecords s.heap plan.proxies x).trans ?_
    by_cases member : x ∈ ps
    · rw [if_pos member]
      split
      · rfl
      · rename_i bare
        cases proxy : s.heap.proxy? x with
        | none => rfl
        | some q =>
            obtain ⟨key, record⟩ := q
            cases record with
            | none => rfl
            | some r => exact (bare ((plans.proxies x).2 ⟨member, _, r, proxy, rfl⟩)).elim
    · rw [if_neg member, if_neg (fun listed => member ((plans.proxies x).1 listed).1)]
  imports := rfl
  name := rfl
  agree := plans.agree
  entry := fun k => by
    have detached : ∀ e ∈ plan.restores.entries, s.exports.entry? e.1 = some .detached :=
      fun e member => ((plans.restores e.1 e.2).1 (Assoc.find?_eq_some_iff.2 member)).1
    have entry := Exports.entry?_restoreAll detached plan.restores.nodup k
    cases found : plan.restores.find? k with
    | some x =>
        have both := (plans.restores k x).1 found
        rw [show Assoc.lookup k plan.restores.entries = some x from found] at entry
        exact .inl ⟨x, both.1, both.2, entry⟩
    | none =>
        rw [show Assoc.lookup k plan.restores.entries = none from found] at entry
        refine .inr ⟨entry, fun x detached named => ?_⟩
        rw [(plans.restores k x).2 ⟨detached, named⟩] at found
        cases found
  note := fun x k noted => by
    have same : (s.exports.restoreAll plan.restores.entries).unlinked = s.exports.unlinked :=
      Exports.unlinked_restoreAll s.exports plan.restores.entries
    rw [Exports.note?, ← same]
    exact noted
  ordered := fun ordered => Exports.ordered_restoreAll ordered
    (fun e member => ((plans.restores e.1 e.2).1 (Assoc.find?_eq_some_iff.2 member)).1)
    plan.restores.nodup

theorem Repairs.finish {s' : Side} (repairs : s.Repairs ps s') : s.Repairs ps s'.finishRepair where
  heap := repairs.heap
  proxy := repairs.proxy
  imports := repairs.imports
  name := repairs.name
  agree := repairs.agree
  entry := repairs.entry
  note := fun _ _ noted => nomatch noted
  ordered := fun ordered => by
    have kept := repairs.ordered ordered
    exact ⟨Exports.ordered_finishRepair kept.1, kept.2⟩

/-- Applying records either changes nothing, because two of them clash, or repairs. -/
theorem repairProxy_cases (s : Side) (p : ObjectId) :
    (∃ f, s.planRepair [p] = .error f ∧ (s.repairProxy p).answer = .error f ∧
      (s.repairProxy p).state = s) ∨
    (∃ n, (s.repairProxy p).answer = .ok n) ∧ s.Repairs [p] (s.repairProxy p).state := by
  unfold repairProxy
  cases planned : s.planRepair [p] with
  | error f => exact .inl ⟨f, rfl, rfl, rfl⟩
  | ok plan => exact .inr ⟨⟨_, rfl⟩, repairs_commitRepair (plans_of_planRepair planned)⟩

theorem repairAll_cases (s : Side) :
    (∃ f, s.planRepair s.liveProxies = .error f ∧ s.repairAll.answer = .error f ∧
      s.repairAll.state = s) ∨
    (∃ n, s.repairAll.answer = .ok n) ∧ s.Repairs s.liveProxies s.repairAll.state ∧
      ∀ x, s.repairAll.state.exports.note? x = none := by
  unfold repairAll
  cases planned : s.planRepair s.liveProxies with
  | error f => exact .inl ⟨f, rfl, rfl, rfl⟩
  | ok plan =>
      exact .inr ⟨⟨_, rfl⟩, (repairs_commitRepair (plans_of_planRepair planned)).finish,
        fun _ => rfl⟩

end Side

end TwinHeap
