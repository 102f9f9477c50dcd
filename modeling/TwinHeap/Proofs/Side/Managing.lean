import TwinHeap.Managed
import TwinHeap.Proofs.Side.Ownership

/-! What a run of the manager does to its side: a repair and a severing, or in the forced mode a
severing, a native collection and a repair. -/
namespace TwinHeap

namespace Side

variable {s s' : Side} {k : ExportKey} {x : ObjectId}

theorem mem_liveProxies {p : ObjectId} :
    p ∈ s.liveProxies ↔ ∃ j, s.imports.entry? j = some (.weak p) ∧ s.heap.isAlive p = true := by
  simp only [liveProxies, List.mem_map, Prod.exists, Imports.mem_liveProxies]
  constructor
  · rintro ⟨j, q, both, rfl⟩
    exact ⟨j, both⟩
  · rintro ⟨j, both⟩
    exact ⟨j, p, both, rfl⟩

theorem mem_liveProxies_iff_held {p : ObjectId} :
    p ∈ s.liveProxies ↔ ∃ i, s.imports.proxy? s.heap i = some p := by
  simp only [mem_liveProxies, Imports.proxy?_eq_some_iff]

theorem mem_liveProxies_of_proxy? (sound : s.Sound) {p : ObjectId} {q : Proxy}
    (proxy : s.heap.proxy? p = some q) : p ∈ s.liveProxies :=
  mem_liveProxies.2 ⟨q.key, sound.listed p q proxy, Heap.isAlive_of_proxy? proxy⟩

/-- The table has all proxies with records. -/
def Enlisted (s : Side) : Prop := ∀ p, s.heap.HasRecord p → p ∈ s.liveProxies

theorem Sound.enlisted (sound : s.Sound) : s.Enlisted :=
  fun _ ⟨_, _, proxy, _⟩ => mem_liveProxies_of_proxy? sound proxy

/-- The live proxies of the table have all the records that there are. -/
theorem recordedBy_liveProxies (enlisted : s.Enlisted) :
    s.heap.RecordedBy s.liveProxies k x ↔ s.Recorded k x := by
  refine ⟨recorded_of_recordedBy, ?_⟩
  rintro ⟨p, q, r, proxy, record, member⟩
  exact ⟨p, enlisted p ⟨q, r, proxy, record⟩, q, r, proxy, record, member⟩

theorem Repairs.unrecorded (repairs : s.Repairs s.liveProxies s') (enlisted : s.Enlisted) :
    s'.Unrecorded := by
  intro p q proxy
  rw [repairs.proxy] at proxy
  split at proxy
  · obtain ⟨q', -, rfl⟩ := Option.map_eq_some_iff.1 proxy
    rfl
  · rename_i unlisted
    cases record : q.record with
    | none => rfl
    | some r => exact (unlisted (enlisted p ⟨q, r, proxy, record⟩)).elim

/-- No record names a slot with another object than the one it holds. -/
def Kept (s : Side) : Prop :=
  ∀ k x y, s.Recorded k x → s.exports.entry? k = some (.live y) → y = x

theorem planRepair_of_kept (sound : s.Sound) (kept : s.Kept) (ps : List ObjectId) :
    ∃ plan, s.planRepair ps = .ok plan := by
  cases planned : s.planRepair ps with
  | ok plan => exact ⟨plan, rfl⟩
  | error f =>
      obtain ⟨k, x, y, named, differ, -, held⟩ := clash_of_planRepair planned
      have recorded := recorded_of_recordedBy named
      rcases held with live | ⟨detached, other⟩
      · exact (differ (kept k x y recorded live)).elim
      · have other := recorded_of_recordedBy other
        exact (differ (sound.agreed k y x detached (.inr other) (.inr recorded))).elim

theorem Severed.kept {g : IncomingGraph} (severed : s.Severed g s') : s'.Kept := by
  intro k x y recorded live
  rcases severed.recorded_entry recorded with same | detached
  · rw [live] at same
    cases same
    rfl
  · rw [live] at detached
    cases detached

theorem kept_of_aged {h : Heap} (aged : s.heap.Aged h) (kept : s.Kept) :
    Kept { s with heap := h } := by
  rintro k x y ⟨p, q, r, proxy, rest⟩ live
  exact kept k x y ⟨p, q, r, aged.proxy p q proxy, rest⟩ live

theorem kept_nativeCollect (sound : s.Sound) (kept : s.Kept) : s.nativeCollect.state.Kept :=
  kept_of_aged (aged_nativeCollect sound) kept

theorem Repairs.kept (repairs : s.Repairs s.liveProxies s') (enlisted : s.Enlisted) : s.Kept :=
  fun k x y recorded live =>
    repairs.agree k x y ((recordedBy_liveProxies enlisted).2 recorded) live

theorem Unrecorded.kept (bare : s.Unrecorded) : s.Kept := by
  rintro k x y ⟨p, recorded⟩
  exact (bare.not_recordOf recorded).elim

/-- A plan on top of a repair speaks of the objects that the slots have after it. -/
theorem repaired?_eq {plan : RepairPlan} {ps : List ObjectId} (plans : s.Plans ps plan)
    (repairs : s.Repairs ps s') (k : ExportKey) :
    CollectionPlan.repaired? s plan k = s'.exports.object? k := by
  unfold CollectionPlan.repaired?
  split
  · rename_i x holds
    have live := Exports.object?_eq_some_iff.1 holds
    rcases repairs.entry k with ⟨y, detached, -⟩ | ⟨same, -⟩
    · rw [live] at detached
      cases detached
    · exact (Exports.object?_eq_some_iff.2 (same.trans live)).symm
  · rename_i vacant
    rcases repairs.entry k with ⟨y, detached, named, live⟩ | ⟨same, unnamed⟩
    · rw [(plans.restores k y).2 ⟨detached, named⟩, Exports.object?_eq_some_iff.2 live]
    · have object : s'.exports.object? k = none := by
        rw [← vacant]
        simp only [Exports.object?, same]
      rw [object]
      cases found : plan.restores.find? k with
      | none => rfl
      | some y =>
          have both := (plans.restores k y).1 found
          exact (unnamed y both.1 both.2).elim

end Side

/-- Every slot that the graph names exists. -/
def EdgeGraph.InRange (g : EdgeGraph) (exportSize importSize : Nat) : Prop :=
  (∀ j ∈ g.root, j.number < exportSize) ∧ ∀ e ∈ g.edges.entries,
    e.1.number < importSize ∧ ∀ j ∈ e.2, j.number < exportSize

instance (g : EdgeGraph) (exportSize importSize : Nat) : Decidable (g.InRange exportSize importSize) :=
  inferInstanceAs (Decidable (_ ∧ _))

theorem IncomingGraph.check_eq_ok_iff {g : EdgeGraph} {exportSize importSize : Nat} :
    check g exportSize importSize = .ok () ↔ g.InRange exportSize importSize := by
  have inside : ∀ js : List ImportKey, (js.find? fun j => decide (exportSize ≤ j.number)) = none ↔
      ∀ j ∈ js, j.number < exportSize := by
    intro js
    simp only [List.find?_eq_none, decide_eq_true_eq, Nat.not_le]
  have entry : ∀ e : ExportKey × List ImportKey, checkEntry exportSize importSize e = .ok () ↔
      e.1.number < importSize ∧ ∀ j ∈ e.2, j.number < exportSize := by
    intro e
    rw [checkEntry, ← inside]
    split
    · rename_i key
      split
      · rename_i j found
        simp [found]
      · rename_i none
        simp [none, key]
    · rename_i key
      simp [key]
  have every : ∀ l : List (ExportKey × List ImportKey),
      l.forM (checkEntry exportSize importSize) = .ok () ↔
        ∀ e ∈ l, checkEntry exportSize importSize e = .ok () := by
    intro l
    induction l with
    | nil => exact ⟨fun _ => List.forall_mem_nil _, fun _ => rfl⟩
    | cons e l ih =>
        rw [List.forall_mem_cons, ← ih, List.forM]
        cases checkEntry exportSize importSize e with
        | error f => exact ⟨nofun, fun both => nomatch both.1⟩
        | ok _ => exact ⟨fun rest => ⟨rfl, rest⟩, fun both => both.2⟩
  unfold check EdgeGraph.InRange
  cases found : g.root.find? fun j => decide (exportSize ≤ j.number) with
  | some j =>
      refine ⟨nofun, fun both => ?_⟩
      rw [(inside g.root).2 both.1] at found
      cases found
  | none =>
      simp only [every, entry]
      exact ⟨fun all => ⟨(inside g.root).1 found, all⟩, fun both => both.2⟩

namespace Manager

variable {m : Manager} {s : Side} {text : String}

/-- Why a run of the manager leaves its side alone. -/
inductive Refuses (s : Side) (forced : Bool) (text : String) : Fault → Prop where
  | text {f : TextFault} (unread : EdgeGraph.ofText text = .error f) : Refuses s forced text (.text f)
  | graph {g : EdgeGraph} {f : GraphFault} (read : EdgeGraph.ofText text = .ok g)
      (misfit : IncomingGraph.check g s.exports.size s.imports.size = .error f) :
      Refuses s forced text (.graph f)
  | clash {f : Fault} (unforced : forced = false) (clash : s.planRepair s.liveProxies = .error f) :
      Refuses s forced text f

/-- How a run of the manager changes its side. -/
inductive Manages (s : Side) (g : IncomingGraph) : Bool → Side → Prop where
  | repairFirst {s₁ s₂ : Side} (repairs : s.Repairs s.liveProxies s₁)
      (spent : ∀ x, s₁.exports.note? x = none) (severed : s₁.Severed g s₂) :
      Manages s g false { s₂ with exports := s₂.exports.override }
  | severFirst {s₁ s₂ : Side} (severed : s.Severed g s₁)
      (repairs : s₁.nativeCollect.state.Repairs s₁.nativeCollect.state.liveProxies s₂) :
      Manages s g true s₂

/-- A plan on top of a repair speaks of the tables as the repair leaves them. -/
theorem fits_repaired {g : IncomingGraph} {repair : RepairPlan} (ordered : s.exports.Ordered)
    (planned : s.planRepair s.liveProxies = .ok repair) :
    CollectionPlan.Fits (s.commitRepair repair).state.finishRepair g (.of s g repair) := by
  have plans := Side.plans_of_planRepair planned
  have repairs := (Side.repairs_commitRepair plans).finish
  exact CollectionPlan.fits_of g (Side.repaired?_eq plans repairs) repairs.imports
    repairs.heap.isAlive (repairs.ordered ordered).2

/-- A run in the normal mode that is carried out. -/
theorem cut_carryOut (m : Manager) {g : IncomingGraph} {repair : RepairPlan} (enlisted : s.Enlisted)
    (ordered : s.exports.Ordered) (planned : s.planRepair s.liveProxies = .ok repair) :
    (∃ report, (m.carryOut s g (.of s g repair)).answer = .ok report) ∧
      ∃ severed, s.Repairs s.liveProxies (s.commitRepair repair).state.finishRepair ∧
        Side.Cut (s.commitRepair repair).state.finishRepair g severed ∧
        (m.carryOut s g (.of s g repair)).state.2 =
          { severed with exports := severed.exports.override } := by
  have repairs := (Side.repairs_commitRepair (Side.plans_of_planRepair planned)).finish
  obtain ⟨ok, cut⟩ := Side.cut_sever (repairs.unrecorded enlisted).pairedRecords
    (fits_repaired (g := g) ordered planned)
  have first : (CollectionPlan.of s g repair).repair = repair := rfl
  simp only [carryOut, first, ok]
  exact ⟨⟨_, rfl⟩, _, repairs, cut, rfl⟩

theorem manages_carryOut (m : Manager) {g : IncomingGraph} {repair : RepairPlan} (sound : s.Sound)
    (planned : s.planRepair s.liveProxies = .ok repair) :
    (∃ report, (m.carryOut s g (.of s g repair)).answer = .ok report) ∧
      Manages s g false (m.carryOut s g (.of s g repair)).state.2 := by
  obtain ⟨done, severed, repairs, cut, state⟩ :=
    cut_carryOut m (g := g) sound.enlisted sound.ordered planned
  rw [state]
  have bare := repairs.unrecorded sound.enlisted
  exact ⟨done, .repairFirst repairs (fun _ => rfl) (cut.severed bare)⟩

/-- A plan without a repair speaks of the tables as they are. -/
theorem fits_unrepaired (s : Side) (g : IncomingGraph) : CollectionPlan.Fits s g (.of s g {}) := by
  have object : ∀ k, CollectionPlan.repaired? s {} k = s.exports.object? k := by
    intro k
    unfold CollectionPlan.repaired?
    cases s.exports.object? k <;> rfl
  exact CollectionPlan.fits_of g object rfl (fun _ => rfl) rfl

/-- A run in the forced mode comes down to the repair of what is left after the sweep. -/
theorem forceNative_cases (m : Manager) (paired : s.heap.PairedRecords) (g : IncomingGraph) :
    (∃ f, (swept s g).planRepair (swept s g).liveProxies = .error f ∧
      (m.forceNative s g).answer = .error f ∧ (m.forceNative s g).state = (m, swept s g)) ∨
    (∃ repair, (swept s g).planRepair (swept s g).liveProxies = .ok repair) ∧
      (∃ report, (m.forceNative s g).answer = .ok report) ∧
      (m.forceNative s g).state.2 = (swept s g).repairAll.state := by
  have ok := (Side.cut_sever paired (fits_unrepaired s g)).1
  unfold swept
  cases planned : (sever s (.of s g {})).state.nativeCollect.state.planRepair
      (sever s (.of s g {})).state.nativeCollect.state.liveProxies with
  | error f =>
      refine .inl ⟨f, rfl, ?_, ?_⟩ <;> simp only [forceNative, ok, Side.repairAll, planned]
  | ok repair =>
      refine .inr ⟨⟨repair, rfl⟩, ?_, ?_⟩
      · simp only [forceNative, ok, Side.repairAll, planned]
        exact ⟨_, rfl⟩
      · simp only [forceNative, ok, Side.repairAll, planned]
        rfl

/-- Where there were no records, what a severing and a sweep leave of the new ones can be applied. -/
theorem forceNative_eq (m : Manager) (g : IncomingGraph) (sound : s.Sound) (bare : s.Unrecorded) :
    (∃ report, (m.forceNative s g).answer = .ok report) ∧
      ∃ repair, (swept s g).planRepair (swept s g).liveProxies = .ok repair ∧
        (m.forceNative s g).state.2 = ((swept s g).commitRepair repair).state.finishRepair := by
  rcases m.forceNative_cases bare.pairedRecords g with ⟨f, clash, -⟩ |
      ⟨⟨repair, planned⟩, done, state⟩
  · have severed := (Side.severed_sever bare (fits_unrepaired s g)).2
    have next := severed.sound sound
    obtain ⟨repair, planned⟩ := Side.planRepair_of_kept (Side.sound_nativeCollect next)
      (Side.kept_nativeCollect next severed.kept) (swept s g).liveProxies
    exact nomatch planned.symm.trans clash
  · refine ⟨done, repair, planned, ?_⟩
    rw [state]
    simp only [Side.repairAll, planned]

theorem manages_forceNative (m : Manager) (g : IncomingGraph) (sound : s.Sound)
    (bare : s.Unrecorded) :
    (∃ report, (m.forceNative s g).answer = .ok report) ∧
      Manages s g true (m.forceNative s g).state.2 := by
  obtain ⟨done, repair, planned, state⟩ := forceNative_eq m g sound bare
  rw [state]
  have repairs := (Side.repairs_commitRepair (Side.plans_of_planRepair planned)).finish
  exact ⟨done, .severFirst (Side.severed_sever bare (fits_unrepaired s g)).2 repairs⟩

/-- A run of the manager is refused before anything is changed, or it is carried out. -/
theorem collectText_cases (m : Manager) (forced : Bool) (text : String) (sound : s.Sound)
    (bare : forced = true → s.Unrecorded) :
    (∃ f, Refuses s forced text f ∧ (m.collectText s forced text).answer = .error f ∧
      (m.collectText s forced text).state = (m, s)) ∨
    ∃ g incoming, EdgeGraph.ofText text = .ok g ∧ IncomingGraph.ofGraph g s = .ok incoming ∧
      (∃ report, (m.collectText s forced text).answer = .ok report) ∧
      Manages s incoming forced (m.collectText s forced text).state.2 := by
  unfold collectText
  cases read : EdgeGraph.ofText text with
  | error f => exact .inl ⟨.text f, .text read, rfl, rfl⟩
  | ok g =>
      dsimp only
      have fit : (∃ f, IncomingGraph.check g s.exports.size s.imports.size = .error f ∧
          IncomingGraph.ofGraph g s = .error (.graph f)) ∨
          ∃ incoming, IncomingGraph.ofGraph g s = .ok incoming := by
        unfold IncomingGraph.ofGraph
        cases misfit : IncomingGraph.check g s.exports.size s.imports.size with
        | error f => exact .inl ⟨f, rfl, rfl⟩
        | ok _ => exact .inr ⟨_, rfl⟩
      cases forced with
      | false =>
          simp only [Bool.false_eq_true, if_false, collect]
          rcases fit with ⟨f, misfit, refused⟩ | ⟨incoming, fits⟩
          · rw [refused]
            exact .inl ⟨.graph f, .graph read misfit, rfl, rfl⟩
          · rw [fits]
            dsimp only
            cases planned : s.planRepair s.liveProxies with
            | error f => exact .inl ⟨f, .clash rfl planned, rfl, rfl⟩
            | ok repair =>
                exact .inr ⟨g, incoming, rfl, fits, manages_carryOut m sound planned⟩
      | true =>
          simp only [if_true, collectForced]
          rcases fit with ⟨f, misfit, refused⟩ | ⟨incoming, fits⟩
          · rw [refused]
            exact .inl ⟨.graph f, .graph read misfit, rfl, rfl⟩
          · rw [fits]
            exact .inr ⟨g, incoming, rfl, fits, manages_forceNative m incoming sound (bare rfl)⟩

namespace Manages

variable {g : IncomingGraph} {forced : Bool} {s' : Side} {k : ExportKey} {o : ObjectId}

theorem of_normal (manages : Manages s g false s') :
    ∃ s₁ s₂, s.Repairs s.liveProxies s₁ ∧ s₁.Severed g s₂ ∧
      s' = { s₂ with exports := s₂.exports.override } := by
  cases manages with
  | repairFirst repairs _ severed => exact ⟨_, _, repairs, severed, rfl⟩

/-- Installing the overrides changes nothing that a slot means. -/
theorem mends_override (s : Side) : s.Mends { s with exports := s.exports.override } where
  heap := .refl s.heap
  record := fun _ _ q proxy record => ⟨q, proxy, record⟩
  imports := rfl
  entry := fun _ => .inl rfl
  note := fun _ _ noted => noted
  ordered := Exports.ordered_override
  size := fun _ => rfl

theorem sound (manages : Manages s g forced s') (sound : s.Sound) : s'.Sound := by
  cases manages with
  | repairFirst repairs _ severed =>
      exact (mends_override _).sound (severed.sound (repairs.mends.sound sound))
  | severFirst severed repairs =>
      have next := severed.sound sound
      exact repairs.mends.sound (Side.sound_nativeCollect next)

theorem steady (manages : Manages s g forced s') (sound : s.Sound) : s.Steady s' := by
  cases manages with
  | repairFirst repairs _ severed =>
      have repaired := repairs.mends.sound sound
      have next := severed.sound repaired
      exact (repairs.mends.steady sound.ordered).trans
        ((severed.steady repaired.ordered).trans ((mends_override _).steady next.ordered))
  | severFirst severed repairs =>
      have next := severed.sound sound
      exact (severed.steady sound.ordered).trans
        ((Side.steady_nativeCollect _).trans (repairs.mends.steady next.ordered))

theorem owns (manages : Manages s g forced s') (sound : s.Sound) (owns : s.Owns k o) :
    s'.Owns k o := by
  cases manages with
  | repairFirst repairs _ severed =>
      exact (mends_override _).owns (severed.owns (repairs.mends.owns owns))
  | severFirst severed repairs =>
      have next := severed.sound sound
      exact repairs.mends.owns (Side.owns_nativeCollect next (severed.owns owns))

theorem unrecorded (manages : Manages s g true s') (sound : s.Sound) : s'.Unrecorded := by
  cases manages with
  | severFirst severed repairs =>
      have next := severed.sound sound
      exact repairs.unrecorded (Side.sound_nativeCollect next).enlisted

/-- Without a native collection, only records are different on the heap. -/
theorem recast (manages : Manages s g false s') : s.heap.Recast s'.heap := by
  cases manages with
  | repairFirst repairs _ severed => exact repairs.heap.trans severed.heap

theorem onward (manages : Manages s g forced s') (rising : s.heap.Rising s'.heap) :
    s.heap.Onward s'.heap := by
  cases manages with
  | repairFirst repairs _ severed => exact (repairs.heap.trans severed.heap).onward
  | @severFirst s₁ _ severed repairs =>
      have up : s₁.heap.Rising s₁.nativeCollect.state.heap := by
        intro slot
        have up := rising slot
        rwa [repairs.heap.age, ← severed.heap.age] at up
      exact severed.heap.onward.trans ((Heap.onward_sweep up).trans repairs.heap.onward)

/-- The manager makes no proxies. -/
theorem plain (manages : Manages s g forced s') (sound : s.Sound) {x : ObjectId}
    (other : s.heap.proxy? x = none) : s'.heap.proxy? x = none := by
  cases manages with
  | repairFirst repairs _ severed =>
      exact ((repairs.heap.trans severed.heap).proxy?_eq_none_iff x).2 other
  | @severFirst s₁ _ severed repairs =>
      refine (repairs.heap.proxy?_eq_none_iff x).2 ?_
      have before := (severed.heap.proxy?_eq_none_iff x).2 other
      cases proxy : s₁.nativeCollect.state.heap.proxy? x with
      | none => rfl
      | some q =>
          have old := (Side.aged_nativeCollect (severed.sound sound)).proxy x q proxy
          rw [before] at old
          cases old

end Manages

end Manager

end TwinHeap
