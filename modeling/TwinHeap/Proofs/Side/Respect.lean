import TwinHeap.Proofs.Side.Crossing
import TwinHeap.Proofs.Side.Managing
import TwinHeap.Proofs.Side.Coupling
import TwinHeap.Proofs.Table.Vacancies

/-! Whether a table respects the records of its proxies. A record is at odds with the table only when
its slot went to another object, and that takes a slot that was up for reuse. -/
namespace TwinHeap

namespace Side

variable {s s' : Side} {v : Value}

/-- Records name slots of the table. -/
def Tabled (s : Side) : Prop := ∀ k x, s.Recorded k x → k.number < s.exports.size

/-- A slot that a record names holds the object that it is named with, or none. -/
def Respects (s : Side) : Prop :=
  ∀ k x, s.Recorded k x → s.exports.entry? k = some (.live x) ∨
    s.exports.entry? k = some .detached ∨ s.exports.entry? k = some .free

theorem respects_iff (tabled : s.Tabled) : s.Respects ↔ s.Kept := by
  constructor
  · intro respects k x y recorded live
    rcases respects k x recorded with same | same | same
    · rw [live] at same
      cases same
      rfl
    · rw [live] at same
      cases same
    · rw [live] at same
      cases same
  · intro kept k x recorded
    cases found : s.exports.entry? k with
    | none =>
        have missing := Rows.get?_eq_none_iff.1 found
        rw [Rows.contains, decide_eq_false_iff_not] at missing
        exact (missing (tabled k x recorded)).elim
    | some entry =>
        cases entry with
        | free => exact .inr (.inr rfl)
        | detached => exact .inr (.inl rfl)
        | live y => exact .inl (by rw [kept k x y recorded found])

theorem tabled_of_recorded (tabled : s.Tabled) (recorded : ∀ k x, s'.Recorded k x → s.Recorded k x)
    (size : s.exports.size ≤ s'.exports.size) : s'.Tabled :=
  fun k x named => Nat.lt_of_lt_of_le (tabled k x (recorded k x named)) size

theorem Mends.recorded (mends : s.Mends s') (k : ExportKey) (x : ObjectId)
    (recorded : s'.Recorded k x) : s.Recorded k x := by
  obtain ⟨p, named⟩ := recorded
  exact ⟨p, mends.recordOf named⟩

theorem Mends.tabled (mends : s.Mends s') (sound : s.Sound) (tabled : s.Tabled) : s'.Tabled :=
  tabled_of_recorded tabled mends.recorded (Nat.le_of_eq (mends.size sound.ordered).symm)

theorem recorded_of_aged {h : Heap} (aged : s.heap.Aged h) (k : ExportKey) (x : ObjectId)
    (recorded : Recorded { s with heap := h } k x) : s.Recorded k x := by
  obtain ⟨p, q, r, proxy, rest⟩ := recorded
  exact ⟨p, q, r, aged.proxy p q proxy, rest⟩

theorem Receives.recorded {n : ImportKey} {made : Except Fault ObjectId}
    (receives : s.Receives n made s') (hw : s.heap.WellFormed) (k : ExportKey) (x : ObjectId) (recorded : s'.Recorded k x) :
    s.Recorded k x := by
  obtain ⟨q, named⟩ := recorded
  exact ⟨q, receives.recordOf hw named⟩

theorem Severed.tabled {g : IncomingGraph} (severed : s.Severed g s') (sound : s.Sound) :
    s'.Tabled := by
  rintro k x ⟨p, recorded⟩
  have live := Exports.object?_eq_some_iff.1 ((severed.record p k x).1 recorded).2.1
  exact (severed.ordered sound.ordered).2 ▸ Exports.lt_size_of_entry? live

theorem Mends.kept (mends : s.Mends s') (sound : s.Sound) (kept : s.Kept) : s'.Kept := by
  intro k x y recorded live
  have before := mends.recorded k x recorded
  rcases mends.entry k with same | ⟨detached, z, named, filled⟩
  · exact kept k x y before (same ▸ live)
  · rw [live] at filled
    cases filled
    exact sound.agreed k y x detached named (.inr before)

theorem kept_tidied (kept : s.Kept) (keys : List ExportKey) : (s.tidied keys).Kept :=
  fun k x y recorded live => kept k x y recorded (entry?_tidied live fun e => nomatch e)

theorem Receives.kept {k : ImportKey} {made : Except Fault ObjectId}
    (receives : s.Receives k made s') (hw : s.heap.WellFormed) (kept : s.Kept) : s'.Kept := by
  intro n x y recorded live
  exact kept n x y (receives.recorded hw n x recorded) (receives.exports ▸ live)

/-- Records that agree with the table can always be applied. -/
theorem not_clashes (sound : s.Sound) (kept : s.Kept) (ps : List ObjectId) (f : Fault) :
    ¬ s.Clashes ps f := by
  intro clash
  obtain ⟨plan, planned⟩ := planRepair_of_kept sound kept ps
  exact nomatch planned.symm.trans clash

theorem repair_ne_error (sound : s.Sound) (kept : s.Kept) (f : Fault) :
    (∀ p, (s.repairProxy p).answer ≠ .error f) ∧ s.repairAll.answer ≠ .error f := by
  constructor
  · intro p refused
    rcases s.repairProxy_cases p with ⟨f', clash, -⟩ | ⟨⟨n, answer⟩, -⟩
    · exact not_clashes sound kept [p] f' clash
    · exact nomatch answer.symm.trans refused
  · intro refused
    rcases s.repairAll_cases with ⟨f', clash, -⟩ | ⟨⟨n, answer⟩, -⟩
    · exact not_clashes sound kept s.liveProxies f' clash
    · exact nomatch answer.symm.trans refused

/-- The object gets a free slot that a record still names with another object. -/
def HandsOut (s : Side) (o : ObjectId) : Prop :=
  s.heap.proxy? o = none ∧ s.heap.isAlive o = true ∧
    ∃ k x, (s.exports.share o).answer = .ok k ∧ ¬ s.exports.Used k ∧ s.Recorded k x ∧ x ≠ o

/-- A slot that an object gets is at odds with the records only if it was free. -/
theorem not_kept_share_iff {o : ObjectId} {k : ExportKey} (sound : s.Sound) (kept : s.Kept)
    (plain : s.heap.proxy? o = none) (alive : s.heap.isAlive o = true)
    (shared : (s.exports.share o).answer = .ok k) :
    ¬ Kept { s with exports := (s.exports.share o).state } ↔ s.HandsOut o := by
  obtain ⟨fills, source⟩ := Exports.fills_share sound.ordered shared
  constructor
  · intro broken
    refine ⟨plain, alive, ?_⟩
    simp only [Kept, Classical.not_forall] at broken
    obtain ⟨n, x, y, recorded, live, differ⟩ := broken
    have entry := (fills.entry n).symm.trans live
    split at entry
    · rename_i here
      cases here
      cases entry
      refine ⟨k, x, shared, ?_, recorded, Ne.symm differ⟩
      rcases source with same | ⟨detached, noted⟩ | vacant
      · exact (differ (kept k x o recorded same)).elim
      · exact (differ (sound.agreed k o x detached (.inl noted) (.inr recorded))).elim
      · exact vacant
    · exact (differ (kept n x y recorded entry)).elim
  · rintro ⟨-, -, n, x, shared', -, recorded, differ⟩ keeps
    rw [shared] at shared'
    cases shared'
    exact differ (keeps k x o recorded ((fills.entry k).trans (if_pos rfl))).symm

section Reserved

/-- No slot that a record names is up for reuse. -/
def Reserved (s : Side) : Prop := ∀ k x, s.Recorded k x → k ∉ s.exports.free

theorem not_handsOut (sound : s.Sound) (tabled : s.Tabled) (reserved : s.Reserved) (o : ObjectId) :
    ¬ s.HandsOut o := by
  rintro ⟨-, -, k, x, shared, unused, recorded, -⟩
  rcases Exports.vacant_share sound.ordered shared unused with free | new
  · exact reserved k x recorded free
  · exact Nat.not_lt.2 new (tabled k x recorded)

theorem reserved_of_recorded (reserved : s.Reserved)
    (recorded : ∀ k x, s'.Recorded k x → s.Recorded k x)
    (free : ∀ k ∈ s'.exports.free, k ∈ s.exports.free) : s'.Reserved :=
  fun k x named member => reserved k x (recorded k x named) (free k member)

theorem Unrecorded.reserved (bare : s.Unrecorded) : s.Reserved := by
  rintro k x ⟨p, recorded⟩
  exact (bare.not_recordOf recorded).elim

theorem Receives.reserved {n : ImportKey} {made : Except Fault ObjectId}
    (receives : s.Receives n made s') (hw : s.heap.WellFormed) (reserved : s.Reserved) : s'.Reserved :=
  reserved_of_recorded reserved (receives.recorded hw) fun _ member => receives.exports ▸ member

theorem Severed.reserved {g : IncomingGraph} (severed : s.Severed g s') (sound : s.Sound) :
    s'.Reserved := by
  intro k x recorded member
  have vacant := (severed.ordered sound.ordered).1.vacant k (List.mem_append_left _ member)
  rcases severed.recorded_entry recorded with live | detached
  · rw [vacant] at live
    cases live
  · rw [vacant] at detached
    cases detached

/-- A release that spares the slots that hold what a record names them with. -/
theorem reserved_tidied {keys : List ExportKey} (kept : s.Kept) (reserved : s.Reserved)
    (spared : ∀ k x, s.Recorded k x → s.exports.entry? k = some (.live x) → k ∉ keys) :
    (s.tidied keys).Reserved := by
  intro k x recorded member
  rcases Exports.mem_free_releaseAll member with old | ⟨listed, y, live⟩
  · exact reserved k x recorded old
  · exact spared k x recorded (kept k x y recorded live ▸ live) listed

theorem reserved_commitRepair (reserved : s.Reserved) {ps : List ObjectId} {plan : RepairPlan}
    (plans : s.Plans ps plan) : (s.commitRepair plan).state.Reserved := by
  apply reserved_of_recorded reserved (repairs_commitRepair plans).mends.recorded
  intro k member
  exact (Exports.lists_restoreAll s.exports plan.restores.entries).1 ▸ member

theorem reserved_handBack (reserved : s.Reserved) (p : ObjectId) :
    (s.handBack p).state.Reserved := by
  unfold handBack repairProxy
  split
  · exact reserved
  · split
    · exact reserved
    · rename_i plan planned
      exact reserved_commitRepair reserved (plans_of_planRepair planned)

theorem reserved_encode (reserved : s.Reserved) (v : Value) : (s.encode v).state.Reserved := by
  cases v with
  | nil => exact reserved
  | int n => exact reserved
  | ref o =>
      unfold encode
      dsimp only
      split
      · exact reserved_handBack reserved o
      · unfold share
        split
        · exact reserved_of_recorded reserved (fun _ _ recorded => recorded)
            fun _ => Exports.mem_free_share
        · exact reserved

/-- Applying all records leaves none that could name a slot. -/
theorem reserved_repairAll (sound : s.Sound) (reserved : s.Reserved) : s.repairAll.state.Reserved := by
  rcases s.repairAll_cases with ⟨f, -, -, same⟩ | ⟨-, repairs, -⟩
  · rw [same]
    exact reserved
  · exact (repairs.unrecorded sound.enlisted).reserved

theorem reserved_decode (sound : s.Sound) (reserved : s.Reserved) (parcel : Parcel) :
    (s.decode parcel).state.Reserved := by
  cases parcel with
  | nil => exact reserved
  | int n => exact reserved
  | exported k =>
      have received := s.receives_proxyFor k.across
      exact received.reserved sound.heap reserved
  | returned k =>
      have recovered : (s.decode (.returned k)).state = (s.recover k.across).state := rfl
      rw [recovered]
      unfold recover
      split
      · dsimp only
        split
        · refine reserved_of_recorded reserved (fun _ _ recorded => recorded) fun n member => ?_
          exact Exports.free_reinstate s.exports k.across ▸ member
        · exact reserved_repairAll sound reserved
      · exact reserved

end Reserved

end Side

end TwinHeap
