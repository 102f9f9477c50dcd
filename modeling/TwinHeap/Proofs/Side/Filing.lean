import TwinHeap.Proofs.Side.Coupling
import TwinHeap.Proofs.Side.Managing
import TwinHeap.Proofs.Side.Respect
import TwinHeap.Proofs.Table.Filing

/-! The table of a side has each object in one slot, whatever the side is asked to do. What the records
claim is part of the reason: they are made when slots are severed, and are gone before the next
severing. -/
namespace TwinHeap.Side

variable {s s' : Side} {k : ExportKey}

/-- No object has two slots, nor will it when objects come back to their slots. -/
def Exclusive (s : Side) : Prop := s.exports.Exclusive s.Recorded

theorem exclusive_of_aged {h : Heap} (aged : s.heap.Aged h) (exclusive : s.Exclusive) :
    Exclusive { s with heap := h } :=
  Exports.Exclusive.mono exclusive (recorded_of_aged aged)

theorem Receives.exclusive {n : ImportKey} {made : Except Fault ObjectId}
    (receives : s.Receives n made s') (hw : s.heap.WellFormed) (exclusive : s.Exclusive) : s'.Exclusive := by
  have same : s'.exports.Exclusive s.Recorded := receives.exports ▸ exclusive
  exact same.mono (receives.recorded hw)

theorem exclusive_tidied (sound : s.Sound) (exclusive : s.Exclusive) (keys : List ExportKey) :
    (s.tidied keys).Exclusive :=
  Exports.exclusive_releaseAll exclusive sound.ordered keys

theorem exclusive_share (sound : s.Sound) (exclusive : s.Exclusive) (o : ObjectId) :
    (s.share o).state.Exclusive := by
  unfold share
  split
  · exact Exports.exclusive_share exclusive sound.ordered o
  · exact exclusive

theorem exclusive_commitRepair {ps : List ObjectId} {plan : RepairPlan} (plans : s.Plans ps plan)
    (exclusive : s.Exclusive) : (s.commitRepair plan).state.Exclusive := by
  have planned : ∀ e ∈ plan.restores.entries, s.exports.entry? e.1 = some .detached ∧
      s.heap.RecordedBy ps e.1 e.2 := fun e member =>
    (plans.restores e.1 e.2).1 (Assoc.find?_eq_some_iff.2 member)
  have restored : (s.exports.restoreAll plan.restores.entries).Exclusive s.Recorded :=
    Exports.exclusive_restoreAll exclusive (fun e member => (planned e member).1)
      plan.restores.nodup fun e member => recorded_of_recordedBy (planned e member).2
  exact restored.mono (repairs_commitRepair plans).mends.recorded

theorem exclusive_repairProxy (exclusive : s.Exclusive) (p : ObjectId) :
    (s.repairProxy p).state.Exclusive := by
  unfold repairProxy
  split
  · exact exclusive
  · rename_i plan planned
    exact exclusive_commitRepair (plans_of_planRepair planned) exclusive

/-- When all records have been applied, nothing is left that could come back. -/
theorem exclusive_repaired (sound : s.Sound) {plan : RepairPlan}
    (planned : s.planRepair s.liveProxies = .ok plan)
    (filed : (s.commitRepair plan).state.exports.Filed) :
    (s.commitRepair plan).state.finishRepair.Exclusive := by
  have repairs := (repairs_commitRepair (plans_of_planRepair planned)).finish
  refine (Exports.filed_finishRepair filed).exclusive (fun _ => rfl) fun k x recorded => ?_
  obtain ⟨p, named⟩ := recorded
  exact (repairs.unrecorded sound.enlisted).not_recordOf named

theorem exclusive_repairAll (sound : s.Sound) (exclusive : s.Exclusive) :
    s.repairAll.state.Exclusive := by
  unfold repairAll
  split
  · exact exclusive
  · rename_i plan planned
    have repaired := exclusive_commitRepair (plans_of_planRepair planned) exclusive
    exact exclusive_repaired sound planned repaired.filed

theorem exclusive_encode (sound : s.Sound) (exclusive : s.Exclusive) (v : Value) :
    (s.encode v).state.Exclusive := by
  cases v with
  | nil => exact exclusive
  | int n => exact exclusive
  | ref o =>
      unfold encode
      dsimp only
      split
      · unfold handBack
        split
        · exact exclusive
        · exact exclusive_repairProxy exclusive o
      · exact exclusive_share sound exclusive o

theorem exclusive_decode (sound : s.Sound) (exclusive : s.Exclusive) (parcel : Parcel) :
    (s.decode parcel).state.Exclusive := by
  cases parcel with
  | nil => exact exclusive
  | int n => exact exclusive
  | exported k => exact (s.receives_proxyFor k.across).exclusive sound.heap exclusive
  | returned k =>
      show (s.recover k.across).state.Exclusive
      unfold recover
      split
      · dsimp only
        split
        · exact Exports.exclusive_reinstate exclusive k.across
        · exact exclusive_repairAll sound exclusive
      · exact exclusive

theorem exclusive_nativeCollect (sound : s.Sound) (exclusive : s.Exclusive) :
    s.nativeCollect.state.Exclusive :=
  exclusive_of_aged (aged_nativeCollect sound) exclusive

section Manager

variable {g : IncomingGraph} {plan : CollectionPlan}

theorem exclusive_sever (ordered : s.exports.Ordered) (filed : s.exports.Filed) (bare : s.Unrecorded)
    (fits : CollectionPlan.Fits s g plan) :
    Exclusive
      { (Manager.sever s plan).state with
        exports := (Manager.sever s plan).state.exports.override } := by
  obtain ⟨ok, severed⟩ := severed_sever bare fits
  have unlinked : Exports.Exclusive _ (Manager.sever s plan).state.Recorded :=
    Exports.exclusive_unlink fits.live ordered filed fun k x recorded =>
      Exports.object?_eq_some_iff.1 (severed.named (.inr recorded))
  rw [← exports_sever ok] at unlinked
  exact unlinked

theorem exclusive_carryOut (sound : s.Sound) (exclusive : s.Exclusive) (m : Manager)
    {repair : RepairPlan} (planned : s.planRepair s.liveProxies = .ok repair) :
    (m.carryOut s g (.of s g repair)).state.2.Exclusive := by
  have plans := plans_of_planRepair planned
  have repairs := (repairs_commitRepair plans).finish
  have bare := repairs.unrecorded sound.enlisted
  have fits := Manager.fits_repaired (g := g) sound.ordered planned
  have filed := Exports.filed_finishRepair (exclusive_commitRepair plans exclusive).filed
  have severed := exclusive_sever (repairs.ordered sound.ordered).1 filed bare fits
  have first : (CollectionPlan.of s g repair).repair = repair := rfl
  simp only [Manager.carryOut, first, (severed_sever bare fits).1]
  exact severed

/-- What comes back after a severing had its slot before it, and one slot only. -/
theorem Severed.filed_restoreAll (severed : s.Severed g s') (ordered : s.exports.Ordered)
    (filed : s.exports.Filed) (filed' : s'.exports.Filed) {restores : Assoc ExportKey ObjectId}
    (planned : ∀ k x, restores.find? k = some x →
      s'.exports.entry? k = some .detached ∧ s'.Recorded k x) :
    (s'.exports.restoreAll restores.entries).Filed := by
  have planned : ∀ e ∈ restores.entries, s'.exports.entry? e.1 = some .detached ∧
      s.exports.entry? e.1 = some (.live e.2) := by
    intro e member
    have both := planned e.1 e.2 (Assoc.find?_eq_some_iff.2 member)
    exact ⟨both.1, Exports.object?_eq_some_iff.1 (severed.named (.inr both.2))⟩
  refine Exports.filed_restoreAll filed' (fun e member => (planned e member).1) restores.nodup ?_ ?_
  · intro e member
    cases place : s'.exports.keyOf? e.2 with
    | none => rfl
    | some j =>
        have there := (severed.ordered ordered).1.places e.2 j place
        have before := (severed.entry j).symm.trans there
        split at before
        · cases before
        · have here := (planned e member).1
          rw [← filed.single before (planned e member).2, there] at here
          cases here
  · have apart := restores.nodup
    rw [List.Nodup, List.pairwise_map] at apart ⊢
    refine apart.imp_of_mem fun {d e} hd he differ same => differ ?_
    exact filed.single (same ▸ (planned d hd).2) (planned e he).2

/-- In the forced mode the slots that are severed are free for the objects that they held. -/
theorem exclusive_forceNative (sound : s.Sound) (exclusive : s.Exclusive) (bare : s.Unrecorded)
    (m : Manager) : (m.forceNative s g).state.2.Exclusive := by
  obtain ⟨ok, severed⟩ := severed_sever bare (Manager.fits_unrepaired s g)
  have soundNext := severed.sound sound
  obtain ⟨-, repair, planned, state⟩ := m.forceNative_eq g sound bare
  have plans := plans_of_planRepair planned
  have filed : (Manager.sever s (.of s g {})).state.exports.Filed := by
    rw [exports_sever ok]
    exact Exports.filed_setUnlinked (Exports.filed_detachAll exclusive.filed _) _
  rw [state]
  refine exclusive_repaired (sound_nativeCollect soundNext) planned ?_
  refine severed.filed_restoreAll sound.ordered exclusive.filed filed fun k x found => ?_
  have both := (plans.restores k x).1 found
  exact ⟨both.1, recorded_of_aged (aged_nativeCollect soundNext) k x
    (recorded_of_recordedBy both.2)⟩

theorem exclusive_collectText (sound : s.Sound) (exclusive : s.Exclusive) (m : Manager)
    (forced : Bool) (text : String) (bare : forced = true → s.Unrecorded) :
    (m.collectText s forced text).state.2.Exclusive := by
  unfold Manager.collectText
  split
  · exact exclusive
  · split
    · rename_i mode
      unfold Manager.collectForced
      split
      · exact exclusive
      · exact exclusive_forceNative sound exclusive (bare mode) m
    · unfold Manager.collect
      split
      · exact exclusive
      · split
        · exact exclusive
        · rename_i repair planned
          exact exclusive_carryOut sound exclusive m planned

end Manager

/-- The two tables say of every object and of every slot what is the case, and say it once. -/
structure Regular (s : Side) : Prop where
  place : ∀ o k, s.exports.keyOf? o = some k ↔ s.exports.entry? k = some (.live o)
  single : ∀ o j k, s.exports.entry? j = some (.live o) → s.exports.entry? k = some (.live o) → j = k
  liveCount : s.exports.liveCount =
    s.exports.rows.keys.countP fun k => (s.exports.object? k).isSome
  vacant : ∀ k, (s.exports.free ++ s.exports.quarantine).count k =
    if s.exports.entry? k = some .free then 1 else 0
  proxy : ∀ k p, s.imports.entry? k = some (.weak p) → s.heap.isAlive p = true →
    s.remoteKey? p = some k
  referent : ∀ p k, s.remoteKey? p = some k → ∀ j, s.imports.entry? j = some (.weak p) ↔ j = k

theorem Exclusive.regular (exclusive : s.Exclusive) (sound : s.Sound) (current : s.Current) :
    s.Regular where
  place := fun _ _ => Exports.keyOf?_eq_some_iff sound.ordered exclusive.filed
  single := fun _ _ _ => exclusive.filed.single
  liveCount := Exports.liveCount_eq sound.ordered exclusive.filed
  vacant := Exports.count_vacant sound.ordered exclusive.filed
  proxy := current.key
  referent := fun p k key j => by
    obtain ⟨q, proxy, same⟩ := Option.map_eq_some_iff.1 key
    constructor
    · intro entry
      have own := current.key j p entry (Heap.isAlive_of_proxy? proxy)
      exact Option.some.inj (own.symm.trans key)
    · intro here
      rw [here, ← same]
      exact sound.listed p q proxy

end TwinHeap.Side
