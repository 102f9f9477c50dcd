import TwinHeap.Proofs.Side.Coupling
import TwinHeap.Proofs.Side.Managing

/-! What every operation of a side does to detached slots, also where the records are at odds with each
other or with the table: it detaches none, and fills those that there are with what a note or a record
names for them. Only the manager severs. -/
namespace TwinHeap

namespace Side

/-- What holds of every side, whatever its records say. -/
structure Formed (s : Side) : Prop where
  heap : s.heap.WellFormed
  ordered : s.exports.Ordered
  paired : s.heap.PairedRecords
  enlisted : s.Enlisted

/-- Nothing was severed or noted between `s` and `s'`, and detached slots were filled with what was
named for them. -/
structure Heeds (s s' : Side) : Prop where
  formed : s'.Formed
  detached : ∀ k, s'.exports.entry? k = some .detached → s.exports.entry? k = some .detached
  named : ∀ k x, s'.Named k x → s.Named k x
  filled : ∀ k o, s.exports.entry? k = some .detached → s'.exports.entry? k = some (.live o) →
    s.Named k o

variable {s s' : Side} {k : ExportKey} {o p x : ObjectId}

theorem formed_empty (name : String) : Formed { name } where
  heap := Heap.wellFormed_empty
  ordered := Exports.ordered_empty
  paired := fun _ _ _ proxy => nomatch proxy
  enlisted := fun _ ⟨_, _, proxy, _⟩ => nomatch proxy

theorem Formed.heeds (formed : s.Formed) : s.Heeds s where
  formed := formed
  detached := fun _ detached => detached
  named := fun _ _ named => named
  filled := fun _ _ detached live => nomatch detached.symm.trans live

section Tables

theorem enlisted_of_same (enlisted : s.Enlisted) (imports : s'.imports = s.imports)
    (alive : ∀ x, s.heap.isAlive x = true → s'.heap.HasRecord x → s'.heap.isAlive x = true)
    (has : ∀ x, s'.heap.HasRecord x → s.heap.HasRecord x) : s'.Enlisted := by
  intro p owner
  obtain ⟨j, entry, before⟩ := mem_liveProxies.1 (enlisted p (has p owner))
  exact mem_liveProxies.2 ⟨j, imports ▸ entry, alive p before owner⟩

/-- Only the export table is different. -/
theorem formed_of_ordered {exports : Exports} (formed : s.Formed) (ordered : exports.Ordered) :
    Formed { s with exports } where
  heap := formed.heap
  ordered := ordered
  paired := formed.paired
  enlisted := formed.enlisted

theorem heeds_of_mends (formed : s.Formed) (mends : s.Mends s') : s.Heeds s' where
  formed :=
    { heap := mends.heap.wellFormed formed.heap
      ordered := mends.ordered formed.ordered
      paired := fun p q r proxy record => by
        obtain ⟨q', proxy', record'⟩ := mends.record p r q proxy record
        exact formed.paired p q' r proxy' record'
      enlisted := by
        refine enlisted_of_same formed.enlisted mends.imports ?_ ?_
        · exact fun x alive _ => (mends.heap.isAlive x).trans alive
        · rintro x ⟨q, r, proxy, record⟩
          obtain ⟨q', proxy', record'⟩ := mends.record x r q proxy record
          exact ⟨q', r, proxy', record'⟩ }
  detached := fun _ => mends.detached
  named := fun _ _ => mends.named
  filled := fun k o detached live => by
    rcases mends.entry k with same | ⟨-, x, named, filled⟩
    · exact nomatch detached.symm.trans (same.symm.trans live)
    · cases filled.symm.trans live
      exact named

theorem heeds_of_fills {exports : Exports} (formed : s.Formed) (fills : s.exports.Fills k o exports)
    (source : s.exports.entry? k = some (.live o) ∨
      s.exports.entry? k = some .detached ∧ s.exports.note? o = some k ∨ ¬ s.exports.Used k) :
    s.Heeds { s with exports } := by
  rcases source with live | noted | vacant
  · exact heeds_of_mends formed (mends_of_fills fills (.inl live))
  · exact heeds_of_mends formed (mends_of_fills fills (.inr noted))
  · refine ⟨formed_of_ordered formed fills.ordered, fun n detached => ?_,
      fun n x named => named.imp_left (fills.note x n), fun n x detached live => ?_⟩
    · have entry := fills.entry n
      split at entry
      · exact nomatch entry.symm.trans detached
      · exact entry.symm.trans detached
    · have entry := fills.entry n
      rw [if_neg] at entry
      · exact nomatch detached.symm.trans (entry.symm.trans live)
      · rintro rfl
        exact vacant (.inl detached)

theorem heeds_release (formed : s.Formed) (keys : List ExportKey) :
    s.Heeds (s.release keys).state := by
  have kept := Exports.ordered_releaseAll formed.ordered keys
  have entry : ∀ {n e}, Exports.entry? (s.exports.releaseAll keys) n = some e → e ≠ .free →
      s.exports.entry? n = some e := by
    intro n e found taken
    have released := found.symm.trans (Exports.entry?_releaseAll s.exports keys n)
    split at released
    · cases released
      exact (taken rfl).elim
    · exact released.symm
  refine ⟨formed_of_ordered formed kept.1, fun n detached => ?_, fun n x named => ?_,
    fun n x detached live => ?_⟩
  · exact entry detached fun same => by cases same
  · refine named.imp_left fun noted => ?_
    rw [Exports.note?, ← kept.2.2]
    exact noted
  · have before := entry live fun same => by cases same
    cases detached.symm.trans before

theorem heeds_scavenge (formed : s.Formed) : s.Heeds s.scavenge.2 where
  formed :=
    { heap := formed.heap
      ordered := formed.ordered
      paired := formed.paired
      enlisted := fun p owner => by
        obtain ⟨j, entry, alive⟩ := mem_liveProxies.1 (formed.enlisted p owner)
        exact mem_liveProxies.2 ⟨j, Imports.entry?_scavenge_weak.2 ⟨entry, alive⟩, alive⟩ }
  detached := fun _ detached => detached
  named := fun _ _ named => named
  filled := fun _ _ detached live => nomatch detached.symm.trans live

end Tables

section Heap

theorem heeds_of_aged {h : Heap} (formed : s.Formed) (aged : s.heap.Aged h) :
    s.Heeds { s with heap := h } where
  formed :=
    { heap := aged.wellFormed
      ordered := formed.ordered
      paired := fun p q r proxy => formed.paired p q r (aged.proxy p q proxy)
      enlisted := by
        refine enlisted_of_same formed.enlisted rfl ?_ ?_
        · exact fun x _ ⟨_, _, proxy, _⟩ => Heap.isAlive_of_proxy? proxy
        · exact fun x ⟨q, r, proxy, record⟩ => ⟨q, r, aged.proxy x q proxy, record⟩ }
  detached := fun _ detached => detached
  named := fun _ _ => named_of_aged aged
  filled := fun _ _ detached live => nomatch detached.symm.trans live

theorem heeds_mutate (formed : s.Formed) (m : Mutation) :
    s.Heeds { s with heap := s.heap.mutate m } :=
  heeds_of_aged formed (Heap.aged_mutate formed.heap m)

theorem heeds_collect (formed : s.Formed) (extra : List ObjectId) :
    s.Heeds { s with heap := (s.heap.collect extra).state } :=
  heeds_of_aged formed (Heap.aged_sweep formed.heap _)

theorem heeds_nativeCollect (formed : s.Formed) : s.Heeds s.nativeCollect.state :=
  heeds_collect formed _

/-- A new proxy has no record. -/
theorem heeds_of_receives {j : ImportKey} {made : Except Fault ObjectId} (formed : s.Formed)
    (receives : s.Receives j made s') : s.Heeds s' where
  formed :=
    { heap := receives.wellFormed formed.heap
      ordered := receives.exports ▸ formed.ordered
      paired := fun id q r proxy record => by
        rcases receives.proxy formed.heap id q proxy with old | ⟨-, rfl⟩
        · exact formed.paired id q r old record
        · cases record
      enlisted := fun id ⟨q, r, proxy, record⟩ => by
        rcases receives.proxy formed.heap id q proxy with old | ⟨-, rfl⟩
        · obtain ⟨n, entry, alive⟩ := mem_liveProxies.1 (formed.enlisted id ⟨q, r, old, record⟩)
          exact mem_liveProxies.2 ⟨n, receives.entry entry alive, Heap.isAlive_of_proxy? proxy⟩
        · cases record }
  detached := fun _ detached => receives.exports ▸ detached
  named := fun _ _ => receives.named formed.heap
  filled := fun k o detached live => by
    rw [receives.exports, detached] at live
    cases live

theorem heeds_allocProxy (formed : s.Formed) (j : ImportKey) :
    s.Heeds { s with heap := (s.heap.alloc (.proxy j)).state } := by
  rcases s.heap.state_alloc (.proxy j) with same | same
  · rw [same]
    have proxy : ∀ id q r, (s.heap.place (.proxy j)).2.proxy? id = some q → q.record = some r →
        s.heap.proxy? id = some q := by
      intro id q r found record
      simp only [Heap.proxy?, Heap.get?_place _ formed.heap] at found
      split at found
      · cases found
        cases record
      · exact found
    refine ⟨⟨Heap.wellFormed_place _ formed.heap, formed.ordered, ?_, ?_⟩, fun _ detached => detached,
      ?_, fun k x detached live => ?_⟩
    · exact fun id q r found record => formed.paired id q r (proxy id q r found record) record
    · refine enlisted_of_same formed.enlisted rfl ?_ ?_
      · rintro x - ⟨q, r, found, -⟩
        exact Heap.isAlive_of_proxy? found
      · rintro x ⟨q, r, found, record⟩
        exact ⟨q, r, proxy x q r found record, record⟩
    · intro k x named
      refine named.imp_right ?_
      rintro ⟨id, q, r, found, record, member⟩
      exact ⟨id, q, r, proxy id q r found record, record, member⟩
    · cases detached.symm.trans live
  · rw [same]
    exact formed.heeds

end Heap

section Values

theorem heeds_share (formed : s.Formed) (id : ObjectId) : s.Heeds (s.share id).state := by
  unfold share
  split
  · cases answer : (s.exports.share id).answer with
    | error f =>
        exact heeds_of_mends formed (mends_of_spends (Exports.spends_of_share_error answer).1)
    | ok k =>
        obtain ⟨fills, source⟩ := Exports.fills_share formed.ordered answer
        exact heeds_of_fills formed fills source
  · exact formed.heeds

theorem heeds_encode (formed : s.Formed) (v : Value) : s.Heeds (s.encode v).state := by
  rcases s.encode_cases formed.ordered v with ⟨mends, -⟩ |
      ⟨o, k, exports, -, -, -, shared, -, state, rfl, -⟩
  · exact heeds_of_mends formed mends
  · obtain ⟨fills, source⟩ := Exports.fills_share formed.ordered shared
    exact state ▸ heeds_of_fills formed fills source

theorem heeds_decode (formed : s.Formed) (parcel : Parcel) : s.Heeds (s.decode parcel).state := by
  by_cases exported : ∃ k, parcel = .exported k
  · obtain ⟨k, rfl⟩ := exported
    exact heeds_of_receives formed (s.receives_proxyFor k.across)
  · exact heeds_of_mends formed (s.mends_decode formed.ordered fun k same => exported ⟨k, same⟩)

theorem heeds_repairProxy (formed : s.Formed) (p : ObjectId) :
    s.Heeds (s.repairProxy p).state := by
  rcases s.repairProxy_cases p with ⟨f, -, -, same⟩ | ⟨-, repairs⟩
  · rw [same]
    exact formed.heeds
  · exact heeds_of_mends formed repairs.mends

theorem heeds_repairAll (formed : s.Formed) : s.Heeds s.repairAll.state := by
  rcases s.repairAll_cases with ⟨f, -, -, same⟩ | ⟨-, repairs, -⟩
  · rw [same]
    exact formed.heeds
  · exact heeds_of_mends formed repairs.mends

end Values

end Side

end TwinHeap
