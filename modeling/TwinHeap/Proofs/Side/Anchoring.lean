import TwinHeap.Proofs.Side.Crossing
import TwinHeap.Proofs.Side.Holding
import TwinHeap.Proofs.Side.Respect

/-! Whether the objects of live slots are alive. A live slot and a record keep their objects from the
native collector, but the notes of the last unlinking do not. So what comes back from a record is
alive, and an object that is exported is alive, but what comes back from the notes may be gone. -/
namespace TwinHeap

theorem Heap.isAlive_place_of_isAlive {h : Heap} (hw : h.WellFormed) (o : Object) {x : ObjectId}
    (alive : h.isAlive x = true) : (h.place o).2.isAlive x = true := by
  rw [isAlive, get?_place o hw]
  split
  · rfl
  · exact alive

theorem Heap.isAlive_mutate {h : Heap} (hw : h.WellFormed) (m : Mutation) {x : ObjectId}
    (alive : h.isAlive x = true) : (h.mutate m).isAlive x = true := by
  rcases h.mutate_cases m with ⟨cells, -⟩ | ⟨o, -, e⟩ | ⟨id, o, new, found, -, -, e⟩
  · rwa [isAlive, get?_of_cells_eq cells]
  · exact e ▸ isAlive_place_of_isAlive hw o alive
  · rw [e, isAlive, get?_put found]
    split
    · rfl
    · exact alive

namespace Side

variable {s s' : Side} {k : ExportKey} {o x : ObjectId}

/-- The objects of the live slots are alive. -/
def Firm (s : Side) : Prop :=
  ∀ k o, s.exports.entry? k = some (.live o) → s.heap.isAlive o = true

/-- So are those that a record can bring back. -/
structure Anchored (s : Side) : Prop where
  firm : s.Firm
  recorded : ∀ k x, s.Recorded k x → s.heap.isAlive x = true

/-- A parcel that comes home to the slot brings an object back that has been collected. -/
def Revives (s : Side) (k : ExportKey) : Prop :=
  ∃ o, (s.exports.reinstate k).answer = some o ∧ s.heap.isAlive o = false

/-- The parcel revives nothing. -/
def Harmless (s : Side) (parcel : Parcel) : Prop := ∀ k, parcel = .returned k → ¬ s.Revives k.across

theorem anchored_mutate (sound : s.Sound) (anchored : s.Anchored) (m : Mutation) :
    Anchored { s with heap := s.heap.mutate m } where
  firm := fun k o live => Heap.isAlive_mutate sound.heap m (anchored.firm k o live)
  recorded := fun k x recorded => Heap.isAlive_mutate sound.heap m
    (anchored.recorded k x (recorded_of_aged (Heap.aged_mutate sound.heap m) k x recorded))

theorem anchored_tidied (anchored : s.Anchored) (keys : List ExportKey) :
    (s.tidied keys).Anchored where
  firm := fun k o live => anchored.firm k o (entry?_tidied live fun same => nomatch same)
  recorded := anchored.recorded

/-- The collector starts from the live slots, and goes from a proxy to what its record names. -/
theorem anchored_nativeCollect (sound : s.Sound) (anchored : s.Anchored) :
    s.nativeCollect.state.Anchored where
  firm := fun _ _ live =>
    isAlive_nativeCollect.2 (held_of_live live (anchored.firm _ _ live))
  recorded := fun k x recorded => by
    obtain ⟨p, named⟩ := recorded
    obtain ⟨q, r, proxy, record, member⟩ := named
    have before : s.heap.RecordOf p k x :=
      ⟨q, r, (aged_nativeCollect sound).proxy p q proxy, record, member⟩
    have held : s.Held p := isAlive_nativeCollect.1 (Heap.isAlive_of_proxy? proxy)
    exact isAlive_nativeCollect.2
      (held.child (Heap.mem_children_of_recordOf before) (anchored.recorded k x ⟨p, before⟩))

theorem Repairs.anchored {ps : List ObjectId} (repairs : s.Repairs ps s') (anchored : s.Anchored) :
    s'.Anchored where
  firm := fun k o live => by
    rw [repairs.heap.isAlive]
    rcases repairs.entry k with ⟨x, -, named, filled⟩ | ⟨same, -⟩
    · rw [filled] at live
      cases live
      exact anchored.recorded k o (recorded_of_recordedBy named)
    · exact anchored.firm k o (same ▸ live)
  recorded := fun k x recorded => by
    rw [repairs.heap.isAlive]
    exact anchored.recorded k x (repairs.mends.recorded k x recorded)

theorem Severed.anchored {g : IncomingGraph} (severed : s.Severed g s') (firm : s.Firm) :
    s'.Anchored where
  firm := fun k o live => by
    rw [severed.heap.isAlive]
    have entry := (severed.entry k).symm.trans live
    split at entry
    · cases entry
    · exact firm k o entry
  recorded := fun k x recorded => by
    rw [severed.heap.isAlive]
    exact firm k x (Exports.object?_eq_some_iff.1 (severed.named (.inr recorded)))

theorem Manages.anchored {g : IncomingGraph} {forced : Bool}
    (manages : Manager.Manages s g forced s') (sound : s.Sound) (anchored : s.Anchored) :
    s'.Anchored := by
  cases manages with
  | repairFirst repairs _ severed =>
      have after := severed.anchored (repairs.anchored anchored).firm
      exact ⟨after.firm, after.recorded⟩
  | severFirst severed repairs =>
      exact repairs.anchored
        (anchored_nativeCollect (severed.sound sound) (severed.anchored anchored.firm))

theorem anchored_collectText (sound : s.Sound) (anchored : s.Anchored) (m : Manager) (forced : Bool)
    (text : String) (bare : forced = true → s.Unrecorded) :
    (m.collectText s forced text).state.2.Anchored := by
  rcases m.collectText_cases forced text sound bare with ⟨f, -, -, state⟩ | ⟨g, incoming, -, -, -, manages⟩
  · rw [state]
    exact anchored
  · exact Manages.anchored manages sound anchored

/-- An object gets a slot only while it is alive. -/
theorem anchored_share (sound : s.Sound) (anchored : s.Anchored) (o : ObjectId) :
    (s.share o).state.Anchored := by
  unfold share
  split
  · rename_i alive
    refine ⟨?_, anchored.recorded⟩
    intro k x live
    cases answer : (s.exports.share o).answer with
    | error f =>
        have spends := (Exports.spends_of_share_error answer).1
        exact anchored.firm k x ((spends.entry? k).symm.trans live)
    | ok j =>
        have entry := ((Exports.fills_share sound.ordered answer).1.entry k).symm.trans live
        split at entry
        · cases entry
          exact alive
        · exact anchored.firm k x entry
  · exact anchored

theorem anchored_repairProxy (anchored : s.Anchored) (p : ObjectId) :
    (s.repairProxy p).state.Anchored := by
  rcases s.repairProxy_cases p with ⟨f, -, -, same⟩ | ⟨-, repairs⟩
  · exact same.symm ▸ anchored
  · exact repairs.anchored anchored

theorem anchored_repairAll (anchored : s.Anchored) : s.repairAll.state.Anchored := by
  rcases s.repairAll_cases with ⟨f, -, -, same⟩ | ⟨-, repairs, -⟩
  · exact same.symm ▸ anchored
  · exact repairs.anchored anchored

theorem anchored_encode (sound : s.Sound) (anchored : s.Anchored) (v : Value) :
    (s.encode v).state.Anchored := by
  cases v with
  | nil => exact anchored
  | int n => exact anchored
  | ref o =>
      unfold encode
      dsimp only
      split
      · unfold handBack
        split
        · exact anchored
        · exact anchored_repairProxy anchored o
      · exact anchored_share sound anchored o

theorem isAlive_proxyFor (hw : s.heap.WellFormed) (k : ImportKey) (alive : s.heap.isAlive x = true) :
    (s.proxyFor k).state.heap.isAlive x = true := by
  rcases s.imports.proxyFor_cases s.heap k with ⟨-, -, -, -, state⟩ |
      ⟨-, -, -, state⟩ | ⟨-, -, -, state⟩
  · simpa only [proxyFor, Outcome.into, state] using alive
  · simpa only [proxyFor, Outcome.into, state] using
      Heap.isAlive_place_of_isAlive hw (.proxy k) alive
  · simpa only [proxyFor, Outcome.into, state] using alive

theorem anchored_proxyFor (sound : s.Sound) (anchored : s.Anchored) (k : ImportKey) :
    (s.proxyFor k).state.Anchored := by
  have received := s.receives_proxyFor k
  refine ⟨fun n o live => ?_, fun n x recorded => ?_⟩
  · exact isAlive_proxyFor sound.heap k (anchored.firm n o (received.exports ▸ live))
  · exact isAlive_proxyFor sound.heap k
      (anchored.recorded n x (received.recorded sound.heap n x recorded))

theorem anchored_decode (sound : s.Sound) (anchored : s.Anchored) {parcel : Parcel}
    (harmless : s.Harmless parcel) : (s.decode parcel).state.Anchored := by
  cases parcel with
  | nil => exact anchored
  | int n => exact anchored
  | exported k => exact anchored_proxyFor sound anchored k.across
  | returned k =>
      show (s.recover k.across).state.Anchored
      unfold recover
      split
      · dsimp only
        rcases s.exports.reinstate_cases k.across with ⟨none, -⟩ |
            ⟨o, r, some, -, detached, forgets, state⟩
        · rw [none]
          exact anchored_repairAll anchored
        · rw [some]
          refine ⟨fun n x live => ?_, anchored.recorded⟩
          dsimp only at live
          rw [state, Exports.entry?_restore ((forgets.entry? _).trans detached)] at live
          split at live
          · cases live
            cases alive : s.heap.isAlive o with
            | true => rfl
            | false => exact (harmless k rfl ⟨o, some, alive⟩).elim
          · exact anchored.firm n x ((forgets.entry? n).symm.trans live)
      · exact anchored

section Forgotten

/-- Nothing is noted, so that no slot is filled from the notes. -/
def Forgotten (s : Side) : Prop := ∀ x, s.exports.note? x = none

theorem forgotten_of_note (forgotten : s.Forgotten)
    (note : ∀ x k, s'.exports.note? x = some k → s.exports.note? x = some k) : s'.Forgotten := by
  intro x
  cases noted : s'.exports.note? x with
  | none => rfl
  | some k => exact nomatch (forgotten x).symm.trans (note x k noted)

theorem Forgotten.not_revives (forgotten : s.Forgotten) (k : ExportKey) : ¬ s.Revives k := by
  rintro ⟨o, answer, -⟩
  rcases s.exports.reinstate_cases k with ⟨empty, -⟩ | ⟨x, r, -, noted, -⟩
  · exact nomatch empty.symm.trans answer
  · exact nomatch (forgotten x).symm.trans noted

theorem forgotten_tidied (sound : s.Sound) (forgotten : s.Forgotten) (keys : List ExportKey) :
    (s.tidied keys).Forgotten := by
  intro x
  show (s.exports.releaseAll keys).note? x = none
  rw [Exports.note?, (Exports.ordered_releaseAll sound.ordered keys).2.2]
  exact forgotten x

theorem forgotten_encode (sound : s.Sound) (forgotten : s.Forgotten) (v : Value) :
    (s.encode v).state.Forgotten := by
  rcases s.encode_cases sound.ordered v with ⟨mends, -⟩ |
      ⟨o, k, exports, -, -, -, -, -, state, -, fills⟩
  · exact forgotten_of_note forgotten mends.note
  · rw [state]
    exact forgotten_of_note forgotten fills.note

theorem forgotten_decode (sound : s.Sound) (forgotten : s.Forgotten) (parcel : Parcel) :
    (s.decode parcel).state.Forgotten := by
  by_cases exported : ∃ k, parcel = .exported k
  · obtain ⟨k, rfl⟩ := exported
    intro x
    exact (congrArg (fun t => Exports.note? t x) (s.receives_proxyFor k.across).exports).trans
      (forgotten x)
  · have mends := s.mends_decode sound.ordered fun k same => exported ⟨k, same⟩
    exact forgotten_of_note forgotten mends.note

/-- A run of the manager that ends with a repair leaves no notes. -/
theorem forgotten_collectForced (sound : s.Sound) (forgotten : s.Forgotten) (m : Manager)
    (text : String) (bare : s.Unrecorded) : (m.collectText s true text).state.2.Forgotten := by
  unfold Manager.collectText
  split
  · exact forgotten
  · simp only [if_true, Manager.collectForced]
    split
    · exact forgotten
    · rename_i incoming _
      obtain ⟨-, repair, -, state⟩ := m.forceNative_eq incoming sound bare
      rw [state]
      exact fun _ => rfl

end Forgotten

/-- A parcel that revives an object makes a live slot of it, and the object is handed out. -/
theorem decode_of_revives {k : ImportKey} (revives : s.Revives k.across) :
    ∃ o, (s.decode (.returned k)).answer = .ok (.ref o) ∧
      (s.decode (.returned k)).state.exports.entry? k.across = some (.live o) ∧
      (s.decode (.returned k)).state.heap.isAlive o = false := by
  obtain ⟨o, answer, gone⟩ := revives
  rcases s.exports.reinstate_cases k.across with ⟨empty, -⟩ |
      ⟨x, r, found, -, detached, forgets, state⟩
  · cases empty.symm.trans answer
  · cases found.symm.trans answer
    have recovered : s.recover k.across =
        { state := { s with exports := r.restore k.across o }
          answer := .ok ()
          notices := (s.exports.reinstate k.across).notices } := by
      simp only [recover, detached, if_true, found, state]
    have entry : Exports.entry? (r.restore k.across o) k.across = some (.live o) := by
      rw [Exports.entry?_restore ((forgets.entry? _).trans detached), if_pos rfl]
    have object := Exports.object?_eq_some_iff.2 entry
    refine ⟨o, ?_, ?_, ?_⟩
    · simp only [decode, recovered, object]
    · simp only [decode, recovered, entry]
    · simp only [decode, recovered, gone]

/-- A reference that arrives is alive if the live slots are firm afterwards. -/
theorem isAlive_of_decode (sound : s.Sound) {parcel : Parcel} (firm : (s.decode parcel).state.Firm)
    (answered : (s.decode parcel).answer = .ok (.ref x)) :
    (s.decode parcel).state.heap.isAlive x = true := by
  cases parcel with
  | nil => cases answered
  | int n => cases answered
  | exported k =>
      exact (s.receives_proxyFor k.across).alive sound.heap x (decode_exported_eq_ok answered)
  | returned k =>
      obtain ⟨o, holds, same⟩ := decode_returned_eq_ok answered
      cases same
      exact firm k.across x (Exports.object?_eq_some_iff.1 holds)

end Side

end TwinHeap
