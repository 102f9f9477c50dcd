import TwinHeap.Proofs.Side.Managing

/-! The roots of a side belong to its program. No operation of the side touches them, and the entries
that the program has given back stay entries, so that the next root it asks for is one. Nor does any
operation add a cell that could not be numbered. -/
namespace TwinHeap

namespace Heap

variable {h h' h'' : Heap}

/-- Every free entry is there to be filled. -/
def Rootable (h : Heap) : Prop := ∀ n ∈ h.freeRoots, n < h.roots.size

/-- The heap has no more cells than can be numbered. -/
def Numbered (h : Heap) : Prop := h.capacity ≤ slotLimit

/-- The roots are the same, entry by entry, and the cells can still be numbered. -/
structure KeepsRoots (h h' : Heap) : Prop where
  roots : h'.roots = h.roots
  free : h'.freeRoots = h.freeRoots
  numbered : h.Numbered → h'.Numbered

theorem KeepsRoots.refl (h : Heap) : h.KeepsRoots h := ⟨rfl, rfl, id⟩

theorem KeepsRoots.trans (first : h.KeepsRoots h') (next : h'.KeepsRoots h'') :
    h.KeepsRoots h'' :=
  ⟨next.roots.trans first.roots, next.free.trans first.free,
    fun numbered => next.numbered (first.numbered numbered)⟩

theorem numbered_of_size_eq (same : h'.cells.size = h.cells.size) (numbered : h.Numbered) :
    h'.Numbered :=
  Nat.le_trans (Nat.le_of_eq same) numbered

theorem KeepsRoots.rootable (keeps : h.KeepsRoots h') (rootable : h.Rootable) : h'.Rootable := by
  intro n member
  rw [keeps.free] at member
  rw [keeps.roots]
  exact rootable n member

theorem keepsRoots_place (room : h.hasRoom = true) (o : Object) : h.KeepsRoots (h.place o).2 := by
  unfold place
  split
  · exact ⟨rfl, rfl, numbered_of_size_eq Array.size_modify⟩
  · rename_i none
    have below : h.cells.size < slotLimit := (hasRoom_iff none).1 room
    refine ⟨rfl, rfl, fun _ => ?_⟩
    show (h.cells.push _).size ≤ slotLimit
    rw [Array.size_push]
    exact below

theorem keepsRoots_alloc (h : Heap) (o : Object) : h.KeepsRoots (h.alloc o).state := by
  rcases h.alloc_cases o with ⟨room, made⟩ | ⟨-, made⟩
  · rw [made]
    exact keepsRoots_place room o
  · rw [made]
    exact .refl h

theorem keepsRoots_put (h : Heap) (slot : Nat) (o : Object) : h.KeepsRoots (h.put slot o) :=
  ⟨rfl, rfl, numbered_of_size_eq Array.size_modify⟩

theorem keepsRoots_setRecord (h : Heap) (p : ObjectId) (r : Option RepairRecord) :
    h.KeepsRoots (h.setRecord p r) := by
  unfold setRecord
  split
  · exact h.keepsRoots_put _ _
  · exact .refl h

theorem keepsRoots_clearRecords (h : Heap) (ps : List ObjectId) :
    h.KeepsRoots (h.clearRecords ps) := by
  induction ps generalizing h with
  | nil => exact .refl h
  | cons p ps ih => exact (keepsRoots_setRecord h p none).trans (ih (h.setRecord p none))

theorem keepsRoots_setField (h : Heap) (id : ObjectId) (n : Nat) (v : Value) :
    h.KeepsRoots ((h.setField id n v).toOption.getD h) := by
  unfold setField
  split
  · exact .refl h
  · split
    · exact h.keepsRoots_put _ _
    · exact .refl h

theorem keepsRoots_pushField (h : Heap) (id : ObjectId) (v : Value) :
    h.KeepsRoots ((h.pushField id v).toOption.getD h) := by
  unfold pushField
  split
  · exact .refl h
  · exact h.keepsRoots_put _ _

theorem rootable_addRoot (rootable : h.Rootable) (id : ObjectId) : (h.addRoot id).2.Rootable := by
  unfold addRoot
  split
  · rename_i n free listed
    intro x member
    have below := rootable x (listed ▸ List.mem_cons_of_mem n member)
    simpa using below
  · rename_i listed
    intro x member
    rw [listed] at member
    cases member

theorem rootable_removeRoot (rootable : h.Rootable) (r : RootHandle) :
    (h.removeRoot r).Rootable := by
  unfold removeRoot
  split
  · exact rootable
  · rename_i entry found
    have there : r.number < h.roots.size := (Array.getElem?_eq_some_iff.1 found).1
    have cleared : ∀ n ∈ h.freeRoots, n < (h.roots.setIfInBounds r.number none).size := by
      intro n member
      rw [Array.size_setIfInBounds]
      exact rootable n member
    dsimp only
    split
    · intro n member
      rcases List.mem_cons.1 member with rfl | old
      · exact Nat.lt_of_lt_of_eq there Array.size_setIfInBounds.symm
      · exact cleared n old
    · exact cleared

theorem rootable_mutate (rootable : h.Rootable) (m : Mutation) : (h.mutate m).Rootable := by
  cases m with
  | alloc cls fields => exact (h.keepsRoots_alloc _).rootable rootable
  | allocWeak target => exact (h.keepsRoots_alloc _).rootable rootable
  | setField id n v => exact (h.keepsRoots_setField id n v).rootable rootable
  | pushField id v => exact (h.keepsRoots_pushField id v).rootable rootable
  | addRoot id => exact rootable_addRoot rootable id
  | removeRoot r => exact rootable_removeRoot rootable r
  | setRoot r id =>
      intro n member
      exact Nat.lt_of_lt_of_eq (rootable n member) Array.size_setIfInBounds.symm

end Heap

namespace Side

variable {s : Side}

theorem keepsRoots_proxyFor (s : Side) (k : ImportKey) :
    s.heap.KeepsRoots (s.proxyFor k).state.heap := by
  unfold proxyFor Imports.proxyFor
  split
  · exact .refl s.heap
  · have made := s.heap.keepsRoots_alloc (.proxy k)
    dsimp only
    split
    · exact made
    · exact made

theorem keepsRoots_commitRepair (s : Side) (plan : RepairPlan) :
    s.heap.KeepsRoots (s.commitRepair plan).state.heap :=
  s.heap.keepsRoots_clearRecords plan.proxies

theorem keepsRoots_repairProxy (s : Side) (p : ObjectId) :
    s.heap.KeepsRoots (s.repairProxy p).state.heap := by
  unfold repairProxy
  split
  · exact .refl s.heap
  · exact s.keepsRoots_commitRepair _

theorem keepsRoots_repairAll (s : Side) : s.heap.KeepsRoots s.repairAll.state.heap := by
  unfold repairAll
  split
  · exact .refl s.heap
  · exact s.keepsRoots_commitRepair _

theorem keepsRoots_encode (s : Side) (v : Value) :
    s.heap.KeepsRoots (s.encode v).state.heap := by
  cases v with
  | nil => exact .refl s.heap
  | int n => exact .refl s.heap
  | ref id =>
      unfold encode
      dsimp only
      split
      · unfold handBack
        split
        · exact .refl s.heap
        · exact s.keepsRoots_repairProxy id
      · unfold share
        split <;> exact .refl s.heap

theorem keepsRoots_decode (s : Side) (parcel : Parcel) :
    s.heap.KeepsRoots (s.decode parcel).state.heap := by
  cases parcel with
  | nil => exact .refl s.heap
  | int n => exact .refl s.heap
  | exported k => exact s.keepsRoots_proxyFor k.across
  | returned k =>
      show s.heap.KeepsRoots (s.recover k.across).state.heap
      unfold recover
      split
      · dsimp only
        split
        · exact .refl s.heap
        · exact s.keepsRoots_repairAll
      · exact .refl s.heap

theorem keepsRoots_nativeCollect (s : Side) :
    s.heap.KeepsRoots s.nativeCollect.state.heap :=
  ⟨rfl, rfl, Heap.numbered_of_size_eq Array.size_mapIdx⟩

theorem keepsRoots_attachRecord (s : Side) (p : ObjectId) (r : RepairRecord) :
    s.heap.KeepsRoots (s.attachRecord p r).state.heap := by
  unfold attachRecord
  split
  · exact .refl s.heap
  · dsimp only
    split
    · exact s.heap.keepsRoots_setRecord p _
    · exact s.heap.keepsRoots_setRecord p _

theorem keepsRoots_attachRecords (s : Side) (l : List (ObjectId × RepairRecord)) :
    s.heap.KeepsRoots (s.attachRecords l).state.heap := by
  induction l generalizing s with
  | nil => exact .refl s.heap
  | cons e l ih =>
      have first := s.keepsRoots_attachRecord e.1 e.2
      rw [attachRecords]
      split
      · exact first
      · exact first.trans (ih _)

theorem keepsRoots_sever (s : Side) (plan : CollectionPlan) :
    s.heap.KeepsRoots (Manager.sever s plan).state.heap := by
  have attached := s.keepsRoots_attachRecords plan.records
  unfold Manager.sever
  dsimp only
  split
  · exact attached
  · exact attached

theorem keepsRoots_carryOut (s : Side) (m : Manager) (g : IncomingGraph) (plan : CollectionPlan) :
    s.heap.KeepsRoots (m.carryOut s g plan).state.2.heap := by
  have repaired := s.keepsRoots_commitRepair plan.repair
  have severed := repaired.trans ((s.commitRepair plan.repair).state.finishRepair.keepsRoots_sever plan)
  unfold Manager.carryOut
  dsimp only
  split
  · exact severed
  · exact severed

theorem keepsRoots_forceNative (s : Side) (m : Manager) (g : IncomingGraph) :
    s.heap.KeepsRoots (m.forceNative s g).state.2.heap := by
  have severed := s.keepsRoots_sever (.of s g {})
  have swept := severed.trans (keepsRoots_nativeCollect _)
  have repaired := swept.trans (keepsRoots_repairAll _)
  unfold Manager.forceNative
  dsimp only
  split
  · exact severed
  · split
    · exact repaired
    · exact repaired

theorem keepsRoots_collectText (s : Side) (m : Manager) (forced : Bool) (text : String) :
    s.heap.KeepsRoots (m.collectText s forced text).state.2.heap := by
  unfold Manager.collectText
  split
  · exact .refl s.heap
  · split
    · unfold Manager.collectForced
      split
      · exact .refl s.heap
      · exact s.keepsRoots_forceNative m _
    · unfold Manager.collect
      split
      · exact .refl s.heap
      · split
        · exact .refl s.heap
        · exact s.keepsRoots_carryOut m _ _

end Side

end TwinHeap
