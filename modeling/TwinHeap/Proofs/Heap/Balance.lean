import TwinHeap.Proofs.Heap.Histories
import TwinHeap.Proofs.Heap.Marks

/-! The counter and the free list of a heap agree with its cells in every history, and a native
collection accounts for every object. -/
namespace TwinHeap.Heap

/-- The cells in use, in ascending order. -/
def occupied (h : Heap) : List Nat :=
  (List.range h.capacity).filter fun slot => (h.occupant? slot).isSome

/-- The counter counts the cells in use, and the free list has the other cells, each once. -/
structure Balanced (h : Heap) : Prop where
  live : h.live = h.occupied.length
  free : ∀ slot, slot ∈ h.free ↔ slot < h.capacity ∧ h.occupant? slot = none
  nodup : h.free.Nodup

variable {h : Heap} {slot : Nat}

theorem balanced_empty : Balanced {} where
  live := rfl
  free := fun slot => by simp [capacity]
  nodup := List.nodup_nil

theorem mem_occupied : slot ∈ h.occupied ↔ (h.occupant? slot).isSome = true := by
  simp only [occupied, List.mem_filter, List.mem_range]
  exact and_iff_right_of_imp lt_capacity_of_occupant?

theorem nodup_occupied (h : Heap) : h.occupied.Nodup := List.nodup_range.filter _

theorem Balanced.wellFormed (balanced : h.Balanced) : h.WellFormed where
  empty := fun slot member => by
    obtain ⟨below, vacant⟩ := (balanced.free slot).1 member
    have hc := Array.getElem?_eq_getElem below
    refine ⟨h.cells[slot], hc, ?_⟩
    simpa only [occupant?, hc, Option.bind_some] using vacant
  nodup := balanced.nodup

section Place

variable (o : Object)

theorem mem_free_place (hw : h.WellFormed) :
    slot ∈ (h.place o).2.free ↔ slot ∈ h.free ∧ slot ≠ (h.place o).1.slot := by
  unfold place
  split
  · rename_i n free e
    have apart := hw.nodup
    rw [e, List.nodup_cons] at apart
    simp only [e, List.mem_cons]
    constructor
    · exact fun member => ⟨.inr member, fun same => apart.1 (same ▸ member)⟩
    · rintro ⟨first | later, other⟩
      · exact (other first).elim
      · exact later
  · rename_i e
    simp only [e, List.not_mem_nil, false_and]

theorem lt_capacity_place (hw : h.WellFormed) :
    slot < (h.place o).2.capacity ↔ slot < h.capacity ∨ slot = (h.place o).1.slot := by
  unfold place
  split
  · rename_i n free e
    obtain ⟨c, hc, -⟩ := hw.empty n (e ▸ List.mem_cons_self)
    have below : n < h.capacity := (Array.getElem?_eq_some_iff.1 hc).1
    simp only [capacity, Array.size_modify]
    exact (or_iff_left_of_imp fun same => same ▸ below).symm
  · simp only [capacity, Array.size_push]
    exact Nat.lt_succ_iff_lt_or_eq

theorem live_place (h : Heap) : (h.place o).2.live = h.live + 1 := by
  unfold place
  split <;> rfl

theorem balanced_place (balanced : h.Balanced) : (h.place o).2.Balanced where
  live := by
    have perm : (h.place o).2.occupied.Perm ((h.place o).1.slot :: h.occupied) := by
      refine (List.perm_ext_iff_of_nodup (nodup_occupied _) ?_).2 fun slot => ?_
      · refine List.nodup_cons.2 ⟨fun member => ?_, nodup_occupied h⟩
        rw [mem_occupied, vacant_place _ balanced.wellFormed] at member
        cases member
      · rw [mem_occupied, occupant?_place _ balanced.wellFormed, List.mem_cons, mem_occupied]
        split
        · rename_i same
          exact iff_of_true rfl (.inl same)
        · rename_i other
          exact (or_iff_right other).symm
    rw [live_place, balanced.live, perm.length_eq, List.length_cons]
  free := fun slot => by
    rw [mem_free_place o balanced.wellFormed, balanced.free,
      lt_capacity_place o balanced.wellFormed, occupant?_place _ balanced.wellFormed]
    split
    · rename_i same
      exact iff_of_false (fun both => both.2 same) fun both => nomatch both.2
    · rename_i other
      rw [or_iff_left other, and_iff_left other]
  nodup := (wellFormed_place o balanced.wellFormed).nodup

end Place

/-- What is in the cells does not matter, only which of them are in use. -/
theorem Balanced.congr {h' : Heap} (balanced : h.Balanced) (live : h'.live = h.live)
    (free : h'.free = h.free) (capacity : h'.capacity = h.capacity)
    (same : ∀ slot, (h'.occupant? slot).isSome = (h.occupant? slot).isSome) : h'.Balanced where
  live := by
    rw [live, balanced.live, occupied, occupied, capacity]
    simp only [same]
  free := fun slot => by
    rw [free, balanced.free, capacity, ← Option.not_isSome_iff_eq_none,
      ← Option.not_isSome_iff_eq_none, same]
  nodup := free ▸ balanced.nodup

theorem balanced_put (balanced : h.Balanced) {id : ObjectId} {o : Object}
    (found : h.get? id = some o) (new : Object) : (h.put id.slot new).Balanced := by
  refine balanced.congr rfl rfl Array.size_modify fun slot => ?_
  rw [occupant?_put found]
  split
  · rename_i same
    rw [same, (get?_eq_some_iff.1 found).1]
    rfl
  · rfl

section Sweep

variable (marks : SlotSet)

theorem mem_unmarked_iff :
    slot ∈ h.unmarked marks ↔
      (h.occupant? slot).isSome = true ∧ marks.contains slot = false := by
  rw [mem_unmarked, occupant?]
  cases h.cells[slot]? with
  | none => simp
  | some c => simp

theorem mem_occupied_sweep :
    slot ∈ (h.sweep marks).2.occupied ↔
      (h.occupant? slot).isSome = true ∧ marks.contains slot = true := by
  rw [mem_occupied, occupant?_sweep]
  split
  · rename_i marked
    exact (and_iff_left marked).symm
  · rename_i unmarked
    exact iff_of_false (fun none => nomatch none) fun both => unmarked both.2

/-- The objects of before are the ones that are lost and the ones that are left. -/
theorem occupied_perm_sweep (h : Heap) :
    h.occupied.Perm (h.unmarked marks ++ (h.sweep marks).2.occupied) := by
  refine (List.perm_ext_iff_of_nodup (nodup_occupied h) ?_).2 fun slot => ?_
  · refine List.nodup_append.2 ⟨nodup_unmarked marks, nodup_occupied _, ?_⟩
    rintro slot lost other left rfl
    have unmarked := ((mem_unmarked_iff marks).1 lost).2
    rw [((mem_occupied_sweep marks).1 left).2] at unmarked
    cases unmarked
  · rw [mem_occupied, List.mem_append, mem_unmarked_iff, mem_occupied_sweep, ← and_or_left]
    exact (and_iff_left (marks.contains slot).eq_false_or_eq_true.symm).symm

theorem survivors_eq (h : Heap) : h.survivors marks = (h.sweep marks).2.occupied.length := by
  have perm : ((h.cells.toList.zipIdx.filter fun e =>
      e.1.occupant.isSome && marks.contains e.2).map Prod.snd).Perm (h.sweep marks).2.occupied := by
    refine (List.perm_ext_iff_of_nodup ?_ (nodup_occupied _)).2 fun slot => ?_
    · exact (nodup_numbers h).sublist (List.filter_sublist.map Prod.snd)
    · simp only [List.mem_map, List.mem_filter, Prod.exists, exists_eq_right,
        List.mem_zipIdx_iff_getElem?, Array.getElem?_toList, Bool.and_eq_true]
      rw [mem_occupied_sweep, occupant?]
      cases h.cells[slot]? with
      | none => simp
      | some c => simp
  rw [← perm.length_eq, List.length_map, ← List.countP_eq_length_filter]
  rfl

/-- A sweep counts every object once, as kept or as lost. -/
theorem marked_add_freed (h : Heap) :
    (h.sweep marks).1.marked + (h.sweep marks).1.freed = h.occupied.length := by
  rw [(occupied_perm_sweep marks h).length_eq, List.length_append, Nat.add_comm]
  exact congrArg _ (survivors_eq marks h)

theorem balanced_sweep (balanced : h.Balanced) : (h.sweep marks).2.Balanced where
  live := by
    have left : (h.sweep marks).2.live = h.live - (h.unmarked marks).length := rfl
    rw [left, balanced.live, (occupied_perm_sweep marks h).length_eq, List.length_append,
      Nat.add_sub_cancel_left]
  free := fun slot => by
    have listed : slot ∈ (h.sweep marks).2.free ↔ slot ∈ h.unmarked marks ∨ slot ∈ h.free := by
      show slot ∈ (h.unmarked marks).reverse ++ h.free ↔ _
      rw [List.mem_append, List.mem_reverse]
    have size : (h.sweep marks).2.capacity = h.capacity := Array.size_mapIdx
    rw [listed, mem_unmarked_iff, balanced.free, size, occupant?_sweep]
    cases held : h.occupant? slot with
    | none => simp
    | some o =>
        have below : slot < h.capacity := lt_capacity_of_occupant? (by rw [held]; rfl)
        simp [below]
  nodup := (wellFormed_sweep marks balanced.wellFormed).nodup

end Sweep

theorem balanced_update (balanced : h.Balanced) (event : HeapEvent) :
    (h.update event).Balanced := by
  rcases h.update_cases event with
    ⟨cells, free, live⟩ | ⟨o, e⟩ | ⟨id, o, new, found, e⟩ | ⟨marks, e⟩
  · exact balanced.congr live free (congrArg Array.size cells) fun slot => by
      rw [occupant?_of_cells_eq cells]
  · exact e ▸ balanced_place o balanced
  · exact e ▸ balanced_put balanced found new
  · exact e ▸ balanced_sweep marks balanced

theorem balanced_history (balanced : h.Balanced) (events : List HeapEvent) :
    (h.history events).Balanced := by
  induction events generalizing h with
  | nil => exact balanced
  | cons event rest ih => exact ih (balanced_update balanced event)

/-- After any history a native collection keeps exactly what is held by a root or by `extra`, under
its name and with its content; every other object is lost, no name comes back to life, the roots are
not touched, and the counts and the free list are exact before and after. -/
theorem collect_exact (events : List HeapEvent) (extra : List ObjectId) :
    let h := Heap.history {} events
    let result := h.collect extra
    (∀ id o, result.state.get? id = some o ↔ h.get? id = some o ∧ h.Held extra id) ∧
    (∀ id, result.state.isAlive id = true ↔ h.isAlive id = true ∧ h.Held extra id) ∧
    result.state.roots = h.roots ∧ result.state.freeRoots = h.freeRoots ∧
    result.answer.marked + result.answer.freed = h.live ∧
    result.answer.marked = result.state.live ∧
    h.Balanced ∧ result.state.Balanced := by
  intro h result
  have balanced : h.Balanced := balanced_history balanced_empty events
  have swept : result.state.Balanced := balanced_sweep (h.marks extra) balanced
  refine ⟨fun id o => ?_, fun id => ?_, rfl, rfl, ?_, ?_, balanced, swept⟩
  · rw [get?_collect]
    split
    · rename_i held
      exact (and_iff_left held).symm
    · rename_i loose
      exact iff_of_false (fun none => nomatch none) fun both => loose both.2
  · exact isAlive_collect.trans (and_iff_right_of_imp Held.alive).symm
  · exact (marked_add_freed (h.marks extra) h).trans balanced.live.symm
  · exact (survivors_eq (h.marks extra) h).trans swept.live.symm

end TwinHeap.Heap
