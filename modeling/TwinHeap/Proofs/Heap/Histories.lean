import TwinHeap.Heap.History
import TwinHeap.Proofs.Heap.Change

/-! What one event makes of a heap, and what holds along every history. -/
namespace TwinHeap.Heap

variable {h : Heap}

/-- An event moves roots, puts an object into a cell, rewrites a live one or sweeps. -/
theorem update_cases (h : Heap) (event : HeapEvent) :
    ((h.update event).cells = h.cells ∧ (h.update event).free = h.free ∧
      (h.update event).live = h.live) ∨
    (∃ o, h.update event = (h.place o).2) ∨
    (∃ id o new, h.get? id = some o ∧ h.update event = h.put id.slot new) ∨
    ∃ marks, h.update event = (h.sweep marks).2 := by
  cases event with
  | mutate m =>
      rcases h.mutate_cases m with same | ⟨o, -, e⟩ | ⟨id, o, new, found, -, -, e⟩
      · exact .inl same
      · exact .inr (.inl ⟨o, e⟩)
      · exact .inr (.inr (.inl ⟨id, o, new, found, e⟩))
  | alloc o =>
      rcases h.state_alloc o with made | full
      · exact .inr (.inl ⟨o, made⟩)
      · exact .inl ⟨congrArg cells full, congrArg free full, congrArg live full⟩
  | overwrite id o =>
      by_cases alive : h.isAlive id = true
      · obtain ⟨old, found⟩ := isAlive_iff.1 alive
        exact .inr (.inr (.inl ⟨id, old, o, found, if_pos alive⟩))
      · have same : h.update (.overwrite id o) = h := if_neg alive
        rw [same]
        exact .inl ⟨rfl, rfl, rfl⟩
  | collect extra => exact .inr (.inr (.inr ⟨h.marks extra, rfl⟩))

theorem wellFormed_update (hw : h.WellFormed) (event : HeapEvent) : (h.update event).WellFormed := by
  rcases h.update_cases event with ⟨cells, free, -⟩ | ⟨o, e⟩ | ⟨id, o, new, found, e⟩ | ⟨marks, e⟩
  · exact ⟨by simpa only [cells, free] using hw.empty, free.symm ▸ hw.nodup⟩
  · exact e ▸ wellFormed_place o hw
  · exact e ▸ wellFormed_put hw found new
  · exact e ▸ wellFormed_sweep marks hw

theorem wellFormed_history (hw : h.WellFormed) (events : List HeapEvent) :
    (h.history events).WellFormed := by
  induction events generalizing h with
  | nil => exact hw
  | cons event rest ih => exact ih (wellFormed_update hw event)

end TwinHeap.Heap
