import TwinHeap.Proofs.Table.Sharing

/-! Which slots are up for reuse. Only the release of a live slot, and the end of a repair, put slots
on the free list. -/
namespace TwinHeap.Exports

variable {t : Exports} {k j : ExportKey} {o : ObjectId}

theorem mem_free_assign (member : j ∈ (t.assign o).state.free) : j ∈ t.free := by
  unfold assign at member
  split at member
  · rename_i listed
    rw [listed]
    exact List.mem_cons_of_mem _ member
  · split at member <;> exact member

/-- An object without a slot gets one that is up for reuse, or a new one. -/
theorem vacant_assign (assigned : (t.assign o).answer = .ok k) : k ∈ t.free ∨ t.size ≤ k.number := by
  unfold assign at assigned
  split at assigned
  · rename_i listed
    cases assigned
    rw [listed]
    exact .inl List.mem_cons_self
  · split at assigned
    · cases assigned
      exact .inr (Nat.le_refl t.size)
    · cases assigned

theorem mem_free_settle (member : j ∈ (t.settle o).state.free) : j ∈ t.free := by
  unfold settle at member
  split at member
  · exact member
  · exact mem_free_assign member

theorem mem_free_share (member : j ∈ (t.share o).state.free) : j ∈ t.free := by
  rcases t.share_cases o with ⟨r, spends, state, -⟩ | ⟨n, -, -, spends⟩ |
      ⟨n, r, -, -, -, spends, state⟩
  · rw [state] at member
    exact spends.free ▸ mem_free_settle member
  · exact spends.free ▸ member
  · rw [state] at member
    exact spends.free ▸ member

/-- A slot that is not in use is handed out only if it is up for reuse or new. -/
theorem vacant_share (ordered : t.Ordered) (shared : (t.share o).answer = .ok k)
    (unused : ¬ t.Used k) : k ∈ t.free ∨ t.size ≤ k.number := by
  rcases t.share_cases o with ⟨r, spends, -, answer⟩ | ⟨n, answer, live, -⟩ |
      ⟨n, r, answer, -, detached, -, -⟩
  · rw [answer] at shared
    unfold settle at shared
    split at shared
    · rename_i n place
      cases shared
      have live := (spends.ordered ordered).places o k place
      exact (unused (.inr ⟨o, spends.entry? k ▸ live⟩)).elim
    · rw [← spends.free, ← spends.size]
      exact vacant_assign shared
  · rw [answer] at shared
    cases shared
    exact (unused (.inr ⟨o, live⟩)).elim
  · rw [answer] at shared
    cases shared
    exact (unused (.inl detached)).elim

theorem mem_free_release (member : j ∈ (t.release k).2.free) :
    j ∈ t.free ∨ j = k ∧ ∃ x, t.entry? k = some (.live x) := by
  unfold release at member
  split at member
  · rename_i x live
    rcases List.mem_cons.1 member with rfl | old
    · exact .inr ⟨rfl, x, live⟩
    · exact .inl old
  · exact .inl member
  · exact .inl member

/-- Of the slots that are released, those that held an object are up for reuse at once. -/
theorem mem_free_releaseAll {keys : List ExportKey} (member : j ∈ (t.releaseAll keys).free) :
    j ∈ t.free ∨ j ∈ keys ∧ ∃ x, t.entry? j = some (.live x) := by
  induction keys generalizing t with
  | nil => exact .inl member
  | cons k keys ih =>
      rcases ih (t := (t.release k).2) member with now | ⟨later, x, live⟩
      · rcases mem_free_release now with old | ⟨rfl, live⟩
        · exact .inl old
        · exact .inr ⟨List.mem_cons_self, live⟩
      · rw [entry?_release] at live
        split at live
        · cases live
        · exact .inr ⟨List.mem_cons_of_mem k later, x, live⟩

theorem free_reinstate (t : Exports) (k : ExportKey) : (t.reinstate k).state.free = t.free := by
  rcases t.reinstate_cases k with ⟨-, same⟩ | ⟨o, r, -, -, -, spends, state⟩
  · rw [same]
  · rw [state]
    exact spends.free

end TwinHeap.Exports
