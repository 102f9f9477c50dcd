import TwinHeap.Proofs.Table.Lookups
import TwinHeap.Table.Exports

/-! What the operations of an export table do to the entry of a slot, and what they keep. -/
namespace TwinHeap.Exports

/-- The slot that the last unlinking took from an object. -/
def note? (t : Exports) (o : ObjectId) : Option ExportKey := t.unlinked.bind fun m => m.find? o

/-- A slot in use is live or detached. The other side can still name it. -/
def Used (t : Exports) (k : ExportKey) : Prop :=
  t.entry? k = some .detached ∨ ∃ o, t.entry? k = some (.live o)

/-- The lists of a table agree with its rows. An object can be live in more than one slot; then it
has its place in one of them at most. -/
structure Ordered (t : Exports) : Prop where
  places : ∀ o k, t.keyOf? o = some k → t.entry? k = some (.live o)
  vacant : ∀ k ∈ t.free ++ t.quarantine, t.entry? k = some .free
  nodup : (t.free ++ t.quarantine).Nodup
  size_le : t.size ≤ slotLimit

variable {t : Exports} {k j : ExportKey} {o x : ObjectId}

theorem ordered_empty : Ordered {} where
  places := fun o k found => by cases found
  vacant := fun k member => by cases member
  nodup := List.nodup_nil
  size_le := Nat.zero_le _

theorem object?_eq_some_iff : t.object? k = some o ↔ t.entry? k = some (.live o) := by
  unfold object?
  split <;> simp_all

theorem mem_liveObjects : (k, o) ∈ t.liveObjects ↔ t.entry? k = some (.live o) := by
  simp only [liveObjects, List.mem_filterMap, Prod.exists, Rows.mem_entries]
  constructor
  · rintro ⟨j, e, found, same⟩
    cases e with
    | free => cases same
    | detached => cases same
    | live id =>
        cases same
        exact found
  · intro found
    exact ⟨k, .live o, found, rfl⟩

/-- The slots of the live objects are the live slots. -/
theorem mem_map_fst_liveObjects :
    k ∈ t.liveObjects.map Prod.fst ↔ ∃ o, t.entry? k = some (.live o) := by
  simp only [List.mem_map, Prod.exists, exists_and_right, exists_eq_right, mem_liveObjects]

theorem ascending_liveObjects (t : Exports) : Rows.Ascending (t.liveObjects.map Prod.fst) := by
  refine Rows.ascending_filterMap t.rows ?_
  intro e r picked
  obtain ⟨k, e⟩ := e
  cases e with
  | free => cases picked
  | detached => cases picked
  | live id =>
      cases picked
      rfl

theorem used_of_object? (found : t.object? k = some o) : t.Used k :=
  .inr ⟨o, object?_eq_some_iff.1 found⟩

theorem not_used_of_free (free : t.entry? k = some .free) : ¬ t.Used k := by
  rintro (e | ⟨o, e⟩)
  · rw [free] at e
    cases e
  · rw [free] at e
    cases e

theorem lt_size_of_entry? {e : ExportEntry} (found : t.entry? k = some e) : k.number < t.size :=
  (Array.getElem?_eq_some_iff.1 found).1

section Places

variable {t' : Exports}

/-- An object that is put into a slot without one has its place there. -/
theorem placed_insert (ordered : t.Ordered) (empty : ∀ x, t.entry? k ≠ some (.live x))
    (entry : ∀ j, t'.entry? j = if k = j then some (.live o) else t.entry? j)
    (places : t'.places = t.places.insert o k) (place : t'.keyOf? x = some j) :
    t'.entry? j = some (.live x) := by
  rw [keyOf?, places, Assoc.find?_insert] at place
  rw [entry]
  split at place
  · rename_i same
    cases place
    rw [if_pos rfl, same]
  · have live := ordered.places x j place
    rw [if_neg]
    · exact live
    · rintro rfl
      exact empty x live

/-- An object that is taken out of its slot has no place any more. -/
theorem placed_erase (ordered : t.Ordered) (live : t.entry? k = some (.live o))
    (entry : ∀ j, k ≠ j → t'.entry? j = t.entry? j) (places : t'.places = t.places.erase o)
    (place : t'.keyOf? x = some j) : t'.entry? j = some (.live x) := by
  rw [keyOf?, places, Assoc.find?_erase] at place
  split at place
  · cases place
  · rename_i differ
    have other := ordered.places x j place
    rw [entry j]
    · exact other
    · rintro rfl
      rw [live] at other
      cases other
      exact differ rfl

end Places

section Restore

theorem entry?_restore {e : ExportEntry} (found : t.entry? k = some e) (o : ObjectId)
    (j : ExportKey) :
    Exports.entry? (t.restore k o) j = if k = j then some (.live o) else t.entry? j := by
  have below := lt_size_of_entry? found
  have reached : (t.rows.reach k fun _ => .free).contains k = true := by
    rw [Rows.contains, decide_eq_true_eq, Rows.size_reach]
    exact Nat.lt_of_lt_of_le (Nat.lt_succ_self _) (Nat.le_max_right _ _)
  show ((t.rows.reach k fun _ => .free).set k (.live o)).get? j = _
  rw [Rows.get?_set, reached]
  by_cases same : k = j
  · simp [same]
  · rw [if_neg (fun both => same both.1), if_neg same, Rows.get?_reach]
    split
    · rfl
    · rename_i beyond
      have outside : t.size ≤ j.number := by
        simpa [Rows.contains, Exports.size, RowKey.number] using beyond
      rw [if_neg (by simp only [RowKey.number]; omega)]
      exact (Rows.get?_eq_none_iff.2 (by simpa using beyond)).symm

theorem size_restore {e : ExportEntry} (found : t.entry? k = some e) (o : ObjectId) :
    (t.restore k o).size = t.size := by
  have below := lt_size_of_entry? found
  show ((t.rows.reach k fun _ => .free).set k (.live o)).size = t.rows.size
  rw [Rows.size_set, Rows.size_reach]
  exact Nat.max_eq_left below

/-- A detached slot is in no list, so that it can be filled without touching one. -/
theorem ordered_restore (ordered : t.Ordered) (detached : t.entry? k = some .detached)
    (o : ObjectId) : (t.restore k o).Ordered where
  places := fun x j place => by
    refine placed_insert ordered (fun y live => ?_) (entry?_restore detached o) rfl place
    rw [detached] at live
    cases live
  vacant := fun j member => by
    have free := ordered.vacant j member
    rw [entry?_restore detached, if_neg]
    · exact free
    · rintro rfl
      rw [detached] at free
      cases free
  nodup := ordered.nodup
  size_le := size_restore detached o ▸ ordered.size_le

end Restore

section Detach

theorem entry?_detach (t : Exports) (k j : ExportKey) :
    Exports.entry? (t.detach k).2 j =
      if k = j ∧ (t.object? k).isSome = true then some .detached else t.entry? j := by
  unfold detach
  cases found : t.object? k with
  | none => simp
  | some o =>
      have below : t.rows.contains k = true :=
        decide_eq_true (Exports.lt_size_of_entry? (object?_eq_some_iff.1 found))
      show (t.rows.set k .detached).get? j = _
      rw [Rows.get?_set, below]
      rfl

@[simp] theorem size_detach (t : Exports) (k : ExportKey) : (t.detach k).2.size = t.size := by
  unfold detach
  cases t.object? k with
  | none => rfl
  | some o => exact Rows.size_set t.rows k .detached

theorem ordered_detach (ordered : t.Ordered) (k : ExportKey) : (t.detach k).2.Ordered := by
  cases found : t.object? k with
  | none => simpa only [detach, found] using ordered
  | some o =>
      have live := object?_eq_some_iff.1 found
      refine ⟨?_, ?_, ?_, (size_detach t k).symm ▸ ordered.size_le⟩
      · intro x j place
        refine placed_erase ordered live (fun y apart => ?_) (by simp only [detach, found]) place
        rw [entry?_detach, if_neg fun both => apart both.1]
      · intro j member
        simp only [detach, found] at member
        have free := ordered.vacant j member
        rw [entry?_detach, if_neg]
        · exact free
        · rintro ⟨rfl, -⟩
          rw [live] at free
          cases free
      · simpa only [detach, found] using ordered.nodup

end Detach

section Release

open Classical in
theorem entry?_release (t : Exports) (k j : ExportKey) :
    Exports.entry? (t.release k).2 j = if k = j ∧ t.Used k then some .free else t.entry? j := by
  unfold release
  cases found : t.entry? k with
  | none => simp [Used, found]
  | some e =>
      have below : t.rows.contains k = true := decide_eq_true (Exports.lt_size_of_entry? found)
      cases e with
      | free => simp [Used, found]
      | detached =>
          show (t.rows.set k .free).get? j = _
          rw [Rows.get?_set, below]
          simp [Used, found]
          rfl
      | live o =>
          show (t.rows.set k .free).get? j = _
          rw [Rows.get?_set, below]
          simp [Used, found]
          rfl

@[simp] theorem size_release (t : Exports) (k : ExportKey) : (t.release k).2.size = t.size := by
  unfold release
  split
  · exact Rows.size_set t.rows k .free
  · exact Rows.size_set t.rows k .free
  · rfl

@[simp] theorem unlinked_release (t : Exports) (k : ExportKey) :
    (t.release k).2.unlinked = t.unlinked := by
  unfold release
  split <;> rfl

theorem release_of_not_used (unused : ¬ t.Used k) : (t.release k).2 = t := by
  unfold release
  split
  · rename_i o live
    exact (unused (.inr ⟨o, live⟩)).elim
  · rename_i detached
    exact (unused (.inl detached)).elim
  · rfl

/-- A slot in use goes onto one of the two lists. -/
theorem perm_release (used : t.Used k) :
    ((t.release k).2.free ++ (t.release k).2.quarantine).Perm (k :: (t.free ++ t.quarantine)) := by
  rcases used with detached | ⟨o, live⟩
  · simp only [release, detached]
    exact List.perm_middle
  · simp only [release, live]
    exact .refl _

theorem placed_release (ordered : t.Ordered) (used : t.Used k)
    (place : (t.release k).2.keyOf? x = some j) :
    Exports.entry? (t.release k).2 j = some (.live x) := by
  have entry : ∀ j, k ≠ j → Exports.entry? (t.release k).2 j = t.entry? j := fun j apart => by
    rw [entry?_release, if_neg fun both => apart both.1]
  rcases used with detached | ⟨o, live⟩
  · simp only [release, detached] at place
    have live := ordered.places x j place
    rw [entry j]
    · exact live
    · rintro rfl
      rw [detached] at live
      cases live
  · exact placed_erase ordered live entry (by simp only [release, live]) place

theorem ordered_release (ordered : t.Ordered) (k : ExportKey) : (t.release k).2.Ordered := by
  by_cases used : t.Used k
  · have outside : k ∉ t.free ++ t.quarantine := fun member =>
      not_used_of_free (ordered.vacant k member) used
    refine ⟨fun x j place => placed_release ordered used place, ?_, ?_, ?_⟩
    · intro j member
      rw [entry?_release]
      rcases List.mem_cons.1 ((perm_release used).mem_iff.1 member) with rfl | old
      · rw [if_pos ⟨rfl, used⟩]
      · split
        · rfl
        · exact ordered.vacant j old
    · exact (perm_release used).nodup_iff.2 (List.nodup_cons.2 ⟨outside, ordered.nodup⟩)
    · exact (size_release t k).symm ▸ ordered.size_le
  · rw [release_of_not_used used]
    exact ordered

end Release

section Lists

/-- Restores slot after slot. -/
def restoreAll (t : Exports) (l : List (ExportKey × ObjectId)) : Exports :=
  l.foldl (fun t e => t.restore e.1 e.2) t

/-- Severs slot after slot. -/
def detachAll (t : Exports) (l : List (ExportKey × ObjectId)) : Exports :=
  l.foldl (fun t e => (t.detach e.1).2) t

/-- Releases slot after slot. -/
def releaseAll (t : Exports) (keys : List ExportKey) : Exports :=
  keys.foldl (fun t k => (t.release k).2) t

@[simp] theorem unlinked_restoreAll (t : Exports) (l : List (ExportKey × ObjectId)) :
    (t.restoreAll l).unlinked = t.unlinked := by
  induction l generalizing t with
  | nil => rfl
  | cons e l ih => exact ih (t.restore e.1 e.2)

theorem lists_restoreAll (t : Exports) (l : List (ExportKey × ObjectId)) :
    (t.restoreAll l).free = t.free ∧ (t.restoreAll l).quarantine = t.quarantine := by
  induction l generalizing t with
  | nil => exact ⟨rfl, rfl⟩
  | cons e l ih => exact ih (t.restore e.1 e.2)

theorem lists_detachAll (t : Exports) (l : List (ExportKey × ObjectId)) :
    (t.detachAll l).free = t.free ∧ (t.detachAll l).quarantine = t.quarantine := by
  induction l generalizing t with
  | nil => exact ⟨rfl, rfl⟩
  | cons e l ih =>
      have first : (t.detach e.1).2.free = t.free ∧ (t.detach e.1).2.quarantine = t.quarantine := by
        unfold detach
        split <;> exact ⟨rfl, rfl⟩
      have later := ih (t.detach e.1).2
      exact ⟨later.1.trans first.1, later.2.trans first.2⟩

theorem detached_restore {l : List (ExportKey × ObjectId)}
    (detached : ∀ e ∈ (k, o) :: l, t.entry? e.1 = some .detached) (apart : k ∉ l.map Prod.fst) :
    ∀ e ∈ l, Exports.entry? (t.restore k o) e.1 = some .detached := by
  intro e member
  have differ : ¬ k = e.1 := fun same => apart (same ▸ List.mem_map.2 ⟨e, member, rfl⟩)
  rw [entry?_restore (detached (k, o) List.mem_cons_self), if_neg differ]
  exact detached e (List.mem_cons_of_mem _ member)

theorem entry?_restoreAll {l : List (ExportKey × ObjectId)} {t : Exports}
    (detached : ∀ e ∈ l, t.entry? e.1 = some .detached) (nodup : (l.map Prod.fst).Nodup)
    (j : ExportKey) :
    Exports.entry? (t.restoreAll l) j =
      match Assoc.lookup j l with
      | some o => some (.live o)
      | none => t.entry? j := by
  induction l generalizing t with
  | nil => rfl
  | cons e l ih =>
      obtain ⟨k, o⟩ := e
      rw [List.map_cons, List.nodup_cons] at nodup
      have first := entry?_restore (detached (k, o) List.mem_cons_self) o
      apply (ih (detached_restore detached nodup.1) nodup.2).trans
      rw [Assoc.lookup, first]
      by_cases same : k = j
      · subst same
        rw [Assoc.lookup_eq_none_iff.2 nodup.1, if_pos rfl, if_pos rfl]
      · rw [if_neg same, if_neg same]

theorem ordered_restoreAll {l : List (ExportKey × ObjectId)} {t : Exports} (ordered : t.Ordered)
    (detached : ∀ e ∈ l, t.entry? e.1 = some .detached) (nodup : (l.map Prod.fst).Nodup) :
    (t.restoreAll l).Ordered ∧ (t.restoreAll l).size = t.size := by
  induction l generalizing t with
  | nil => exact ⟨ordered, rfl⟩
  | cons e l ih =>
      obtain ⟨k, o⟩ := e
      rw [List.map_cons, List.nodup_cons] at nodup
      have now := detached (k, o) List.mem_cons_self
      have next := ih (ordered_restore ordered now o) (detached_restore detached nodup.1) nodup.2
      exact ⟨next.1, next.2.trans (size_restore now o)⟩

open Classical in
theorem entry?_detachAll (t : Exports) (l : List (ExportKey × ObjectId)) (j : ExportKey) :
    Exports.entry? (t.detachAll l) j =
      if j ∈ l.map Prod.fst ∧ (t.object? j).isSome = true then some .detached else t.entry? j := by
  induction l generalizing t with
  | nil => simp [detachAll]
  | cons e l ih =>
      apply (ih (t.detach e.1).2).trans
      have first := entry?_detach t e.1 j
      by_cases same : e.1 = j
      · subst same
        by_cases live : (t.object? e.1).isSome = true
        · rw [if_pos ⟨rfl, live⟩] at first
          have gone : (t.detach e.1).2.object? e.1 = none := by simp only [object?, first]
          simp [gone, first, live]
        · rw [if_neg (fun both => live both.2)] at first
          have object : (t.detach e.1).2.object? e.1 = t.object? e.1 := by
            simp only [object?, first]
          simp [object, live, first]
      · rw [if_neg (fun both => same both.1)] at first
        have object : (t.detach e.1).2.object? j = t.object? j := by
          simp only [object?, first]
        simp [object, first, Ne.symm same]

theorem entry?_detachAll_of_object?_eq_none (none : t.object? k = none)
    (l : List (ExportKey × ObjectId)) : Exports.entry? (t.detachAll l) k = t.entry? k := by
  refine (entry?_detachAll t l k).trans (if_neg fun both => ?_)
  rw [none] at both
  cases both.2

theorem ordered_detachAll {t : Exports} (ordered : t.Ordered) (l : List (ExportKey × ObjectId)) :
    (t.detachAll l).Ordered ∧ (t.detachAll l).size = t.size := by
  induction l generalizing t with
  | nil => exact ⟨ordered, rfl⟩
  | cons e l ih =>
      have next := ih (ordered_detach ordered e.1)
      exact ⟨next.1, next.2.trans (size_detach t e.1)⟩

open Classical in
theorem entry?_releaseAll (t : Exports) (keys : List ExportKey) (j : ExportKey) :
    Exports.entry? (t.releaseAll keys) j = if j ∈ keys ∧ t.Used j then some .free else t.entry? j := by
  induction keys generalizing t with
  | nil => simp [releaseAll]
  | cons k keys ih =>
      apply (ih (t.release k).2).trans
      have first := entry?_release t k j
      by_cases same : k = j
      · subst same
        by_cases used : t.Used k
        · rw [if_pos ⟨rfl, used⟩] at first
          simp [first, used, not_used_of_free first]
        · rw [if_neg (fun both => used both.2)] at first
          have still : ¬ (t.release k).2.Used k := by simpa only [Used, first] using used
          simp [still, used, first]
      · rw [if_neg (fun both => same both.1)] at first
        have still : (t.release k).2.Used j ↔ t.Used j := by simp only [Used, first]
        simp [still, first, Ne.symm same]

theorem ordered_releaseAll {t : Exports} (ordered : t.Ordered) (keys : List ExportKey) :
    (t.releaseAll keys).Ordered ∧ (t.releaseAll keys).size = t.size ∧
      (t.releaseAll keys).unlinked = t.unlinked := by
  induction keys generalizing t with
  | nil => exact ⟨ordered, rfl, rfl⟩
  | cons k keys ih =>
      have next := ih (ordered_release ordered k)
      exact ⟨next.1, next.2.1.trans (size_release t k), next.2.2.trans (unlinked_release t k)⟩

theorem ordered_finishRepair (ordered : t.Ordered) : t.finishRepair.Ordered where
  places := ordered.places
  vacant := fun k member => ordered.vacant k (by
    simp only [finishRepair, List.append_nil, List.mem_append] at member ⊢
    exact member.symm)
  nodup := by
    simp only [finishRepair, List.append_nil]
    exact List.perm_append_comm.nodup_iff.1 ordered.nodup
  size_le := ordered.size_le

theorem ordered_setUnlinked (ordered : t.Ordered) (l : List (ObjectId × ExportKey)) :
    (t.setUnlinked l).Ordered :=
  ⟨ordered.places, ordered.vacant, ordered.nodup, ordered.size_le⟩

theorem mem_of_note?_setUnlinked {l : List (ObjectId × ExportKey)}
    (noted : (t.setUnlinked l).note? o = some k) : (o, k) ∈ l :=
  Assoc.mem_of_find?_ofList noted

theorem ordered_override (ordered : t.Ordered) : t.override.Ordered :=
  ⟨ordered.places, ordered.vacant, ordered.nodup, ordered.size_le⟩

end Lists

end TwinHeap.Exports
