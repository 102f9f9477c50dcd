import TwinHeap.Proofs.Side.Managing

/-! What the native collector of a side keeps: whatever is reached from its roots and its exported
objects. The record of a proxy holds the objects of the slots it names, until a repair gives them
back to their slots. -/
namespace TwinHeap

namespace Heap

variable {h h' : Heap} {p x : ObjectId} {k : ExportKey}

theorem mem_children_of_recordOf (recorded : h.RecordOf p k x) : x ∈ h.children p := by
  obtain ⟨q, r, proxy, record, member⟩ := recorded
  obtain ⟨c, found⟩ := proxy?_eq_some_iff.1 proxy
  have children : h.children p = r.objects := by
    simp only [Heap.children, found, Option.map_some, Option.getD_some, Object.children, record]
  rw [children]
  exact RepairRecord.mem_objects_of_mem member

theorem mem_objects_of_mem_children {q : Proxy} (proxy : h.proxy? p = some q)
    (child : x ∈ h.children p) : ∃ r, q.record = some r ∧ x ∈ r.objects := by
  obtain ⟨c, found⟩ := proxy?_eq_some_iff.1 proxy
  simp only [Heap.children, found, Option.map_some, Option.getD_some, Object.children] at child
  cases record : q.record with
  | none =>
      rw [record] at child
      cases child
  | some r =>
      rw [record] at child
      exact ⟨r, rfl, child⟩

theorem Recast.children (recast : h.Recast h') (other : h.proxy? p = none) :
    h'.children p = h.children p := by
  unfold Heap.children
  rw [recast.get?_of_proxy?_eq_none other]

end Heap

namespace Side

variable {s s' : Side} {k : ExportKey} {p x : ObjectId}

/-- The native collector keeps the object. -/
def Held (s : Side) (x : ObjectId) : Prop :=
  s.heap.Held (s.exports.liveObjects.map Prod.snd) x

theorem held_of_root (member : x ∈ s.heap.rootIds) (alive : s.heap.isAlive x = true) : s.Held x :=
  ⟨x, List.mem_append_left _ member, .here alive⟩

theorem held_of_live (live : s.exports.entry? k = some (.live x))
    (alive : s.heap.isAlive x = true) : s.Held x := by
  refine ⟨x, List.mem_append_right _ ?_, .here alive⟩
  exact List.mem_map.2 ⟨(k, x), Exports.mem_liveObjects.2 live, rfl⟩

theorem Held.child (held : s.Held p) (child : x ∈ s.heap.children p)
    (alive : s.heap.isAlive x = true) : s.Held x :=
  Heap.held_of_child held child alive

theorem Held.alive (held : s.Held x) : s.heap.isAlive x = true := Heap.Held.alive held

/-- Induction along what holds an object. -/
theorem Held.rule {P : ObjectId → Prop} (held : s.Held x)
    (root : ∀ x ∈ s.heap.rootIds, s.heap.isAlive x = true → P x)
    (live : ∀ k x, s.exports.entry? k = some (.live x) → s.heap.isAlive x = true → P x)
    (child : ∀ p x, s.Held p → P p → x ∈ s.heap.children p → s.heap.isAlive x = true → P x) :
    P x := by
  obtain ⟨first, member, path⟩ := held
  have start : P first := by
    rcases List.mem_append.1 member with rooted | exported
    · exact root first rooted path.alive_first
    · obtain ⟨e, listed, rfl⟩ := List.mem_map.1 exported
      exact live e.1 e.2 (Exports.mem_liveObjects.1 listed) path.alive_first
  induction path with
  | here => exact start
  | step path _ member alive ih => exact child _ _ ⟨first, ‹_›, path⟩ ih member alive

theorem isAlive_nativeCollect : s.nativeCollect.state.heap.isAlive x = true ↔ s.Held x :=
  Heap.isAlive_collect

theorem held_nativeCollect : s.nativeCollect.state.Held x ↔ s.Held x := Heap.held_collect

/-- A proxy that is kept keeps its record. -/
theorem recordOf_nativeCollect (held : s.Held p) :
    s.nativeCollect.state.heap.RecordOf p k x ↔ s.heap.RecordOf p k x := by
  have same : s.nativeCollect.state.heap.proxy? p = s.heap.proxy? p :=
    congrArg (fun found => found.bind Object.proxy?) (Heap.get?_collect_of_held held)
  simp only [Heap.RecordOf, same]

/-- Every record is about slots that its objects can come back to. -/
structure Returning (s : Side) : Prop where
  paired : ∀ p q r, s.heap.proxy? p = some q → q.record = some r → r.Paired
  entry : ∀ k x, s.Recorded k x →
    s.exports.entry? k = some (.live x) ∨ s.exports.entry? k = some .detached

theorem Severed.returning {g : IncomingGraph} (severed : s.Severed g s') : s'.Returning where
  paired := severed.paired
  entry := fun _ _ => severed.recorded_entry

theorem returning_nativeCollect (sound : s.Sound) (returning : s.Returning) :
    s.nativeCollect.state.Returning where
  paired := fun p q r proxy => returning.paired p q r ((aged_nativeCollect sound).proxy p q proxy)
  entry := fun k x recorded => by
    obtain ⟨p, q, r, proxy, rest⟩ := recorded
    exact returning.entry k x ⟨p, q, r, (aged_nativeCollect sound).proxy p q proxy, rest⟩

/-- When all records are applied, each slot that a record names holds its object. -/
theorem Repairs.live_of_recorded (repairs : s.Repairs s.liveProxies s') (sound : s.Sound)
    (recorded : s.Recorded k x)
    (entry : s.exports.entry? k = some (.live x) ∨ s.exports.entry? k = some .detached) :
    s'.exports.entry? k = some (.live x) := by
  have listed := (recordedBy_liveProxies sound.enlisted).2 recorded
  rcases repairs.entry k with ⟨y, detached, named, live⟩ | ⟨same, unnamed⟩
  · have one := sound.agreed k y x detached (.inr (recorded_of_recordedBy named)) (.inr recorded)
    exact one ▸ live
  · rcases entry with live | detached
    · exact same.trans live
    · exact (unnamed x detached listed).elim

theorem Repairs.live (repairs : s.Repairs s.liveProxies s')
    (live : s.exports.entry? k = some (.live x)) : s'.exports.entry? k = some (.live x) := by
  rcases repairs.entry k with ⟨y, detached, -⟩ | ⟨same, -⟩
  · rw [live] at detached
    cases detached
  · exact same.trans live

/-- What a record held is held by its slot once the record has been applied. -/
theorem Repairs.held (repairs : s.Repairs s.liveProxies s') (sound : s.Sound)
    (returning : s.Returning) (held : s.Held x) : s'.Held x := by
  have alive : ∀ {x}, s.heap.isAlive x = true → s'.heap.isAlive x = true := fun alive => by
    rw [repairs.heap.isAlive]
    exact alive
  refine held.rule (fun x member old => ?_) (fun k x live old => ?_) fun p x heldP ih child old => ?_
  · exact held_of_root (repairs.heap.roots ▸ member) (alive old)
  · exact held_of_live (repairs.live live) (alive old)
  · cases proxy : s.heap.proxy? p with
    | none => exact ih.child (repairs.heap.children proxy ▸ child) (alive old)
    | some q =>
        obtain ⟨r, record, member⟩ := Heap.mem_objects_of_mem_children proxy child
        obtain ⟨k, entry⟩ := RepairRecord.exists_key_of_mem (returning.paired p q r proxy record) member
        have recorded : s.Recorded k x := ⟨p, q, r, proxy, record, entry⟩
        exact held_of_live (repairs.live_of_recorded sound recorded (returning.entry k x recorded))
          (alive old)

end Side

end TwinHeap
