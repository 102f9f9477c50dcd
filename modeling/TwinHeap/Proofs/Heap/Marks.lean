import TwinHeap.Heap.Collect
import TwinHeap.Proofs.Heap.Change
import TwinHeap.Proofs.Marking.Surveyed

/-! What a native collection keeps: the objects that its roots reach, unchanged, and nothing else. -/
namespace TwinHeap.Heap

variable {h : Heap} {extra : List ObjectId}

/-- Reached by strong references from a root or from `extra`. -/
def Held (h : Heap) (extra : List ObjectId) (id : ObjectId) : Prop :=
  ∃ root ∈ h.rootIds ++ extra, h.Path none root id

theorem Held.alive {id : ObjectId} (held : h.Held extra id) : h.isAlive id = true := by
  obtain ⟨root, member, path⟩ := held
  exact path.alive_last

theorem held_of_child {p id : ObjectId} (held : h.Held extra p) (child : id ∈ h.children p)
    (alive : h.isAlive id = true) : h.Held extra id := by
  obtain ⟨root, member, path⟩ := held
  refine ⟨root, member, .step path ?_ child alive⟩
  obtain ⟨o, found⟩ := isAlive_iff.1 path.alive_last
  simp [classOf?, found]

theorem contains_marks {id : ObjectId} (alive : h.isAlive id = true) :
    (h.marks extra).contains id.slot = true ↔ h.Held extra id :=
  (Survey.contains_run (Survey.fresh_start 0 h.capacity) alive).trans Survey.enters_iff_path

open Classical in
theorem get?_collect (id : ObjectId) :
    (h.collect extra).state.get? id = if h.Held extra id then h.get? id else none := by
  show (h.sweep (h.marks extra)).2.get? id = _
  rw [get?_sweep]
  cases alive : h.isAlive id with
  | true => simp only [contains_marks alive]
  | false =>
      have none : h.get? id = none := Option.isNone_iff_eq_none.1 (Option.isSome_eq_false_iff.1 alive)
      simp [none]

theorem isAlive_collect {id : ObjectId} :
    (h.collect extra).state.isAlive id = true ↔ h.Held extra id := by
  rw [isAlive, get?_collect]
  split
  · rename_i held
    exact ⟨fun _ => held, fun _ => held.alive⟩
  · rename_i loose
    refine ⟨fun none => ?_, fun held => (loose held).elim⟩
    cases none

theorem get?_collect_of_held {id : ObjectId} (held : h.Held extra id) :
    (h.collect extra).state.get? id = h.get? id := by
  rw [get?_collect, if_pos held]

/-- What was held is held by the same chain after the collection. -/
theorem held_collect {id : ObjectId} :
    (h.collect extra).state.Held extra id ↔ h.Held extra id := by
  constructor
  · rintro ⟨root, member, path⟩
    exact isAlive_collect.1 path.alive_last
  · rintro ⟨root, member, path⟩
    refine ⟨root, member, ?_⟩
    have held : ∀ {x}, h.Path none root x → h.Held extra x := fun path => ⟨root, member, path⟩
    induction path with
    | here alive => exact .here (isAlive_collect.2 (held (.here alive)))
    | step path clear child alive ih =>
        refine .step ih ?_ ?_ (isAlive_collect.2 (held (.step path clear child alive)))
        · rwa [classOf?, get?_collect_of_held (held path)]
        · rwa [children, get?_collect_of_held (held path)]

end TwinHeap.Heap
