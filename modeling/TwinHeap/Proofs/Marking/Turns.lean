import TwinHeap.Proofs.Marking.Drained

/-! A walk taken turn by turn, with a record of what is put into its queue. The loop comes to its end
after at most as many turns as there was work at the start, and nothing is left in the queue then; what
every meeting keeps is true of the record at the end. -/
namespace TwinHeap

/-- An object that is put into the queue, and the marks before and after. -/
structure Queueing (σ : Type) where
  id : ObjectId
  before : σ
  after : σ

/-- How often an object was put into the queue. -/
def Queueing.times {σ : Type} (record : List (Queueing σ)) (x : ObjectId) : Nat :=
  (record.map Queueing.id).count x

theorem Queueing.times_cons {σ : Type} (q : Queueing σ) (record : List (Queueing σ)) (x : ObjectId) :
    times (q :: record) x = times record x + if q.id = x then 1 else 0 := by
  rw [times, List.map_cons, List.count_cons, times]
  simp only [beq_iff_eq]

theorem Queueing.times_eq_zero {σ : Type} {record : List (Queueing σ)} {x : ObjectId} :
    times record x = 0 ↔ ∀ q ∈ record, q.id ≠ x := by
  rw [times, List.count_eq_zero, List.mem_map, not_exists]
  simp only [not_and]

/-- A walk between two steps and what has been put into its queue so far, with the latest first. -/
structure RecordedWalk (σ : Type) where
  walk : Walk σ
  record : List (Queueing σ) := []

namespace RecordedWalk

variable {h : Heap} {σ : Type} {v : Visitor h σ} {c : Option ObjectClass} {r : RecordedWalk σ}

/-- Meets one object. It was queued if the queue has taken another item. -/
def meet (v : Visitor h σ) (c : Option ObjectClass) (parent : Option ObjectId) (r : RecordedWalk σ)
    (id : ObjectId) : RecordedWalk σ :=
  let next := Walk.meet v c parent r.walk id
  if next.queue.pushed = r.walk.queue.pushed then { walk := next, record := r.record }
  else { walk := next, record := ⟨id, r.walk.marks, next.marks⟩ :: r.record }

def meetAll (v : Visitor h σ) (c : Option ObjectClass) (parent : Option ObjectId)
    (r : RecordedWalk σ) (ids : List ObjectId) : RecordedWalk σ :=
  ids.foldl (meet v c parent) r

/-- One turn of the loop: the oldest object leaves the queue and its children are met. Nothing happens
once the queue is empty. -/
def turn (v : Visitor h σ) (c : Option ObjectClass) (r : RecordedWalk σ) : RecordedWalk σ :=
  match r.walk.queue.pop? with
  | none => r
  | some (id, queue) =>
    meetAll v c (some id) { walk := { queue, marks := r.walk.marks }, record := r.record }
      (h.children id)

def turns (v : Visitor h σ) (c : Option ObjectClass) : Nat → RecordedWalk σ → RecordedWalk σ
  | 0, r => r
  | n + 1, r => turns v c n (turn v c r)

/-- A walk from the given objects that is broken off after `n` turns. -/
def run (v : Visitor h σ) (c : Option ObjectClass) (seeds : List ObjectId) (n : Nat) (w : Walk σ) :
    RecordedWalk σ :=
  turns v c n (meetAll v c none { walk := w } seeds)

section Ends

theorem walk_meet (parent : Option ObjectId) (id : ObjectId) :
    (r.meet v c parent id).walk = Walk.meet v c parent r.walk id := by
  unfold meet
  dsimp only
  split <;> rfl

theorem walk_meetAll (parent : Option ObjectId) (ids : List ObjectId) :
    (r.meetAll v c parent ids).walk = Walk.meetAll v c parent r.walk ids := by
  induction ids generalizing r with
  | nil => rfl
  | cons id ids ih => exact ih.trans (congrArg (Walk.meetAll v c parent · ids) (walk_meet parent id))

theorem turn_of_none (empty : r.walk.queue.pop? = none) : r.turn v c = r := by
  rw [turn, empty]

theorem turns_of_none (empty : r.walk.queue.pop? = none) (n : Nat) : turns v c n r = r := by
  induction n with
  | zero => rfl
  | succ n ih => rw [turns, turn_of_none empty, ih]

theorem turn_of_some {id : ObjectId} {queue : Ring ObjectId}
    (popped : r.walk.queue.pop? = some (id, queue)) :
    r.turn v c = meetAll v c (some id)
      { walk := { queue, marks := r.walk.marks }, record := r.record } (h.children id) := by
  rw [turn, popped]

/-- What can still be new and what is queued get fewer together, although a meeting may queue an
object again. -/
theorem work_turn_lt {id : ObjectId} {queue : Ring ObjectId}
    (popped : r.walk.queue.pop? = some (id, queue)) :
    (r.turn v c).walk.work v < r.walk.work v := by
  have shorter := Ring.length_pop? popped
  have spent := Walk.work_meetAll v c (some id) { queue, marks := r.walk.marks } (h.children id)
  rw [turn_of_some popped, walk_meetAll]
  unfold Walk.work at spent ⊢
  dsimp only at spent ⊢
  omega

/-- As many turns as there is work suffice, and more make no difference. -/
theorem walk_turns {n : Nat} (enough : r.walk.work v ≤ n) :
    (turns v c n r).walk = Walk.drain v c r.walk := by
  induction n generalizing r with
  | zero =>
      have none : r.walk.queue.toList = [] := by
        rw [← List.length_eq_zero_iff, Ring.length_toList]
        unfold Walk.work at enough
        omega
      exact (Walk.drain_of_none (Ring.pop?_eq_none_iff.2 none)).symm
  | succ n ih =>
      rw [turns]
      cases popped : r.walk.queue.pop? with
      | none =>
          rw [turn_of_none popped, turns_of_none popped, Walk.drain_of_none popped]
      | some taken =>
          have less := work_turn_lt (v := v) (c := c) popped
          rw [ih (by omega), turn_of_some popped, walk_meetAll, Walk.drain_of_some popped]

/-- A walk that is given enough turns is not broken off. -/
theorem walk_run {n : Nat} {seeds : List ObjectId} {w : Walk σ} (enough : w.work v ≤ n) :
    (run v c seeds n w).walk = Walk.run v c seeds w := by
  have spent := Walk.work_meetAll v c none w seeds
  rw [run, walk_turns, walk_meetAll, Walk.run]
  rw [walk_meetAll]
  exact Nat.le_trans spent enough

end Ends

section Record

theorem pushed_meet {parent : Option ObjectId} {id : ObjectId} {w : Walk σ}
    (alive : h.isAlive id = true) :
    (Walk.meet v c parent w id).queue.pushed = w.queue.pushed ↔
      ((v.visit parent id w.marks).1 = true → h.classOf? id = c) := by
  rw [Walk.meet, if_pos alive]
  split
  · rename_i new
    rw [new]
    split
    · rename_i closed
      simp [closed]
    · rename_i clear
      simp [clear]
  · rename_i known
    rw [known]
    simp

/-- A statement on marks and record that every meeting keeps. An object that is found new and may be
left is recorded; any other is not. -/
structure Keeps (v : Visitor h σ) (c : Option ObjectClass) (I : σ → List (Queueing σ) → Prop) :
    Prop where
  queued : ∀ parent id s record, h.isAlive id = true → (v.visit parent id s).1 = true →
    h.classOf? id ≠ c → I s record →
      I (v.visit parent id s).2 (⟨id, s, (v.visit parent id s).2⟩ :: record)
  passed : ∀ parent id s record, h.isAlive id = true →
    ((v.visit parent id s).1 = true → h.classOf? id = c) → I s record →
      I (v.visit parent id s).2 record

variable {I : σ → List (Queueing σ) → Prop}

theorem Keeps.meet (keeps : Keeps v c I) (inv : I r.walk.marks r.record) (parent : Option ObjectId)
    (id : ObjectId) : I (r.meet v c parent id).walk.marks (r.meet v c parent id).record := by
  cases alive : h.isAlive id with
  | false =>
      rw [RecordedWalk.meet, Walk.meet_of_dead alive, if_pos rfl]
      exact inv
  | true =>
      have visited := Walk.marks_meet (v := v) (c := c) alive parent r.walk
      rw [RecordedWalk.meet]
      split
      · rename_i same
        rw [visited]
        exact keeps.passed parent id _ _ alive ((pushed_meet alive).1 same) inv
      · rename_i more
        obtain ⟨fresh, clear⟩ := Classical.not_imp.1 (mt (pushed_meet alive).2 more)
        rw [visited]
        exact keeps.queued parent id _ _ alive fresh clear inv

theorem Keeps.meetAll (keeps : Keeps v c I) (inv : I r.walk.marks r.record)
    (parent : Option ObjectId) (ids : List ObjectId) :
    I (r.meetAll v c parent ids).walk.marks (r.meetAll v c parent ids).record := by
  induction ids generalizing r with
  | nil => exact inv
  | cons id ids ih => exact ih (keeps.meet inv parent id)

theorem Keeps.turn (keeps : Keeps v c I) (inv : I r.walk.marks r.record) :
    I (r.turn v c).walk.marks (r.turn v c).record := by
  cases popped : r.walk.queue.pop? with
  | none => rwa [turn_of_none popped]
  | some taken =>
      rw [turn_of_some popped]
      exact keeps.meetAll
        (r := { walk := { queue := taken.2, marks := r.walk.marks }, record := r.record }) inv _ _

theorem Keeps.turns (keeps : Keeps v c I) (inv : I r.walk.marks r.record) (n : Nat) :
    I (turns v c n r).walk.marks (turns v c n r).record := by
  induction n generalizing r with
  | zero => exact inv
  | succ n ih => exact ih (keeps.turn inv)

theorem Keeps.run (keeps : Keeps v c I) {w : Walk σ} (inv : I w.marks []) (seeds : List ObjectId)
    (n : Nat) : I (run v c seeds n w).walk.marks (run v c seeds n w).record :=
  keeps.turns (keeps.meetAll (r := { walk := w }) inv none seeds) n

end Record

end RecordedWalk

end TwinHeap
