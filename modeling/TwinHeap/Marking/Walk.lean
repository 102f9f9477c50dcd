import TwinHeap.Heap
import TwinHeap.Marking.Ring
import TwinHeap.Marking.SlotSet
import TwinHeap.Settings

/-! Breadth-first walks over the strong references of a heap. A walk keeps only its queue; which
objects count as newly met is decided by a visitor, which keeps marks of its own. -/
namespace TwinHeap

/-- Decides at each meeting with an object, coming from `parent` or from outside, whether the object
is new. `room` bounds how many more objects can be. -/
structure Visitor (h : Heap) (σ : Type) where
  visit : Option ObjectId → ObjectId → σ → Bool × σ
  room : σ → Nat
  room_visit : ∀ parent id s, h.isAlive id = true →
    room (visit parent id s).2 + (visit parent id s).1.toNat ≤ room s

/-- A walk between two steps. -/
structure Walk (σ : Type) where
  queue : Ring ObjectId
  marks : σ

namespace Walk

variable {h : Heap} {σ : Type}

/-- Work that can still come up: objects in the queue and objects that can still be new. -/
def work (v : Visitor h σ) (w : Walk σ) : Nat := v.room w.marks + w.queue.length

/-- Meets one object. Dead ones are passed over; new ones are queued unless they are opaque. -/
def meet (v : Visitor h σ) (opaqueClass : Option ObjectClass) (parent : Option ObjectId)
    (w : Walk σ) (id : ObjectId) : Walk σ :=
  if h.isAlive id then
    match v.visit parent id w.marks with
    | (true, marks) =>
      if h.classOf? id = opaqueClass then { queue := w.queue, marks }
      else { queue := w.queue.push id, marks }
    | (false, marks) => { queue := w.queue, marks }
  else w

theorem work_meet (v : Visitor h σ) (c : Option ObjectClass) (parent : Option ObjectId)
    (w : Walk σ) (id : ObjectId) : (meet v c parent w id).work v ≤ w.work v := by
  unfold meet
  split
  · rename_i alive
    have := v.room_visit parent id w.marks alive
    split
    · rename_i e
      rw [e] at this
      simp only [Bool.toNat_true] at this
      split
      · simp only [work]
        omega
      · simp only [work, Ring.length_push]
        omega
    · rename_i e
      rw [e] at this
      simp only [Bool.toNat_false] at this
      simp only [work]
      omega
  · exact Nat.le_refl _

/-- Meets several objects in turn. -/
def meetAll (v : Visitor h σ) (opaqueClass : Option ObjectClass) (parent : Option ObjectId)
    (w : Walk σ) (ids : List ObjectId) : Walk σ :=
  ids.foldl (meet v opaqueClass parent) w

theorem work_meetAll (v : Visitor h σ) (c : Option ObjectClass) (parent : Option ObjectId)
    (w : Walk σ) (ids : List ObjectId) : (meetAll v c parent w ids).work v ≤ w.work v := by
  induction ids generalizing w with
  | nil => exact Nat.le_refl _
  | cons id ids ih => exact Nat.le_trans (ih (meet v c parent w id)) (work_meet v c parent w id)

/-- Takes objects from the queue and meets their children until the queue is empty. -/
def drain (v : Visitor h σ) (opaqueClass : Option ObjectClass) (w : Walk σ) : Walk σ :=
  match _hp : w.queue.pop? with
  | none => w
  | some (id, queue) =>
    drain v opaqueClass (meetAll v opaqueClass (some id) { queue, marks := w.marks } (h.children id))
termination_by w.work v
decreasing_by
  have := Ring.length_pop? _hp
  have := work_meetAll v opaqueClass (some id) { queue, marks := w.marks } (h.children id)
  simp only [work] at this ⊢
  omega

/-- Walks from the given objects. -/
def run (v : Visitor h σ) (opaqueClass : Option ObjectClass) (seeds : List ObjectId)
    (w : Walk σ) : Walk σ :=
  drain v opaqueClass (meetAll v opaqueClass none w seeds)

end Walk

/-- One meeting of a walk with an object. -/
structure Meeting where
  parent : Option ObjectId
  id : ObjectId
  fresh : Bool
  deriving DecidableEq

/-- The slots met so far, and the meetings with the latest first. -/
structure Survey where
  marks : SlotSet := {}
  meetings : List Meeting := []

namespace Survey

/-- The objects met for the first time, in the order of meeting. -/
def found (s : Survey) : List ObjectId :=
  ((s.meetings.filter Meeting.fresh).map Meeting.id).reverse

/-- Marks what is met, except slots in `closed`, which are never new. -/
def visit (closed : SlotSet) (parent : Option ObjectId) (id : ObjectId) (s : Survey) :
    Bool × Survey :=
  if closed.contains id.slot then
    (false, { marks := s.marks, meetings := ⟨parent, id, false⟩ :: s.meetings })
  else
    let fresh := !s.marks.contains id.slot
    (fresh, { marks := s.marks.insert id.slot, meetings := ⟨parent, id, fresh⟩ :: s.meetings })

/-- The number of slots without a mark. -/
def room (h : Heap) (s : Survey) : Nat := s.marks.missing h.capacity

theorem room_visit (h : Heap) (closed : SlotSet) (parent : Option ObjectId) (id : ObjectId)
    (s : Survey) (alive : h.isAlive id = true) :
    room h (visit closed parent id s).2 + (visit closed parent id s).1.toNat ≤ room h s := by
  have below := Heap.isAlive_slot alive
  unfold visit room
  split
  · simp
  · cases hm : s.marks.contains id.slot
    · have := SlotSet.missing_insert_lt below hm
      simp only [Bool.not_false, Bool.toNat_true]
      omega
    · have := s.marks.missing_insert_le id.slot h.capacity
      simp only [Bool.not_true, Bool.toNat_false]
      omega

def visitor (h : Heap) (closed : SlotSet) : Visitor h Survey :=
  { visit := visit closed, room := room h, room_visit := room_visit h closed }

end Survey

/-- A walk that has met nothing, with a queue of the given capacity. -/
def Walk.start {σ : Type} (capacity : Nat) (marks : σ) : Walk σ :=
  { queue := Ring.withCapacity capacity, marks }

/-- The notices about the growth of the queue since it had the capacity `before`. -/
def Walk.growths {σ : Type} (w : Walk σ) (before : Nat) : List Notice :=
  Ring.growths (max before 2) w.queue.capacity

namespace Heap

/-- Every meeting of a walk from `seeds`, in order. The queue starts with the capacity given. -/
def survey (h : Heap) (opaqueClass : ObjectClass) (capacity : Nat) (seeds : List ObjectId) :
    Noted (Except Fault (List Meeting)) :=
  match Ring.demand capacity with
  | .error f => { answer := .error f }
  | .ok _ =>
    let w := Walk.run (Survey.visitor h {}) (some opaqueClass) seeds
      (Walk.start capacity { marks := .withRoom h.capacity })
    { answer := .ok w.marks.meetings.reverse, notices := w.growths capacity }

/-- Whether a walk from `seeds` meets `target`. An opaque object is met but not left. -/
def reaches (h : Heap) (opaqueClass : ObjectClass) (seeds : List ObjectId) (target : ObjectId) :
    Noted Bool :=
  if h.isAlive target then
    let w := Walk.run (Survey.visitor h {}) (some opaqueClass) seeds
      (Walk.start defaultQueueCapacity { marks := .withRoom h.capacity })
    { answer := w.marks.marks.contains target.slot, notices := w.growths defaultQueueCapacity }
  else { answer := false }

end Heap

end TwinHeap
