import TwinHeap.Marking.Walk

/-! What a walk establishes, for any visitor. Soundness is an invariant of the marks that every
meeting keeps. Completeness is said of single references: when the queue has run empty, each
reference out of an object that may be left is settled. -/
namespace TwinHeap.Walk

variable {h : Heap} {σ : Type} {v : Visitor h σ} {c : Option ObjectClass}

section Steps

theorem meet_of_dead {id : ObjectId} (dead : h.isAlive id = false) (parent : Option ObjectId)
    (w : Walk σ) : meet v c parent w id = w := by
  rw [meet, dead]
  rfl

theorem marks_meet {id : ObjectId} (alive : h.isAlive id = true) (parent : Option ObjectId)
    (w : Walk σ) : (meet v c parent w id).marks = (v.visit parent id w.marks).2 := by
  rw [meet, if_pos alive]
  split
  · rename_i new
    rw [new]
    split <;> rfl
  · rename_i known
    rw [known]

theorem mem_queue_meet {id : ObjectId} (alive : h.isAlive id = true) (parent : Option ObjectId)
    (w : Walk σ) {x : ObjectId} :
    x ∈ (meet v c parent w id).queue.toList ↔
      x ∈ w.queue.toList ∨
        x = id ∧ (v.visit parent id w.marks).1 = true ∧ h.classOf? id ≠ c := by
  rw [meet, if_pos alive]
  split
  · rename_i new
    rw [new]
    split
    · rename_i closed
      simp [closed]
    · rename_i clear
      simp [clear]
  · rename_i known
    rw [known]
    simp

theorem drain_of_none {w : Walk σ} (empty : w.queue.pop? = none) : drain v c w = w := by
  rw [drain]
  split
  · rfl
  · rename_i e
    rw [empty] at e
    cases e

theorem drain_of_some {w : Walk σ} {id : ObjectId} {queue : Ring ObjectId}
    (popped : w.queue.pop? = some (id, queue)) :
    drain v c w =
      drain v c (meetAll v c (some id) { queue, marks := w.marks } (h.children id)) := by
  rw [drain]
  split
  · rename_i e
    rw [popped] at e
    cases e
  · rename_i e
    rw [popped] at e
    cases e
    rfl

end Steps

section Invariant

/-- The meetings that a walk can have keep `I`, and queue only objects that satisfy `Q`. -/
structure Guards (v : Visitor h σ) (c : Option ObjectClass) (I : σ → Prop) (Q : ObjectId → Prop)
    (parent : Option ObjectId) (id : ObjectId) : Prop where
  keeps : ∀ s, h.isAlive id = true → I s → I (v.visit parent id s).2
  queues : ∀ s, h.isAlive id = true → h.classOf? id ≠ c → I s →
    (v.visit parent id s).1 = true → Q id

variable {I : σ → Prop} {Q : ObjectId → Prop}

theorem meet_invariant {parent : Option ObjectId} {id : ObjectId} {w : Walk σ}
    (guards : Guards v c I Q parent id) (inv : I w.marks) (queued : ∀ x ∈ w.queue.toList, Q x) :
    I (meet v c parent w id).marks ∧ ∀ x ∈ (meet v c parent w id).queue.toList, Q x := by
  cases alive : h.isAlive id with
  | false =>
      rw [meet_of_dead alive]
      exact ⟨inv, queued⟩
  | true =>
      rw [marks_meet alive]
      refine ⟨guards.keeps w.marks alive inv, ?_⟩
      intro x member
      rcases (mem_queue_meet alive parent w).1 member with old | ⟨same, fresh, clear⟩
      · exact queued x old
      · exact same ▸ guards.queues w.marks alive clear inv fresh

theorem meetAll_invariant {parent : Option ObjectId} {ids : List ObjectId} {w : Walk σ}
    (guards : ∀ id ∈ ids, Guards v c I Q parent id) (inv : I w.marks)
    (queued : ∀ x ∈ w.queue.toList, Q x) :
    I (meetAll v c parent w ids).marks ∧
      ∀ x ∈ (meetAll v c parent w ids).queue.toList, Q x := by
  induction ids generalizing w with
  | nil => exact ⟨inv, queued⟩
  | cons id ids ih =>
      have next := meet_invariant (guards id List.mem_cons_self) inv queued
      exact ih (fun x member => guards x (List.mem_cons_of_mem id member)) next.1 next.2

theorem drain_invariant {w : Walk σ}
    (guards : ∀ p, Q p → ∀ id ∈ h.children p, Guards v c I Q (some p) id) (inv : I w.marks)
    (queued : ∀ x ∈ w.queue.toList, Q x) : I (drain v c w).marks := by
  induction w using drain.induct v c with
  | case1 w empty =>
      rw [drain_of_none empty]
      exact inv
  | case2 w id queue popped ih =>
      have items := Ring.toList_of_pop? popped
      have next := meetAll_invariant (w := { queue, marks := w.marks })
        (guards id (queued id (items ▸ List.mem_cons_self))) inv
        fun x member => queued x (items ▸ List.mem_cons_of_mem id member)
      rw [drain_of_some popped]
      exact ih next.1 next.2

/-- What every meeting keeps holds at the end of a walk. -/
theorem drain_stable (stable : ∀ parent id s, h.isAlive id = true → I s → I (v.visit parent id s).2)
    {w : Walk σ} (inv : I w.marks) : I (drain v c w).marks :=
  drain_invariant (Q := fun _ => True)
    (fun p _ id _ => ⟨fun s alive => stable (some p) id s alive, fun _ _ _ _ _ => trivial⟩) inv
    fun _ _ => trivial

theorem meetAll_stable
    (stable : ∀ parent id s, h.isAlive id = true → I s → I (v.visit parent id s).2)
    {parent : Option ObjectId} {ids : List ObjectId} {w : Walk σ} (inv : I w.marks) :
    I (meetAll v c parent w ids).marks :=
  (meetAll_invariant (Q := fun _ => True)
    (fun id _ => ⟨fun s alive => stable parent id s alive, fun _ _ _ _ _ => trivial⟩) inv
    fun _ _ => trivial).1

/-- What a meeting with one object brings about, and every meeting keeps, holds after a list of
meetings in which that object occurs. -/
theorem meetAll_establishes
    (stable : ∀ parent id s, h.isAlive id = true → I s → I (v.visit parent id s).2)
    {parent : Option ObjectId} {id : ObjectId} (met : ∀ s, I (v.visit parent id s).2)
    {ids : List ObjectId} (member : id ∈ ids) (alive : h.isAlive id = true) (w : Walk σ) :
    I (meetAll v c parent w ids).marks := by
  induction ids generalizing w with
  | nil => cases member
  | cons x ids ih =>
      rcases List.mem_cons.1 member with rfl | later
      · apply meetAll_stable (w := meet v c parent w id) stable
        rw [marks_meet alive]
        exact met w.marks
      · exact ih later (meet v c parent w x)

theorem toList_queue_drain (w : Walk σ) : (drain v c w).queue.toList = [] := by
  induction w using drain.induct v c with
  | case1 w empty =>
      rw [drain_of_none empty]
      exact Ring.pop?_eq_none_iff.1 empty
  | case2 w id queue popped ih =>
      rw [drain_of_some popped]
      exact ih

end Invariant

section Settled

/-- A notion of settled reference that a visitor establishes by a meeting, and undoes only for the
references out of an object that it finds new. -/
structure Settles (v : Visitor h σ) (Settled : σ → ObjectId → ObjectId → Prop) : Prop where
  met : ∀ p z s, h.isAlive z = true → Settled (v.visit (some p) z s).2 p z
  kept : ∀ parent y s p z, h.isAlive y = true → Settled s p z →
    Settled (v.visit parent y s).2 p z ∨ p = y ∧ (v.visit parent y s).1 = true

/-- Each reference out of an object that may be left is settled, or the object is queued. -/
def Covered (h : Heap) (c : Option ObjectClass) (Settled : σ → ObjectId → ObjectId → Prop)
    (w : Walk σ) (p z : ObjectId) : Prop :=
  h.classOf? p ≠ c → h.isAlive z = true → Settled w.marks p z ∨ p ∈ w.queue.toList

variable {Settled : σ → ObjectId → ObjectId → Prop}

theorem covered_meet (settles : Settles v Settled) {w : Walk σ} {p z : ObjectId}
    (covered : Covered h c Settled w p z) (parent : Option ObjectId) (id : ObjectId) :
    Covered h c Settled (meet v c parent w id) p z := by
  intro leave alive
  have before := covered leave alive
  cases met : h.isAlive id with
  | false =>
      rw [meet_of_dead met]
      exact before
  | true =>
      rw [marks_meet met, mem_queue_meet met]
      rcases before with settled | queued
      · rcases settles.kept parent id w.marks p z met settled with settled | ⟨same, fresh⟩
        · exact .inl settled
        · exact .inr (.inr ⟨same, fresh, same ▸ leave⟩)
      · exact .inr (.inl queued)

theorem covered_meetAll (settles : Settles v Settled) {w : Walk σ} {p z : ObjectId}
    (covered : Covered h c Settled w p z) (parent : Option ObjectId) (ids : List ObjectId) :
    Covered h c Settled (meetAll v c parent w ids) p z := by
  induction ids generalizing w with
  | nil => exact covered
  | cons id ids ih => exact ih (covered_meet settles covered parent id)

theorem covered_of_met (settles : Settles v Settled) {w : Walk σ} {p z : ObjectId}
    {ids : List ObjectId} (member : z ∈ ids) :
    Covered h c Settled (meetAll v c (some p) w ids) p z := by
  induction ids generalizing w with
  | nil => cases member
  | cons id ids ih =>
      rcases List.mem_cons.1 member with rfl | later
      · refine covered_meetAll settles ?_ (some p) ids
        intro leave alive
        rw [marks_meet alive]
        exact .inl (settles.met p z w.marks alive)
      · exact ih later

/-- When the queue has run empty, every reference that may be followed is settled. -/
theorem settled_drain (settles : Settles v Settled) {w : Walk σ}
    (covered : ∀ p, ∀ z ∈ h.children p, Covered h c Settled w p z) {p z : ObjectId}
    (leave : h.classOf? p ≠ c) (child : z ∈ h.children p) (alive : h.isAlive z = true) :
    Settled (drain v c w).marks p z := by
  induction w using drain.induct v c with
  | case1 w empty =>
      rw [drain_of_none empty]
      rcases covered p z child leave alive with settled | queued
      · exact settled
      · rw [Ring.pop?_eq_none_iff.1 empty] at queued
        cases queued
  | case2 w id queue popped ih =>
      have items := Ring.toList_of_pop? popped
      rw [drain_of_some popped]
      apply ih
      intro q y child
      by_cases same : q = id
      · exact same ▸ covered_of_met settles (same ▸ child)
      · apply covered_meetAll settles
        intro leave alive
        rcases covered q y child leave alive with settled | queued
        · exact .inl settled
        · rw [items] at queued
          exact .inr ((List.mem_cons.1 queued).resolve_left same)

end Settled

end TwinHeap.Walk
