import TwinHeap.Heap.Path
import TwinHeap.Proofs.Heap.Cells
import TwinHeap.Proofs.Marking.Drained

/-! What a survey marks and finds: the objects that its seeds reach without entering a closed slot,
each of them once. -/
namespace TwinHeap.Survey

variable {h : Heap} {c : Option ObjectClass} {closed : SlotSet} {seeds : List ObjectId}

/-- Reached from a seed. Neither opaque objects are left nor closed slots entered. -/
inductive Enters (h : Heap) (c : Option ObjectClass) (closed : SlotSet) (seeds : List ObjectId) :
    ObjectId → Prop where
  | seed {id : ObjectId} (member : id ∈ seeds) (alive : h.isAlive id = true)
      (open_ : closed.contains id.slot = false) : Enters h c closed seeds id
  | child {p id : ObjectId} (parent : Enters h c closed seeds p) (leave : h.classOf? p ≠ c)
      (child : id ∈ h.children p) (alive : h.isAlive id = true)
      (open_ : closed.contains id.slot = false) : Enters h c closed seeds id

theorem Enters.alive {id : ObjectId} (e : Enters h c closed seeds id) : h.isAlive id = true := by
  cases e with
  | seed _ alive => exact alive
  | child _ _ _ alive => exact alive

theorem Enters.open_ {id : ObjectId} (e : Enters h c closed seeds id) :
    closed.contains id.slot = false := by
  cases e with
  | seed _ _ open_ => exact open_
  | child _ _ _ _ open_ => exact open_

/-- With nothing closed, what is entered is what some seed has a path to. -/
theorem enters_iff_path {id : ObjectId} :
    Enters h c {} seeds id ↔ ∃ seed ∈ seeds, h.Path c seed id := by
  constructor
  · intro e
    induction e with
    | seed member alive _ => exact ⟨_, member, .here alive⟩
    | child _ leave child alive _ ih =>
        obtain ⟨seed, member, path⟩ := ih
        exact ⟨seed, member, .step path leave child alive⟩
  · rintro ⟨seed, member, path⟩
    have nothing : ∀ slot, ({} : SlotSet).contains slot = false := SlotSet.contains_withRoom 0
    induction path with
    | here alive => exact .seed member alive (nothing _)
    | step _ leave child alive ih => exact .child ih leave child alive (nothing _)

/-- The marks are the slots of the objects found, which were all entered. -/
structure Sound (h : Heap) (c : Option ObjectClass) (closed : SlotSet) (seeds : List ObjectId)
    (s : Survey) : Prop where
  marks : ∀ slot, s.marks.contains slot = true ↔ ∃ id ∈ s.found, id.slot = slot
  found : ∀ id ∈ s.found, Enters h c closed seeds id
  nodup : s.found.Nodup

theorem found_visit (closed : SlotSet) (parent : Option ObjectId) (id : ObjectId) (s : Survey) :
    (visit closed parent id s).2.found =
      if closed.contains id.slot = false ∧ s.marks.contains id.slot = false then s.found ++ [id]
      else s.found := by
  unfold visit
  cases hc : closed.contains id.slot <;> cases hm : s.marks.contains id.slot <;> simp [Survey.found]

theorem contains_visit (closed : SlotSet) (parent : Option ObjectId) (id : ObjectId) (s : Survey) (slot : Nat) :
    (visit closed parent id s).2.marks.contains slot =
      (s.marks.contains slot || !closed.contains id.slot && decide (id.slot = slot)) := by
  unfold visit
  cases hc : closed.contains id.slot
  · simp [Bool.or_comm]
  · simp

theorem fresh_visit (closed : SlotSet) (parent : Option ObjectId) (id : ObjectId) (s : Survey) :
    (visit closed parent id s).1 = (!closed.contains id.slot && !s.marks.contains id.slot) := by
  unfold visit
  cases closed.contains id.slot <;> rfl

theorem sound_visit {s : Survey} (sound : Sound h c closed seeds s) (parent : Option ObjectId)
    {id : ObjectId} (enters : closed.contains id.slot = false → Enters h c closed seeds id) :
    Sound h c closed seeds (visit closed parent id s).2 := by
  by_cases new : closed.contains id.slot = false ∧ s.marks.contains id.slot = false
  · have found := found_visit closed parent id s
    rw [if_pos new] at found
    refine ⟨?_, ?_, ?_⟩
    · intro slot
      rw [contains_visit, new.1, found, Bool.or_eq_true, sound.marks]
      simp only [List.mem_append, List.mem_singleton, Bool.not_false, Bool.true_and,
        decide_eq_true_eq]
      constructor
      · rintro (⟨x, member, e⟩ | e)
        · exact ⟨x, .inl member, e⟩
        · exact ⟨id, .inr rfl, e⟩
      · rintro ⟨x, member | rfl, e⟩
        · exact .inl ⟨x, member, e⟩
        · exact .inr e
    · intro x member
      rw [found] at member
      rcases List.mem_append.1 member with old | last
      · exact sound.found x old
      · exact List.mem_singleton.1 last ▸ enters new.1
    · rw [found]
      refine List.nodup_append.2 ⟨sound.nodup, by simp, ?_⟩
      rintro x old y last rfl
      have marked := (sound.marks x.slot).2 ⟨x, old, rfl⟩
      rw [List.mem_singleton.1 last, new.2] at marked
      cases marked
  · have found := found_visit closed parent id s
    rw [if_neg new] at found
    refine ⟨?_, found ▸ sound.found, found ▸ sound.nodup⟩
    intro slot
    rw [contains_visit, found, ← sound.marks]
    cases hc : closed.contains id.slot
    · by_cases same : id.slot = slot
      · subst same
        cases hm : s.marks.contains id.slot
        · exact (new ⟨hc, hm⟩).elim
        · simp
      · simp [same]
    · simp

theorem guards_sound (parent : Option ObjectId) (id : ObjectId)
    (enters : h.isAlive id = true → closed.contains id.slot = false →
      Enters h c closed seeds id) :
    Walk.Guards (visitor h closed) c (Sound h c closed seeds)
      (fun id => Enters h c closed seeds id ∧ h.classOf? id ≠ c) parent id where
  keeps := fun _ alive sound => sound_visit sound parent (enters alive)
  queues := fun s alive leave _ fresh => by
    have open_ := (fresh_visit closed parent id s).symm.trans fresh
    rw [Bool.and_eq_true, Bool.not_eq_true'] at open_
    exact ⟨enters alive open_.1, leave⟩

/-- The start of a reference is unmarked, or its end is marked or closed. -/
def Followed (h : Heap) (closed : SlotSet) (s : Survey) (p z : ObjectId) : Prop :=
  h.isAlive p = true → s.marks.contains p.slot = true →
    s.marks.contains z.slot = true ∨ closed.contains z.slot = true

theorem settles_visitor : Walk.Settles (visitor h closed) (Followed h closed) where
  met := fun p z s _ _ _ => by
    have e := contains_visit closed (some p) z s z.slot
    cases hc : closed.contains z.slot
    · exact .inl (e.trans (by simp [hc]))
    · exact .inr rfl
  kept := fun parent y s p z alive settled => by
    by_cases new : p = y ∧ (visit closed parent y s).1 = true
    · exact .inr new
    · refine .inl fun aliveP marked => ?_
      have before : s.marks.contains p.slot = true := by
        have e := (contains_visit closed parent y s p.slot).symm.trans marked
        rcases Bool.or_eq_true_iff.1 e with old | met
        · exact old
        · simp only [Bool.and_eq_true, Bool.not_eq_true', decide_eq_true_eq] at met
          have same : p = y := Heap.eq_of_isAlive aliveP alive met.2.symm
          subst same
          cases hm : s.marks.contains p.slot
          · exact (new ⟨rfl, (fresh_visit closed parent p s).trans (by simp [met.1, hm])⟩).elim
          · rfl
      refine (settled aliveP before).imp (fun old => ?_) id
      exact (contains_visit closed parent y s z.slot).trans (by simp [old])

section Run

/-- A walk that has met nothing, whatever it was used for before. -/
structure Fresh (w : Walk Survey) : Prop where
  queue : w.queue.toList = []
  found : w.marks.found = []
  marks : ∀ slot, w.marks.marks.contains slot = false

theorem fresh_withRoom {queue : Ring ObjectId} (empty : queue.toList = []) (room : Nat) :
    Fresh { queue, marks := { marks := .withRoom room } } where
  queue := empty
  found := rfl
  marks := SlotSet.contains_withRoom room

theorem fresh_start (capacity room : Nat) :
    Fresh (Walk.start capacity { marks := .withRoom room }) :=
  fresh_withRoom (Ring.toList_withCapacity capacity) room

variable {w : Walk Survey}

theorem sound_of_fresh (fresh : Fresh w) : Sound h c closed seeds w.marks where
  marks := fun slot => by simp [fresh.marks slot, fresh.found]
  found := fun id member => by simp [fresh.found] at member
  nodup := by simp [fresh.found]

theorem sound_run (fresh : Fresh w) :
    Sound h c closed seeds (Walk.run (visitor h closed) c seeds w).marks := by
  have seeded : ∀ id ∈ seeds, Walk.Guards (visitor h closed) c (Sound h c closed seeds)
      (fun id => Enters h c closed seeds id ∧ h.classOf? id ≠ c) none id :=
    fun id member => guards_sound none id fun alive open_ => .seed member alive open_
  have met := Walk.meetAll_invariant seeded (sound_of_fresh fresh)
    fun x member => by rw [fresh.queue] at member; cases member
  refine Walk.drain_invariant ?_ met.1 met.2
  intro p parent id child
  exact guards_sound (some p) id fun alive open_ => .child parent.1 parent.2 child alive open_

theorem stable_contains (slot : Nat) (parent : Option ObjectId) (id : ObjectId) (s : Survey)
    (marked : s.marks.contains slot = true) :
    ((visitor h closed).visit parent id s).2.marks.contains slot = true :=
  (contains_visit closed parent id s slot).trans (by simp [marked])

theorem covered_run (fresh : Fresh w) {p z : ObjectId} (leave : h.classOf? p ≠ c)
    (child : z ∈ h.children p) (alive : h.isAlive z = true) :
    Followed h closed (Walk.run (visitor h closed) c seeds w).marks p z := by
  refine Walk.settled_drain settles_visitor ?_ leave child alive
  intro q y _
  refine Walk.covered_meetAll settles_visitor ?_ none seeds
  exact fun _ _ => .inl fun _ marked => by simp [fresh.marks] at marked

theorem contains_of_enters (fresh : Fresh w) {id : ObjectId} (e : Enters h c closed seeds id) :
    (Walk.run (visitor h closed) c seeds w).marks.marks.contains id.slot = true := by
  induction e with
  | @seed id member alive open_ =>
      apply Walk.drain_stable (fun parent x s _ => stable_contains id.slot parent x s)
      refine Walk.meetAll_establishes (I := fun s => s.marks.contains id.slot = true)
        (fun parent x s _ => stable_contains id.slot parent x s) (fun s => ?_) member alive w
      exact (contains_visit closed none id s id.slot).trans (by simp [open_])
  | child parent leave child alive open_ ih =>
      rcases covered_run fresh leave child alive parent.alive ih with marked | shut
      · exact marked
      · rw [open_] at shut
        cases shut

/-- A live object is marked exactly if it is entered. -/
theorem contains_run (fresh : Fresh w) {id : ObjectId} (alive : h.isAlive id = true) :
    (Walk.run (visitor h closed) c seeds w).marks.marks.contains id.slot = true ↔
      Enters h c closed seeds id := by
  refine ⟨fun marked => ?_, contains_of_enters fresh⟩
  have sound : Sound h c closed seeds _ := sound_run fresh
  obtain ⟨x, member, slot⟩ := (sound.marks id.slot).1 marked
  have entered := sound.found x member
  exact Heap.eq_of_isAlive entered.alive alive slot ▸ entered

theorem mem_found_run (fresh : Fresh w) {id : ObjectId} :
    id ∈ (Walk.run (visitor h closed) c seeds w).marks.found ↔ Enters h c closed seeds id := by
  have sound : Sound h c closed seeds _ := sound_run fresh
  refine ⟨sound.found id, fun e => ?_⟩
  obtain ⟨x, member, slot⟩ := (sound.marks id.slot).1 (contains_of_enters fresh e)
  exact Heap.eq_of_isAlive (sound.found x member).alive e.alive slot ▸ member

theorem nodup_found_run (fresh : Fresh w) :
    (Walk.run (visitor h closed) c seeds w).marks.found.Nodup :=
  (sound_run fresh).nodup

end Run

end TwinHeap.Survey
