import Mathlib.Data.List.Chain
import TwinHeap.Proofs.Marking.Surveyed

/-! A walk decides whether one object reaches another, and whether the roots do. What that means is
said by the objects on the way. -/
namespace TwinHeap.Heap

variable {h : Heap} {c : Option ObjectClass} {a b : ObjectId} {trail : List ObjectId}

/-- The objects on a chain of strong references. All are alive, and all but the last are of another
class than the opaque one. -/
structure Trail (h : Heap) (c : Option ObjectClass) (a b : ObjectId) (trail : List ObjectId) :
    Prop where
  first : trail.head? = some a
  last : trail.getLast? = some b
  alive : ∀ id ∈ trail, h.isAlive id = true
  clear : ∀ id ∈ trail.dropLast, h.classOf? id ≠ c
  linked : trail.IsChain fun p id => id ∈ h.children p

theorem trail_singleton (alive : h.isAlive a = true) : h.Trail c a a [a] where
  first := rfl
  last := rfl
  alive := by
    intro id member
    exact List.mem_singleton.1 member ▸ alive
  clear := by
    intro id member
    cases member
  linked := List.isChain_singleton a

theorem Trail.concat {id : ObjectId} (way : h.Trail c a b trail) (leave : h.classOf? b ≠ c)
    (child : id ∈ h.children b) (alive : h.isAlive id = true) :
    h.Trail c a id (trail ++ [id]) where
  first := by
    rw [List.head?_append, way.first]
    rfl
  last := List.getLast?_concat
  alive := by
    intro x member
    rcases List.mem_append.1 member with before | last
    · exact way.alive x before
    · exact List.mem_singleton.1 last ▸ alive
  clear := by
    intro x member
    rw [List.dropLast_concat, ← List.dropLast_append_getLast? b way.last] at member
    rcases List.mem_append.1 member with before | last
    · exact way.clear x before
    · exact List.mem_singleton.1 last ▸ leave
  linked := by
    apply way.linked.append (List.isChain_singleton id)
    intro x last y next
    rw [way.last, Option.mem_some_iff] at last
    rw [List.head?_singleton, Option.mem_some_iff] at next
    exact last ▸ next ▸ child

theorem Trail.tail {p id : ObjectId} (way : h.Trail c a b (p :: id :: trail)) :
    h.Trail c id b (id :: trail) where
  first := rfl
  last := way.last
  alive := by
    intro x member
    exact way.alive x (List.mem_cons_of_mem p member)
  clear := by
    intro x member
    exact way.clear x (List.mem_cons_of_mem p member)
  linked := (List.isChain_cons_cons.1 way.linked).2

theorem Trail.path (way : h.Trail c a b trail) : h.Path c a b := by
  induction trail generalizing a with
  | nil => cases way.first
  | cons p rest ih =>
      have first : p = a := Option.some.inj way.first
      subst first
      have alive := way.alive p List.mem_cons_self
      cases rest with
      | nil =>
          have last : p = b := Option.some.inj way.last
          exact last ▸ .here alive
      | cons id rest =>
          have leave := way.clear p List.mem_cons_self
          have child := (List.isChain_cons_cons.1 way.linked).1
          have next := ih way.tail
          exact .trans (.step (.here alive) leave child next.alive_first) next

theorem path_iff_trail : h.Path c a b ↔ ∃ trail, h.Trail c a b trail := by
  constructor
  · intro path
    induction path with
    | here alive => exact ⟨_, trail_singleton alive⟩
    | step path leave child alive ih =>
        obtain ⟨trail, way⟩ := ih
        exact ⟨trail ++ [_], way.concat leave child alive⟩
  · intro way
    obtain ⟨trail, way⟩ := way
    exact way.path

/-- A walk from several seeds meets what some of them has a path to. -/
theorem reaches_iff_path (opaqueClass : ObjectClass) (seeds : List ObjectId) (target : ObjectId) :
    (h.reaches opaqueClass seeds target).answer = true ↔
      ∃ seed ∈ seeds, h.Path (some opaqueClass) seed target := by
  unfold reaches
  split
  · rename_i alive
    exact (Survey.contains_run (Survey.fresh_start defaultQueueCapacity h.capacity) alive).trans
      Survey.enters_iff_path
  · rename_i dead
    constructor
    · intro reached
      cases reached
    · intro reached
      obtain ⟨seed, -, path⟩ := reached
      exact (dead path.alive_last).elim

/-- One object reaches another exactly if both are alive and there is a trail from the one to the
other; the roots reach it exactly if there is a trail from one of them that is alive. -/
theorem reaches_exact (h : Heap) (opaqueClass : ObjectClass) (target : ObjectId) :
    (∀ start, (h.reaches opaqueClass [start] target).answer = true ↔
      h.isAlive start = true ∧ h.isAlive target = true ∧
        ∃ trail, h.Trail (some opaqueClass) start target trail) ∧
    ((h.reaches opaqueClass h.rootIds target).answer = true ↔
      ∃ root ∈ h.rootIds, h.isAlive root = true ∧ h.isAlive target = true ∧
        ∃ trail, h.Trail (some opaqueClass) root target trail) := by
  have path_iff : ∀ start, h.Path (some opaqueClass) start target ↔
      h.isAlive start = true ∧ h.isAlive target = true ∧
        ∃ trail, h.Trail (some opaqueClass) start target trail := by
    intro start
    rw [← path_iff_trail]
    constructor
    · intro path
      exact ⟨path.alive_first, path.alive_last, path⟩
    · intro both
      exact both.2.2
  constructor
  · intro start
    rw [reaches_iff_path, ← path_iff]
    simp only [List.mem_singleton, exists_eq_left]
  · rw [reaches_iff_path]
    simp only [path_iff]

end TwinHeap.Heap
