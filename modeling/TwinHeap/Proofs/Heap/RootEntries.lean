import TwinHeap.Heap.History
import TwinHeap.Proofs.Side.Rooting

/-! The entries of the roots and the list of those that were given back. The list goes wrong by one
kind of step only: a handle that was given back is pointed at an object. -/
namespace TwinHeap.Heap

/-- The root that a handle names. -/
def root? (h : Heap) (r : RootHandle) : Option ObjectId := (h.roots[r.number]?).join

/-- No listed entry holds a root, and none is listed twice. -/
structure Spare (h : Heap) : Prop where
  vacant : ∀ n ∈ h.freeRoots, h.root? ⟨n⟩ = none
  nodup : h.freeRoots.Nodup

/-- The event points a handle that was given back at an object. -/
def Refills (h : Heap) (event : HeapEvent) : Prop :=
  ∃ r x, event = .mutate (.setRoot r (some x)) ∧ r.number ∈ h.freeRoots

/-- The event is one by which the owner of a handle gives up its root. -/
def Yields (r : RootHandle) (event : HeapEvent) : Prop :=
  (∃ x, event = .mutate (.setRoot r x)) ∨ event = .mutate (.removeRoot r)

/-- Registers several roots, each of which gets a handle. -/
def addRoots (h : Heap) (ids : List ObjectId) : Heap := ids.foldl (fun h id => (h.addRoot id).2) h

variable {h h' : Heap} {r q : RootHandle}

theorem mem_rootIds_iff {x : ObjectId} : x ∈ h.rootIds ↔ ∃ r, h.root? r = some x := by
  simp only [rootIds, List.mem_filterMap, id, root?, Option.join_eq_some_iff]
  constructor
  · rintro ⟨_, member, rfl⟩
    obtain ⟨n, found⟩ := List.mem_iff_getElem?.1 member
    exact ⟨⟨n⟩, by rwa [Array.getElem?_toList] at found⟩
  · rintro ⟨r, found⟩
    exact ⟨some x, List.mem_iff_getElem?.2 ⟨r.number, by rwa [Array.getElem?_toList]⟩, rfl⟩

theorem spare_of_nil (none : h.freeRoots = []) : h.Spare where
  vacant := fun n member => by
    rw [none] at member
    cases member
  nodup := none ▸ List.nodup_nil

section Steps

theorem KeepsRoots.root? (keeps : h.KeepsRoots h') (r : RootHandle) : h'.root? r = h.root? r := by
  simp only [Heap.root?, keeps.roots]

theorem KeepsRoots.spare (keeps : h.KeepsRoots h') (spare : h.Spare) : h'.Spare where
  vacant := fun n member => by
    rw [keeps.root?]
    exact spare.vacant n (keeps.free ▸ member)
  nodup := keeps.free ▸ spare.nodup

theorem root?_setRoot (h : Heap) (r q : RootHandle) (x : Option ObjectId) :
    (h.setRoot r x).root? q =
      if q = r ∧ r.number < h.roots.size then x else h.root? q := by
  obtain ⟨n⟩ := r
  obtain ⟨m⟩ := q
  unfold setRoot root?
  by_cases same : n = m
  · subst same
    by_cases below : n < h.roots.size
    · simp [below]
    · simp [below]
  · simp [same, Ne.symm same]

theorem root?_addRoot (rootable : h.Rootable) (id : ObjectId) (q : RootHandle) :
    (h.addRoot id).2.root? q = if q = (h.addRoot id).1 then some id else h.root? q := by
  obtain ⟨m⟩ := q
  unfold addRoot root?
  split
  · rename_i n free listed
    have below : n < h.roots.size := rootable n (listed ▸ List.mem_cons_self)
    by_cases same : n = m
    · subst same
      simp [below]
    · simp [same, Ne.symm same]
  · by_cases same : m = h.roots.size
    · simp [same]
    · simp [Array.getElem?_push, same]

theorem root?_removeRoot (h : Heap) (r q : RootHandle) :
    (h.removeRoot r).root? q = if q = r then none else h.root? q := by
  have cleared := root?_setRoot h r q none
  unfold setRoot at cleared
  unfold removeRoot
  split
  · rename_i outside
    split
    · rename_i same
      rw [same, root?, outside]
      rfl
    · rfl
  · rename_i entry found
    have below : r.number < h.roots.size := (Array.getElem?_eq_some_iff.1 found).1
    simp only [below, and_true] at cleared
    dsimp only
    split
    · exact cleared
    · exact cleared

/-- Unless the list is wrong already, removing a root lists its entry once. -/
theorem freeRoots_removeRoot (spare : h.Spare) (r : RootHandle) :
    (h.removeRoot r).freeRoots = h.freeRoots ∨
      r.number ∉ h.freeRoots ∧ (h.removeRoot r).freeRoots = r.number :: h.freeRoots := by
  unfold removeRoot
  split
  · exact .inl rfl
  · rename_i entry found
    dsimp only
    split
    · rename_i asked
      refine .inr ⟨fun listed => ?_, rfl⟩
      -- an entry that holds a root is listed unasked; here the invariant has to answer for it
      have vacant := spare.vacant r.number listed
      rw [root?, found] at vacant
      cases entry with
      | none =>
          rw [List.contains_iff_mem.2 listed] at asked
          cases asked
      | some x => cases vacant
    · exact .inl rfl

theorem spare_removeRoot (spare : h.Spare) (r : RootHandle) : (h.removeRoot r).Spare := by
  rcases freeRoots_removeRoot spare r with same | ⟨fresh, listed⟩
  · refine ⟨fun n member => ?_, same ▸ spare.nodup⟩
    rw [root?_removeRoot]
    split
    · rfl
    · exact spare.vacant n (same ▸ member)
  · refine ⟨fun n member => ?_, listed ▸ List.nodup_cons.2 ⟨fresh, spare.nodup⟩⟩
    rw [root?_removeRoot]
    split
    · rfl
    · rename_i other
      rw [listed, List.mem_cons] at member
      refine spare.vacant n (member.resolve_left fun same => other ?_)
      rw [same]

/-- An entry that is given out is taken off the list. -/
theorem freeRoots_addRoot (h : Heap) (id : ObjectId) :
    h.freeRoots = (h.addRoot id).1.number :: (h.addRoot id).2.freeRoots ∨
      h.freeRoots = [] ∧ (h.addRoot id).2.freeRoots = [] ∧
        (h.addRoot id).1.number = h.roots.size := by
  unfold addRoot
  split
  · rename_i n free listed
    exact .inl listed
  · rename_i none
    exact .inr ⟨none, none, rfl⟩

/-- A new root takes an entry without one. -/
theorem root?_addRoot_eq_none (spare : h.Spare) (id : ObjectId) :
    h.root? (h.addRoot id).1 = none := by
  rcases h.freeRoots_addRoot id with listed | ⟨-, -, outside⟩
  · exact spare.vacant (h.addRoot id).1.number (listed ▸ List.mem_cons_self)
  · rw [root?, outside, Array.getElem?_eq_none (Nat.le_refl _)]
    rfl

theorem spare_addRoot (rootable : h.Rootable) (spare : h.Spare) (id : ObjectId) :
    (h.addRoot id).2.Spare := by
  rcases h.freeRoots_addRoot id with listed | ⟨-, none, -⟩
  · have apart := spare.nodup
    rw [listed, List.nodup_cons] at apart
    refine ⟨fun n member => ?_, apart.2⟩
    rw [root?_addRoot rootable, if_neg]
    · exact spare.vacant n (listed ▸ List.mem_cons_of_mem _ member)
    · exact fun same => apart.1 (same ▸ member)
  · exact spare_of_nil none

theorem spare_setRoot_iff (rootable : h.Rootable) (spare : h.Spare) (r : RootHandle)
    (x : Option ObjectId) : (h.setRoot r x).Spare ↔ (x.isSome = true → r.number ∉ h.freeRoots) := by
  constructor
  · intro still filled listed
    have vacant := still.vacant r.number listed
    rw [root?_setRoot, if_pos ⟨rfl, rootable r.number listed⟩] at vacant
    rw [vacant] at filled
    cases filled
  · intro unlisted
    refine ⟨fun n member => ?_, spare.nodup⟩
    rw [root?_setRoot]
    split
    · rename_i same
      cases x with
      | none => rfl
      | some id => exact (unlisted rfl (same.1 ▸ member)).elim
    · exact spare.vacant n member

end Steps

/-- An event that is no change of roots leaves them as they are. -/
theorem update_roots_cases (h : Heap) (event : HeapEvent) :
    (h.KeepsRoots (h.update event) ∧ ∀ r x, event ≠ .mutate (.setRoot r x)) ∨
    (∃ id, event = .mutate (.addRoot id)) ∨
    (∃ r x, event = .mutate (.setRoot r x)) ∨
    ∃ r, event = .mutate (.removeRoot r) := by
  cases event with
  | mutate m =>
      cases m with
      | alloc cls fields => exact .inl ⟨h.keepsRoots_alloc _, nofun⟩
      | allocWeak target => exact .inl ⟨h.keepsRoots_alloc _, nofun⟩
      | setField id n v => exact .inl ⟨h.keepsRoots_setField id n v, nofun⟩
      | pushField id v => exact .inl ⟨h.keepsRoots_pushField id v, nofun⟩
      | addRoot id => exact .inr (.inl ⟨id, rfl⟩)
      | setRoot r x => exact .inr (.inr (.inl ⟨r, x, rfl⟩))
      | removeRoot r => exact .inr (.inr (.inr ⟨r, rfl⟩))
  | alloc o => exact .inl ⟨h.keepsRoots_alloc o, nofun⟩
  | overwrite id o =>
      refine .inl ⟨?_, nofun⟩
      show h.KeepsRoots (h.overwrite id o)
      unfold overwrite
      split
      · exact h.keepsRoots_put id.slot o
      · exact .refl h
  | collect extra => exact .inl ⟨⟨rfl, rfl, numbered_of_size_eq Array.size_mapIdx⟩, nofun⟩

theorem rootable_update (rootable : h.Rootable) (event : HeapEvent) :
    (h.update event).Rootable := by
  rcases h.update_roots_cases event with ⟨keeps, -⟩ | ⟨id, rfl⟩ | ⟨r, x, rfl⟩ | ⟨r, rfl⟩
  · exact keeps.rootable rootable
  · exact rootable_mutate rootable _
  · exact rootable_mutate rootable _
  · exact rootable_mutate rootable _

theorem spare_update_iff (rootable : h.Rootable) (spare : h.Spare) (event : HeapEvent) :
    (h.update event).Spare ↔ ¬ h.Refills event := by
  rcases h.update_roots_cases event with ⟨keeps, other⟩ | ⟨id, rfl⟩ | ⟨r, x, rfl⟩ | ⟨r, rfl⟩
  · exact iff_of_true (keeps.spare spare) fun ⟨r, x, same, _⟩ => other r (some x) same
  · exact iff_of_true (spare_addRoot rootable spare id) nofun
  · refine (spare_setRoot_iff rootable spare r x).trans ⟨?_, fun tame filled listed => ?_⟩
    · rintro unlisted ⟨r, x, ⟨⟩, listed⟩
      exact unlisted rfl listed
    · obtain ⟨id, rfl⟩ := Option.isSome_iff_exists.1 filled
      exact tame ⟨r, id, rfl, listed⟩
  · exact iff_of_true (spare_removeRoot spare r) nofun

/-- As long as the list is right, a root stays at its handle until the owner gives it up. -/
theorem root?_update (rootable : h.Rootable) (spare : h.Spare) {x : ObjectId}
    (held : h.root? r = some x) {event : HeapEvent} (kept : ¬ Yields r event) :
    (h.update event).root? r = some x := by
  rcases h.update_roots_cases event with ⟨keeps, -⟩ | ⟨id, rfl⟩ | ⟨q, y, rfl⟩ | ⟨q, rfl⟩
  · rw [keeps.root?, held]
  · refine (root?_addRoot rootable id r).trans ?_
    rw [if_neg, held]
    rintro rfl
    rw [root?_addRoot_eq_none spare id] at held
    cases held
  · refine (root?_setRoot h q r y).trans ?_
    rw [if_neg, held]
    rintro ⟨rfl, -⟩
    exact kept (.inl ⟨y, rfl⟩)
  · refine (root?_removeRoot h q r).trans ?_
    rw [if_neg, held]
    rintro rfl
    exact kept (.inr rfl)

/-- No event of the history points a handle that was given back at an object. -/
def Tame (h : Heap) (events : List HeapEvent) : Prop :=
  ∀ past event later, past ++ event :: later = events → ¬ (h.history past).Refills event

theorem Tame.cons {event : HeapEvent} {rest : List HeapEvent} (tame : h.Tame (event :: rest)) :
    ¬ h.Refills event ∧ (h.update event).Tame rest :=
  ⟨tame [] event rest rfl, fun past x later split =>
    tame (event :: past) x later (congrArg (List.cons event) split)⟩

section Runs

variable (rootable : h.Rootable) (spare : h.Spare) {events : List HeapEvent}

theorem rootable_history (events : List HeapEvent) (rootable : h.Rootable) :
    (h.history events).Rootable := by
  induction events generalizing h with
  | nil => exact rootable
  | cons event rest ih => exact ih (rootable_update rootable event)

include rootable spare

theorem spare_history (tame : h.Tame events) : (h.history events).Spare := by
  induction events generalizing h with
  | nil => exact spare
  | cons event rest ih =>
      obtain ⟨now, later⟩ := tame.cons
      exact ih (rootable_update rootable event) ((spare_update_iff rootable spare event).2 now) later

/-- The list is right in every state of a history exactly if the history is tame. -/
theorem spare_history_iff :
    (∀ past later, past ++ later = events → (h.history past).Spare) ↔ h.Tame events := by
  constructor
  · intro always past event later split
    have there : (h.history past).Rootable := rootable_history past rootable
    have next := always (past ++ [event]) later (by rw [List.append_assoc]; exact split)
    rw [history_append] at next
    exact (spare_update_iff there (always past (event :: later) split) event).1 next
  · rintro tame past later rfl
    refine spare_history rootable spare fun first event rest split => ?_
    refine tame first event (rest ++ later) ?_
    rw [← split, List.append_assoc]
    rfl

theorem root?_history {x : ObjectId} (held : h.root? r = some x) (tame : h.Tame events)
    (kept : ∀ event ∈ events, ¬ Yields r event) : (h.history events).root? r = some x := by
  induction events generalizing h with
  | nil => exact held
  | cons event rest ih =>
      obtain ⟨now, later⟩ := tame.cons
      obtain ⟨first, others⟩ := List.forall_mem_cons.1 kept
      exact ih (rootable_update rootable event) ((spare_update_iff rootable spare event).2 now)
        (root?_update rootable spare held first) later others

end Runs

/-- The list was right if it is after the first entry has been given out, and that was vacant. -/
theorem spare_of_addRoot (rootable : h.Rootable) {id : ObjectId}
    (vacant : h.root? (h.addRoot id).1 = none) (later : (h.addRoot id).2.Spare) : h.Spare := by
  rcases h.freeRoots_addRoot id with listed | ⟨none, -⟩
  · have apart : ∀ n ∈ (h.addRoot id).2.freeRoots,
        n ≠ (h.addRoot id).1.number ∧ h.root? ⟨n⟩ = none := by
      intro n member
      have free := later.vacant n member
      rw [root?_addRoot rootable] at free
      split at free
      · cases free
      · rename_i other
        exact ⟨fun same => other (by rw [same]), free⟩
    constructor
    · intro n member
      rw [listed, List.mem_cons] at member
      rcases member with rfl | old
      · exact vacant
      · exact (apart n old).2
    · rw [listed, List.nodup_cons]
      exact ⟨fun member => (apart _ member).1 rfl, later.nodup⟩
  · exact spare_of_nil none

/-- The list is right exactly if no root is displaced, however many roots are added in a row. -/
theorem spare_iff_addRoots (rootable : h.Rootable) :
    h.Spare ↔
      ∀ ids id, (h.addRoots ids).root? ((h.addRoots ids).addRoot id).1 = none := by
  constructor
  · intro spare ids
    induction ids generalizing h with
    | nil => exact fun id => root?_addRoot_eq_none spare id
    | cons x ids ih => exact ih (rootable_addRoot rootable x) (spare_addRoot rootable spare x)
  · intro vacant
    -- the listed entries are given out one after the other
    generalize listed : h.freeRoots = free
    induction free generalizing h with
    | nil => exact spare_of_nil listed
    | cons n free ih =>
        have rest : (h.addRoot default).2.freeRoots = free := by
          rw [addRoot, listed]
        exact spare_of_addRoot rootable (vacant [] default)
          (ih (rootable_addRoot rootable default) (fun ids => vacant (default :: ids)) rest)

end TwinHeap.Heap
