import TwinHeap.History

/-! What the operations of a heap do to the object a name stands for. Cells are looked into here and
where they are counted: every other proof reads a heap through `get?`, `occupant?`, `Known` and
`age`. -/
namespace TwinHeap.Heap

/-- The cells on the free list are empty, and none is listed twice. -/
structure WellFormed (h : Heap) : Prop where
  empty : ∀ n ∈ h.free, ∃ c, h.cells[n]? = some c ∧ c.occupant = none
  nodup : h.free.Nodup

/-- The name was given to an object once. Names of objects to come are not known. -/
def Known (h : Heap) (id : ObjectId) : Prop :=
  ∃ c, h.cells[id.slot]? = some c ∧
    (id.generation < c.generation ∨ id.generation = c.generation ∧ c.occupant.isSome = true)

/-- The generation of a cell; a cell that was never used has the first one. -/
def age (h : Heap) (slot : Nat) : UInt32 := ((h.cells[slot]?).map Cell.generation).getD 0

/-- The object in a cell, whatever its name. -/
def occupant? (h : Heap) (slot : Nat) : Option Object := (h.cells[slot]?).bind Cell.occupant

/-- No cell of `h` has gone round to a lower generation in `h'`. -/
def Rising (h h' : Heap) : Prop := ∀ slot, h.age slot ≤ h'.age slot

theorem wellFormed_empty : WellFormed {} where
  empty := fun n member => by cases member
  nodup := List.nodup_nil

theorem get?_of_cells_eq {h h' : Heap} (same : h'.cells = h.cells) (id : ObjectId) :
    h'.get? id = h.get? id := by
  simp only [get?, same]

theorem occupant?_of_cells_eq {h h' : Heap} (same : h'.cells = h.cells) (slot : Nat) :
    h'.occupant? slot = h.occupant? slot := by
  simp only [occupant?, same]

theorem isAlive_iff {h : Heap} {id : ObjectId} : h.isAlive id = true ↔ ∃ o, h.get? id = some o :=
  Option.isSome_iff_exists

/-- A name stands for what is in its cell while the cell has its generation. -/
theorem get?_eq (h : Heap) (id : ObjectId) :
    h.get? id = if h.age id.slot = id.generation then h.occupant? id.slot else none := by
  unfold get? age occupant?
  cases h.cells[id.slot]? with
  | none => simp
  | some c => rfl

theorem get?_eq_some_iff {h : Heap} {id : ObjectId} {o : Object} :
    h.get? id = some o ↔ h.occupant? id.slot = some o ∧ h.age id.slot = id.generation := by
  rw [get?_eq]
  split
  · rename_i current
    exact (and_iff_left current).symm
  · rename_i other
    exact iff_of_false (fun none => nomatch none) fun both => other both.2

theorem isAlive_iff_occupant? {h : Heap} {id : ObjectId} :
    h.isAlive id = true ↔
      (h.occupant? id.slot).isSome = true ∧ h.age id.slot = id.generation := by
  simp only [isAlive_iff, get?_eq_some_iff, Option.isSome_iff_exists, exists_and_right]

theorem weakTarget?_eq_some_iff {h : Heap} {w t : ObjectId} :
    h.weakTarget? w = some t ↔
      (h.get? w).bind Object.weakTarget? = some t ∧ h.isAlive t = true := by
  rw [weakTarget?, Option.filter_eq_some_iff]

theorem lt_capacity_of_occupant? {h : Heap} {slot : Nat}
    (held : (h.occupant? slot).isSome = true) : slot < h.capacity := by
  obtain ⟨o, found⟩ := Option.isSome_iff_exists.1 held
  obtain ⟨c, hc, -⟩ := Option.bind_eq_some_iff.1 found
  exact (Array.getElem?_eq_some_iff.1 hc).1

theorem proxy?_eq_some_iff {h : Heap} {id : ObjectId} {q : Proxy} :
    h.proxy? id = some q ↔ ∃ c, h.get? id = some ⟨c, .proxy q⟩ := by
  unfold proxy?
  cases e : h.get? id with
  | none => simp
  | some o =>
    obtain ⟨c, body⟩ := o
    cases body <;> simp [Object.proxy?]

theorem isAlive_of_proxy? {h : Heap} {id : ObjectId} {q : Proxy} (found : h.proxy? id = some q) :
    h.isAlive id = true := by
  obtain ⟨c, e⟩ := proxy?_eq_some_iff.1 found
  exact isAlive_iff.2 ⟨_, e⟩

theorem known_of_isAlive {h : Heap} {id : ObjectId} (alive : h.isAlive id = true) : h.Known id := by
  unfold isAlive get? at alive
  split at alive
  · rename_i c hc
    split at alive
    · rename_i same
      exact ⟨c, hc, .inr ⟨same.symm, alive⟩⟩
    · cases alive
  · cases alive

theorem eq_of_parts {a b : ObjectId} (slot : a.slot = b.slot)
    (generation : a.generation = b.generation) : a = b := by
  cases a
  cases b
  cases slot
  cases generation
  rfl

/-- Two live names of one slot are one name. -/
theorem eq_of_isAlive {h : Heap} {a b : ObjectId} (ha : h.isAlive a = true)
    (hb : h.isAlive b = true) (slot : a.slot = b.slot) : a = b := by
  have same := (isAlive_iff_occupant?.1 ha).2
  rw [slot, (isAlive_iff_occupant?.1 hb).2] at same
  exact eq_of_parts slot same.symm

theorem occupant?_of_mem_free {h : Heap} (hw : h.WellFormed) {slot : Nat} (free : slot ∈ h.free) :
    h.occupant? slot = none := by
  obtain ⟨c, hc, vacant⟩ := hw.empty slot free
  simp only [occupant?, hc, Option.bind_some, vacant]

section Place

variable {h : Heap} (o : Object)

theorem age_place (slot : Nat) : (h.place o).2.age slot = h.age slot := by
  unfold place age
  split
  · rename_i n free e
    by_cases hs : n = slot
    · cases hc : h.cells[slot]? <;> simp [Array.getElem?_modify, hs, hc]
    · simp [Array.getElem?_modify, hs]
  · by_cases hs : slot = h.cells.size
    · simp [hs]
    · simp [Array.getElem?_push, hs]

theorem occupant?_place (hw : h.WellFormed) (slot : Nat) :
    (h.place o).2.occupant? slot =
      if slot = (h.place o).1.slot then some o else h.occupant? slot := by
  unfold place occupant?
  split
  · rename_i n free e
    obtain ⟨c, hc, -⟩ := hw.empty n (e ▸ List.mem_cons_self)
    by_cases same : slot = n
    · simp [Array.getElem?_modify, same, hc]
    · simp [Array.getElem?_modify, same, Ne.symm same]
  · by_cases same : slot = h.cells.size
    · simp [same]
    · simp [Array.getElem?_push, same]

/-- A new object is put into an empty cell. -/
theorem vacant_place (hw : h.WellFormed) : h.occupant? (h.place o).1.slot = none := by
  unfold place
  split
  · rename_i n free e
    exact occupant?_of_mem_free hw (e ▸ List.mem_cons_self)
  · simp [occupant?]

theorem generation_place : (h.place o).1.generation = h.age (h.place o).1.slot := by
  unfold place
  split
  · rfl
  · simp [age]

theorem get?_place (hw : h.WellFormed) (id : ObjectId) :
    (h.place o).2.get? id = if id = (h.place o).1 then some o else h.get? id := by
  rw [get?_eq, get?_eq, age_place, occupant?_place o hw]
  by_cases slot : id.slot = (h.place o).1.slot
  · rw [if_pos slot, slot, vacant_place o hw, ← generation_place, ite_self]
    by_cases generation : (h.place o).1.generation = id.generation
    · rw [if_pos generation, if_pos (eq_of_parts slot generation.symm)]
    · rw [if_neg generation,
        if_neg fun same => generation (congrArg ObjectId.generation same.symm)]
  · rw [if_neg slot, if_neg fun same => slot (congrArg ObjectId.slot same)]

theorem wellFormed_place (hw : h.WellFormed) : (h.place o).2.WellFormed := by
  unfold place
  split
  · rename_i n free e
    have hn := hw.nodup
    rw [e, List.nodup_cons] at hn
    refine ⟨?_, hn.2⟩
    intro m member
    obtain ⟨c, hc, vacant⟩ := hw.empty m (e ▸ List.mem_cons_of_mem n member)
    have ne : n ≠ m := fun same => hn.1 (same ▸ member)
    exact ⟨c, by simpa only [Array.getElem?_modify, if_neg ne] using hc, vacant⟩
  · refine ⟨?_, hw.nodup⟩
    intro m member
    obtain ⟨c, hc, vacant⟩ := hw.empty m member
    have below : m < h.cells.size := (Array.getElem?_eq_some_iff.1 hc).1
    exact ⟨c, by simpa only [Array.getElem?_push, if_neg (Nat.ne_of_lt below)] using hc, vacant⟩

/-- A new object gets a name that no object had before, unless generations have gone round. -/
theorem not_known_place (hw : h.WellFormed) : ¬ h.Known (h.place o).1 := by
  unfold place
  split
  · rename_i n free e
    obtain ⟨c, hc, vacant⟩ := hw.empty n (e ▸ List.mem_cons_self)
    rintro ⟨d, hd, older⟩
    simp only at hd older
    rw [hc] at hd
    cases hd
    simp [hc, vacant] at older
  · rintro ⟨d, hd, older⟩
    simp at hd

theorem isAlive_place (hw : h.WellFormed) : (h.place o).2.isAlive (h.place o).1 = true := by
  simp [isAlive, get?_place o hw]

theorem known_place {id : ObjectId} (known : h.Known id) : (h.place o).2.Known id := by
  obtain ⟨c, hc, older⟩ := known
  unfold place
  split
  · rename_i n free e
    by_cases hs : n = id.slot
    · refine ⟨{ c with occupant := some o }, by simp [Array.getElem?_modify, hs, hc], ?_⟩
      exact older.imp (fun e => e) fun e => ⟨e.1, rfl⟩
    · exact ⟨c, by simpa only [Array.getElem?_modify, if_neg hs] using hc, older⟩
  · have below : id.slot < h.cells.size := (Array.getElem?_eq_some_iff.1 hc).1
    exact ⟨c, by simpa only [Array.getElem?_push, if_neg (Nat.ne_of_lt below)] using hc, older⟩

/-- Without empty cells there is room as long as there are numbers. -/
theorem hasRoom_iff (none : h.free = []) : h.hasRoom = true ↔ h.capacity < slotLimit := by
  rw [hasRoom, none, List.isEmpty_nil, Bool.not_true, Bool.false_or, decide_eq_true_eq]
  rfl

/-- An object is put into a cell as long as there is room. -/
theorem alloc_cases (h : Heap) (o : Object) :
    h.hasRoom = true ∧ h.alloc o = { state := (h.place o).2, answer := .ok (h.place o).1 } ∨
      h.hasRoom = false ∧ h.alloc o = { state := h, answer := .error noRoom } := by
  unfold alloc
  cases h.hasRoom
  · exact .inr ⟨rfl, rfl⟩
  · exact .inl ⟨rfl, rfl⟩

theorem state_alloc (h : Heap) (o : Object) :
    (h.alloc o).state = (h.place o).2 ∨ (h.alloc o).state = h :=
  (h.alloc_cases o).imp (fun made => congrArg Outcome.state made.2) fun full =>
    congrArg Outcome.state full.2

theorem alloc_eq_ok {id : ObjectId} (made : (h.alloc o).answer = .ok id) :
    h.hasRoom = true ∧ id = (h.place o).1 ∧ (h.alloc o).state = (h.place o).2 := by
  rcases h.alloc_cases o with ⟨room, same⟩ | ⟨-, same⟩
  · rw [same] at made ⊢
    cases made
    exact ⟨room, rfl, rfl⟩
  · rw [same] at made
    cases made

end Place

section Put

variable {h : Heap} {id : ObjectId} {o : Object}

theorem age_put (slot n : Nat) (new : Object) : (h.put slot new).age n = h.age n := by
  unfold put age
  by_cases hs : slot = n
  · cases hc : h.cells[n]? <;> simp [Array.getElem?_modify, hs, hc]
  · simp [Array.getElem?_modify, hs]

theorem occupant?_put (found : h.get? id = some o) (new : Object) (slot : Nat) :
    (h.put id.slot new).occupant? slot = if slot = id.slot then some new else h.occupant? slot := by
  have held := (get?_eq_some_iff.1 found).1
  obtain ⟨c, hc, -⟩ := Option.bind_eq_some_iff.1 held
  unfold put occupant?
  by_cases same : slot = id.slot
  · simp [Array.getElem?_modify, same, hc]
  · simp [Array.getElem?_modify, same, Ne.symm same]

theorem get?_put (found : h.get? id = some o) (new : Object) (x : ObjectId) :
    (h.put id.slot new).get? x = if x = id then some new else h.get? x := by
  have current := (get?_eq_some_iff.1 found).2
  rw [get?_eq, get?_eq, age_put, occupant?_put found]
  by_cases slot : x.slot = id.slot
  · rw [if_pos slot, slot, current]
    by_cases generation : id.generation = x.generation
    · rw [if_pos generation, if_pos (eq_of_parts slot generation.symm)]
    · rw [if_neg generation, if_neg generation,
        if_neg fun same => generation (congrArg ObjectId.generation same.symm)]
  · rw [if_neg slot, if_neg fun same => slot (congrArg ObjectId.slot same)]

theorem wellFormed_put (hw : h.WellFormed) (found : h.get? id = some o) (new : Object) :
    (h.put id.slot new).WellFormed := by
  refine ⟨?_, hw.nodup⟩
  intro n member
  obtain ⟨c, hc, vacant⟩ := hw.empty n member
  have ne : id.slot ≠ n := by
    rintro rfl
    simp [get?, hc, vacant] at found
  exact ⟨c, by simpa only [put, Array.getElem?_modify, if_neg ne] using hc, vacant⟩

theorem known_put {x : ObjectId} (known : h.Known x) (slot : Nat) (new : Object) :
    (h.put slot new).Known x := by
  obtain ⟨c, hc, older⟩ := known
  by_cases hs : slot = x.slot
  · refine ⟨{ c with occupant := some new }, by simp [put, Array.getElem?_modify, hs, hc], ?_⟩
    exact older.imp (fun e => e) fun e => ⟨e.1, rfl⟩
  · exact ⟨c, by simpa only [put, Array.getElem?_modify, if_neg hs] using hc, older⟩

end Put

section Sweep

variable {h : Heap} (marks : SlotSet)

theorem cells_sweep (n : Nat) :
    (h.sweep marks).2.cells[n]? = (h.cells[n]?).map fun c => c.sweep (marks.contains n) := by
  simp [sweep]

theorem occupant?_sweep (slot : Nat) :
    (h.sweep marks).2.occupant? slot = if marks.contains slot then h.occupant? slot else none := by
  unfold occupant?
  rw [cells_sweep]
  cases h.cells[slot]? with
  | none => simp
  | some c =>
      obtain ⟨generation, occupant⟩ := c
      cases hm : marks.contains slot <;> cases occupant <;> simp [Cell.sweep]

/-- Emptying a cell is what moves its generation on. -/
theorem age_sweep_eq (slot : Nat) :
    (h.sweep marks).2.age slot =
      if (h.occupant? slot).isSome && !marks.contains slot then h.age slot + 1
      else h.age slot := by
  unfold age occupant?
  rw [cells_sweep]
  cases h.cells[slot]? with
  | none => simp
  | some c =>
      simp only [Option.map_some, Option.getD_some, Option.bind_some, Cell.sweep]
      split <;> rfl

theorem get?_sweep (id : ObjectId) :
    (h.sweep marks).2.get? id = if marks.contains id.slot then h.get? id else none := by
  rw [get?_eq, get?_eq, age_sweep_eq, occupant?_sweep]
  cases marks.contains id.slot <;> simp

theorem mem_unmarked {n : Nat} :
    n ∈ h.unmarked marks ↔
      ∃ c, h.cells[n]? = some c ∧ c.occupant.isSome = true ∧ marks.contains n = false := by
  simp only [unmarked, List.mem_filterMap, Prod.exists, List.mem_zipIdx_iff_getElem?,
    Array.getElem?_toList]
  constructor
  · rintro ⟨c, m, hc, e⟩
    split at e
    · rename_i cond
      cases e
      simp only [Bool.and_eq_true, Bool.not_eq_true'] at cond
      exact ⟨c, hc, cond.1, cond.2⟩
    · cases e
  · rintro ⟨c, hc, occupied, unmarked⟩
    exact ⟨c, n, hc, by simp [occupied, unmarked]⟩

theorem nodup_numbers (h : Heap) : (h.cells.toList.zipIdx.map Prod.snd).Nodup := by
  rw [List.zipIdx_map_snd]
  exact List.nodup_range'

theorem nodup_unmarked : (h.unmarked marks).Nodup := by
  refine List.Nodup.sublist ?_ (nodup_numbers h)
  unfold unmarked
  generalize h.cells.toList.zipIdx = entries
  induction entries with
  | nil => exact List.Sublist.slnil
  | cons e entries ih =>
    obtain ⟨c, n⟩ := e
    by_cases kept : (c.occupant.isSome && !marks.contains n) = true
    · simpa only [List.filterMap_cons, List.map_cons, if_pos kept] using ih.cons_cons n
    · simpa only [List.filterMap_cons, List.map_cons, if_neg kept] using ih.cons n

theorem wellFormed_sweep (hw : h.WellFormed) : (h.sweep marks).2.WellFormed := by
  constructor
  · intro n member
    rw [cells_sweep]
    rcases List.mem_append.1 member with new | old
    · obtain ⟨c, hc, occupied, unmarked⟩ := (mem_unmarked marks).1 (List.mem_reverse.1 new)
      exact ⟨_, by rw [hc]; rfl, by simp [Cell.sweep, occupied, unmarked]⟩
    · obtain ⟨c, hc, vacant⟩ := hw.empty n old
      exact ⟨c, by simp [hc, Cell.sweep, vacant], vacant⟩
  · refine List.nodup_append.2 ⟨?_, hw.nodup, ?_⟩
    · exact (List.reverse_perm _).nodup_iff.2 (nodup_unmarked marks)
    · rintro n new m old rfl
      obtain ⟨c, hc, occupied, -⟩ := (mem_unmarked marks).1 (List.mem_reverse.1 new)
      obtain ⟨d, hd, vacant⟩ := hw.empty n old
      rw [hc] at hd
      cases hd
      simp [vacant] at occupied

theorem known_sweep {id : ObjectId} (rising : h.Rising (h.sweep marks).2) (known : h.Known id) :
    (h.sweep marks).2.Known id := by
  obtain ⟨c, hc, older⟩ := known
  have up := rising id.slot
  refine ⟨c.sweep (marks.contains id.slot), by rw [cells_sweep, hc]; rfl, ?_⟩
  simp only [age, cells_sweep, hc, Option.map_some, Option.getD_some] at up
  unfold Cell.sweep at up ⊢
  split
  · rename_i swept
    rw [if_pos swept] at up
    have step : c.generation < c.generation + 1 := by
      rw [UInt32.lt_iff_toNat_lt]
      rw [UInt32.le_iff_toNat_le] at up
      have := UInt32.toNat_add c.generation 1
      have := c.generation.toNat_lt
      simp only [UInt32.toNat_one] at *
      omega
    left
    rcases older with lower | ⟨same, -⟩
    · exact UInt32.lt_trans lower step
    · exact same ▸ step
  · exact older

end Sweep

end TwinHeap.Heap
