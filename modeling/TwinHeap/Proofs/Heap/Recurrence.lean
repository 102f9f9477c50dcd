import TwinHeap.Proofs.Heap.Histories
import TwinHeap.Proofs.Heap.Marks

/-! When a name that has outlived its object stands for an object again. The generation of a cell
counts how often the cell was emptied, as far as a generation can count. -/
namespace TwinHeap.Heap

/-- The event takes the object out of the cell. -/
def empties (h : Heap) (event : HeapEvent) (slot : Nat) : Bool :=
  (h.occupant? slot).isSome && ((h.update event).occupant? slot).isNone

/-- How many events of a history take an object out of the cell. -/
def sweeps (slot : Nat) : Heap → List HeapEvent → Nat
  | _, [] => 0
  | h, event :: rest => (h.empties event slot).toNat + sweeps slot (h.update event) rest

variable {h : Heap} {slot : Nat}

theorem age_update (hw : h.WellFormed) (event : HeapEvent) (slot : Nat) :
    (h.update event).age slot = if h.empties event slot then h.age slot + 1 else h.age slot := by
  unfold empties
  rcases h.update_cases event with ⟨cells, -⟩ | ⟨o, e⟩ | ⟨id, o, new, found, e⟩ | ⟨marks, e⟩
  · rw [age_of_cells_eq cells, occupant?_of_cells_eq cells]
    cases h.occupant? slot <;> simp
  · rw [e, age_place, occupant?_place _ hw]
    cases h.occupant? slot <;> split <;> simp
  · rw [e, age_put, occupant?_put found]
    cases h.occupant? slot <;> split <;> simp
  · rw [e, age_sweep_eq, occupant?_sweep]
    cases h.occupant? slot <;> cases marks.contains slot <;> simp

theorem age_history (hw : h.WellFormed) (events : List HeapEvent) (slot : Nat) :
    (h.history events).age slot = h.age slot + UInt32.ofNat (h.sweeps slot events) := by
  induction events generalizing h with
  | nil => exact (UInt32.add_zero _).symm
  | cons event rest ih =>
      refine (ih (wellFormed_update hw event)).trans ?_
      rw [age_update hw, sweeps]
      cases h.empties event slot with
      | false => simp
      | true =>
          rw [UInt32.ofNat_add, ← UInt32.add_assoc]
          rfl

/-- An object that no event takes out of its cell stays there. -/
theorem occupied_of_sweeps_eq_zero {events : List HeapEvent}
    (held : (h.occupant? slot).isSome = true) (none : h.sweeps slot events = 0) :
    ((h.history events).occupant? slot).isSome = true := by
  induction events generalizing h with
  | nil => exact held
  | cons event rest ih =>
      obtain ⟨now, later⟩ := Nat.add_eq_zero_iff.1 none
      refine ih ?_ later
      unfold empties at now
      rw [held] at now
      cases left : (h.update event).occupant? slot with
      | none =>
          rw [left] at now
          cases now
      | some o => rfl

/-- A cell has its generation back after a full round, and not before. -/
theorem age_history_eq_iff (hw : h.WellFormed) (events : List HeapEvent) (slot : Nat) :
    (h.history events).age slot = h.age slot ↔ UInt32.size ∣ h.sweeps slot events := by
  have below := (h.age slot).toNat_lt
  rw [age_history hw, ← UInt32.toNat_inj, UInt32.toNat_add, UInt32.toNat_ofNat']
  show _ ↔ 4294967296 ∣ _
  omega

section Names

variable {id : ObjectId} (hw : h.WellFormed) (alive : h.isAlive id = true)
  (later : List HeapEvent)

include hw alive

/-- What a name that stands for an object now will stand for later. -/
theorem get?_history {x : Object} :
    (h.history later).get? id = some x ↔
      (h.history later).occupant? id.slot = some x ∧ UInt32.size ∣ h.sweeps id.slot later := by
  rw [get?_eq_some_iff, ← (isAlive_iff_occupant?.1 alive).2, age_history_eq_iff hw]

theorem isAlive_history :
    (h.history later).isAlive id = true ↔
      ((h.history later).occupant? id.slot).isSome = true ∧
        UInt32.size ∣ h.sweeps id.slot later := by
  simp only [isAlive_iff, get?_history hw alive, Option.isSome_iff_exists, exists_and_right]

/-- An object is given a name that was in use only after full rounds of its cell. -/
theorem place_eq_iff (o : Object) :
    ((h.history later).place o).1 = id ↔
      ((h.history later).place o).1.slot = id.slot ∧
        0 < h.sweeps id.slot later ∧ UInt32.size ∣ h.sweeps id.slot later := by
  obtain ⟨held, current⟩ := isAlive_iff_occupant?.1 alive
  have round := age_history_eq_iff hw later id.slot
  have generation := generation_place (h := h.history later) o
  constructor
  · intro same
    have vacant := vacant_place o (wellFormed_history hw later)
    rw [same] at generation vacant
    refine ⟨congrArg ObjectId.slot same, Nat.pos_of_ne_zero fun none => ?_, round.1 ?_⟩
    -- without a sweep the first object would still be in the cell that is given out
    · have left := occupied_of_sweeps_eq_zero held none
      rw [vacant] at left
      cases left
    · rw [current, generation]
  · rintro ⟨slot, -, full⟩
    rw [slot, round.2 full, current] at generation
    exact eq_of_parts slot generation

theorem isAlive_history_iff_of_lt (few : h.sweeps id.slot later < UInt32.size) :
    (h.history later).isAlive id = true ↔ h.sweeps id.slot later = 0 := by
  rw [isAlive_history hw alive]
  constructor
  · exact fun both => Nat.eq_zero_of_dvd_of_lt both.2 few
  · intro none
    exact ⟨occupied_of_sweeps_eq_zero (isAlive_iff_occupant?.1 alive).1 none, none ▸ Nat.dvd_zero _⟩

end Names

/-- The name that an object got when it was allocated stands for an object, directly or through a
weak reference, exactly if its cell is in use and has been emptied a multiple of `UInt32.size` times
since; the name is given out again only then, and after at least one such round. -/
theorem name_exact (before : List HeapEvent) (o : Object) {id : ObjectId}
    (made : (Heap.alloc (.history {} before) o).answer = .ok id) (later : List HeapEvent) :
    let born := (Heap.alloc (.history {} before) o).state
    let h := born.history later
    let swept := born.sweeps id.slot later
    (∀ x, h.get? id = some x ↔ h.occupant? id.slot = some x ∧ UInt32.size ∣ swept) ∧
    (h.isAlive id = true ↔ (h.occupant? id.slot).isSome = true ∧ UInt32.size ∣ swept) ∧
    (∀ w, h.weakTarget? w = some id ↔
      (h.get? w).bind Object.weakTarget? = some id ∧
        (h.occupant? id.slot).isSome = true ∧ UInt32.size ∣ swept) ∧
    (∀ o' x, (h.alloc o').answer = .ok x →
      (x = id ↔ x.slot = id.slot ∧ 0 < swept ∧ UInt32.size ∣ swept)) ∧
    (∀ o' x, h.isAlive x = true → (h.alloc o').answer ≠ .ok x) ∧
    (∀ x y, h.isAlive x = true → h.isAlive y = true → x.slot = y.slot → x = y) ∧
    (swept < UInt32.size → (h.isAlive id = true ↔ swept = 0)) := by
  obtain ⟨-, rfl, state⟩ := alloc_eq_ok o made
  rw [state]
  intro born h swept
  have start : (Heap.history {} before).WellFormed := wellFormed_history wellFormed_empty before
  have hw : born.WellFormed := wellFormed_place o start
  have alive : born.isAlive ((Heap.history {} before).place o).1 = true := isAlive_place o start
  refine ⟨fun _ => get?_history hw alive later, isAlive_history hw alive later, fun w => ?_,
    fun o' x again => ?_, fun o' x now again => ?_, fun _ _ => eq_of_isAlive,
    isAlive_history_iff_of_lt hw alive later⟩
  · rw [weakTarget?_eq_some_iff, isAlive_history hw alive]
  · obtain ⟨-, rfl, -⟩ := alloc_eq_ok o' again
    exact place_eq_iff hw alive later o'
  · obtain ⟨-, rfl, -⟩ := alloc_eq_ok o' again
    have held := (isAlive_iff_occupant?.1 now).1
    rw [vacant_place o' (wellFormed_history hw later)] at held
    cases held

/-- A heap whose only cell is in use. -/
def single (generation : UInt32) (o : Object) : Heap :=
  { cells := #[{ generation, occupant := some o }], live := 1 }

/-- Collections without roots, each followed by an allocation. -/
def rounds (o : Object) : Nat → List HeapEvent
  | 0 => []
  | n + 1 => .collect [] :: .alloc o :: rounds o n

theorem collect_single (generation : UInt32) (o : Object) :
    (single generation o).update (.collect []) =
      { cells := #[{ generation := generation + 1 }], free := [0] } := by
  have loose : ((single generation o).marks []).contains 0 = false := by
    rw [← Bool.not_eq_true]
    intro marked
    have alive : (single generation o).isAlive ⟨0, generation⟩ = true := by
      simp [isAlive, get?, single]
    obtain ⟨root, member, -⟩ := (contains_marks alive).1 marked
    cases member
  show ((single generation o).sweep _).2 = _
  generalize (single generation o).marks [] = marks at loose
  simp [sweep, unmarked, single, Cell.sweep, loose]

theorem history_rounds (generation : UInt32) (o : Object) (n : Nat) :
    (single generation o).history (rounds o n) = single (generation + UInt32.ofNat n) o ∧
      (single generation o).sweeps 0 (rounds o n) = n := by
  induction n generalizing generation with
  | zero => exact ⟨congrArg (single · o) (UInt32.add_zero generation).symm, rfl⟩
  | succ n ih =>
      have swept := collect_single generation o
      have filled : ((single generation o).update (.collect [])).update (.alloc o) =
          single (generation + 1) o := by
        rw [swept]
        rfl
      have lost : (single generation o).empties (.collect []) 0 = true := by
        rw [empties, swept]
        rfl
      have kept : ((single generation o).update (.collect [])).empties (.alloc o) 0 = false := by
        rw [empties, swept]
        rfl
      obtain ⟨state, count⟩ := ih (generation + 1)
      constructor
      · rw [rounds, history, history, filled, state, UInt32.add_assoc, Nat.add_comm n,
          UInt32.ofNat_add]
        rfl
      · rw [rounds, sweeps, sweeps, filled, lost, kept, count, Bool.toNat_true, Bool.toNat_false]
        omega

/-- The bound is reached: after `UInt32.size` rounds the heap is what it was, and the first name
stands for another object. -/
theorem name_returns (o : Object) :
    (single 0 o).sweeps 0 (rounds o UInt32.size) = UInt32.size ∧
      (single 0 o).history (rounds o UInt32.size) = single 0 o := by
  obtain ⟨state, count⟩ := history_rounds 0 o UInt32.size
  have round : (0 : UInt32) + UInt32.ofNat UInt32.size = 0 := by decide
  rw [round] at state
  exact ⟨count, state⟩

/-- The first name of a heap stands for nothing after one round, and for another object after a full
number of them. -/
theorem name_exact_rounds :
    let o := Object.plain .ordinary []
    let born := (Heap.alloc {} o).state
    (Heap.alloc {} o).answer = .ok ⟨0, 0⟩ ∧
      (born.history (rounds o 1)).isAlive ⟨0, 0⟩ = false ∧
      (born.history (rounds o UInt32.size)).isAlive ⟨0, 0⟩ = true := by
  intro o born
  have made : (Heap.alloc {} o).answer = .ok ⟨0, 0⟩ := rfl
  obtain ⟨-, -, -, -, -, -, few⟩ := name_exact [] o made (rounds o 1)
  obtain ⟨-, full, -⟩ := name_exact [] o made (rounds o UInt32.size)
  obtain ⟨-, once⟩ := history_rounds 0 o 1
  obtain ⟨count, same⟩ := name_returns o
  have short : (single 0 o).sweeps 0 (rounds o 1) < UInt32.size := by
    rw [once]
    decide
  have round : UInt32.size ∣ (single 0 o).sweeps 0 (rounds o UInt32.size) :=
    ⟨1, count.trans (Nat.mul_one _).symm⟩
  refine ⟨made, ?_, full.2 ⟨?_, round⟩⟩
  · rw [← Bool.not_eq_true]
    intro alive
    exact nomatch once.symm.trans ((few short).1 alive)
  · show (((single 0 o).history (rounds o UInt32.size)).occupant? 0).isSome = true
    rw [same]
    rfl

end TwinHeap.Heap
