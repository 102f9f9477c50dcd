import TwinHeap.Capacity
import TwinHeap.Event

/-! First-in first-out queues in a ring buffer that doubles when it is full. One entry of the buffer
is always spare, so that equal ends mean an empty queue. -/
namespace TwinHeap

structure Ring (α : Type) where
  buffer : Array α
  head : Nat
  tail : Nat
  /-- How many items were ever pushed, and popped. -/
  pushed : Nat := 0
  popped : Nat := 0
  two_le : 2 ≤ buffer.size
  head_lt : head < buffer.size
  tail_lt : tail < buffer.size

namespace Ring

variable {α : Type}

/-- An empty queue with the given buffer size, which is at least two. -/
def withCapacity [Inhabited α] (capacity : Nat) : Ring α :=
  { buffer := Array.replicate (max capacity 2) default
    head := 0
    tail := 0
    two_le := by simp only [Array.size_replicate]; omega
    head_lt := by simp only [Array.size_replicate]; omega
    tail_lt := by simp only [Array.size_replicate]; omega }

/-- Asks for the buffer of `withCapacity`. An item takes up eight bytes. -/
def demand (capacity : Nat) : Except Fault Unit := Capacity.require (max capacity 2) 8

def capacity (q : Ring α) : Nat := q.buffer.size

def isEmpty (q : Ring α) : Bool := decide (q.head = q.tail)

def length (q : Ring α) : Nat :=
  if q.head ≤ q.tail then q.tail - q.head else q.buffer.size - q.head + q.tail

/-- The position of the `n`-th item. -/
def position (q : Ring α) (n : Nat) : Nat := (q.head + n) % q.buffer.size

theorem position_lt (q : Ring α) (n : Nat) : q.position n < q.buffer.size :=
  Nat.mod_lt _ (by have := q.two_le; omega)

/-- The items from the oldest to the newest. -/
def toList (q : Ring α) : List α :=
  (List.range q.length).map fun n =>
    have := q.position_lt n
    q.buffer[q.position n]

/-- The position after the tail. -/
def following (q : Ring α) : Nat := if q.tail + 1 = q.buffer.size then 0 else q.tail + 1

/-- Writes at the tail. When this fills the buffer, the part from the head on moves to the end of a
buffer of twice the size. -/
def push [Inhabited α] (q : Ring α) (a : α) : Ring α :=
  let size := q.buffer.size
  let next := if q.tail + 1 = size then 0 else q.tail + 1
  have hn : next < size := by
    have := q.tail_lt
    have := q.two_le
    simp only [next, size]
    split <;> omega
  let filled := q.buffer.set q.tail a q.tail_lt
  have hs : filled.size = size := Array.size_set ..
  if next = q.head then
    { buffer := filled.extract 0 next ++ Array.replicate size default ++ filled.extract next size
      head := next + size
      tail := next
      pushed := q.pushed + 1
      popped := q.popped
      two_le := by
        have := q.two_le
        simp only [Array.size_append, Array.size_extract, Array.size_replicate]
        omega
      head_lt := by
        simp only [Array.size_append, Array.size_extract, Array.size_replicate]
        omega
      tail_lt := by
        simp only [Array.size_append, Array.size_extract, Array.size_replicate]
        omega }
  else
    { buffer := filled
      head := q.head
      tail := next
      pushed := q.pushed + 1
      popped := q.popped
      two_le := hs ▸ q.two_le
      head_lt := hs ▸ q.head_lt
      tail_lt := hs ▸ hn }

def pop? (q : Ring α) : Option (α × Ring α) :=
  if q.head = q.tail then none
  else
    have := q.head_lt
    some (q.buffer[q.head],
      { q with
        head := if q.head + 1 = q.buffer.size then 0 else q.head + 1
        popped := q.popped + 1
        head_lt := by
          have := q.two_le
          split <;> omega })

/-- Forgets the items; the counts stay. -/
def clear (q : Ring α) : Ring α :=
  { q with
    head := 0
    tail := 0
    head_lt := Nat.lt_of_lt_of_le (by decide) q.two_le
    tail_lt := Nat.lt_of_lt_of_le (by decide) q.two_le }

/-- The doublings that lead from one buffer size to another. -/
def growths (before after : Nat) : List Notice :=
  if h : 0 < before ∧ before < after then .queueGrew before (2 * before) :: growths (2 * before) after
  else []
termination_by after - before
decreasing_by omega

theorem length_lt (q : Ring α) : q.length < q.buffer.size := by
  have := q.head_lt
  have := q.tail_lt
  unfold length
  split <;> omega

/-- The items lead from the head to the tail, at most once past the end of the buffer. -/
theorem head_add_length (q : Ring α) :
    q.head + q.length = q.tail ∨ q.head + q.length = q.tail + q.buffer.size := by
  have := q.head_lt
  unfold length
  split <;> omega

/-- The spare entry is the last one exactly if the tail would meet the head. -/
theorem following_eq_head_iff (q : Ring α) : q.following = q.head ↔ q.length + 1 = q.buffer.size := by
  have := q.head_lt
  have := q.tail_lt
  unfold following length
  split <;> split <;> omega

/-- What a push makes of a queue whose last spare entry it takes. -/
theorem push_of_full [Inhabited α] {q : Ring α} (a : α) (full : q.length + 1 = q.buffer.size) :
    (q.push a).buffer =
        (q.buffer.set q.tail a q.tail_lt).extract 0 q.head ++
          Array.replicate q.buffer.size default ++
          (q.buffer.set q.tail a q.tail_lt).extract q.head q.buffer.size ∧
      (q.push a).head = q.head + q.buffer.size ∧ (q.push a).tail = q.head := by
  have meets := q.following_eq_head_iff.2 full
  unfold following at meets
  unfold push
  simp only [meets, if_true, and_self]

/-- What a push makes of any other queue. -/
theorem push_of_spare [Inhabited α] {q : Ring α} (a : α) (spare : q.length + 1 ≠ q.buffer.size) :
    (q.push a).buffer = q.buffer.set q.tail a q.tail_lt ∧
      (q.push a).head = q.head ∧ (q.push a).tail = q.following := by
  have apart : q.following ≠ q.head := fun meets => spare (q.following_eq_head_iff.1 meets)
  unfold following at apart ⊢
  unfold push
  simp only [apart, if_false, and_self]

theorem size_push [Inhabited α] (q : Ring α) (a : α) :
    (q.push a).buffer.size =
      if q.length + 1 = q.buffer.size then 2 * q.buffer.size else q.buffer.size := by
  have := q.head_lt
  split
  · rename_i full
    rw [(push_of_full a full).1]
    simp only [Array.size_append, Array.size_extract, Array.size_replicate, Array.size_set]
    omega
  · rename_i spare
    rw [(push_of_spare a spare).1, Array.size_set]

theorem length_push [Inhabited α] (q : Ring α) (a : α) : (q.push a).length = q.length + 1 := by
  have before := q.head_add_length
  have after := (q.push a).head_add_length
  have size := q.size_push a
  have := (q.push a).length_lt
  by_cases full : q.length + 1 = q.buffer.size
  · obtain ⟨-, head, tail⟩ := push_of_full a full
    rw [if_pos full] at size
    omega
  · obtain ⟨-, head, tail⟩ := push_of_spare a full
    have := q.length_lt
    rw [if_neg full] at size
    unfold following at tail
    split at tail <;> omega

@[simp] theorem pushed_push [Inhabited α] (q : Ring α) (a : α) :
    (q.push a).pushed = q.pushed + 1 := by
  unfold push
  dsimp only
  split <;> split <;> rfl

@[simp] theorem popped_push [Inhabited α] (q : Ring α) (a : α) : (q.push a).popped = q.popped := by
  unfold push
  dsimp only
  split <;> split <;> rfl

/-- What a pop takes and what it leaves. -/
theorem of_pop? {q r : Ring α} {a : α} (h : q.pop? = some (a, r)) :
    q.head ≠ q.tail ∧ q.buffer[q.head]? = some a ∧ r.buffer = q.buffer ∧
      r.head = (if q.head + 1 = q.buffer.size then 0 else q.head + 1) ∧ r.tail = q.tail ∧
      r.pushed = q.pushed ∧ r.popped = q.popped + 1 := by
  unfold pop? at h
  split at h
  · cases h
  · rename_i apart
    simp only [Option.some.injEq, Prod.mk.injEq] at h
    obtain ⟨rfl, rfl⟩ := h
    exact ⟨apart, Array.getElem?_eq_getElem q.head_lt, rfl, rfl, rfl, rfl, rfl⟩

theorem length_pop? {q r : Ring α} {a : α} (h : q.pop? = some (a, r)) :
    q.length = r.length + 1 := by
  obtain ⟨apart, -, buffer, head, tail, -⟩ := of_pop? h
  have before := q.head_add_length
  have after := r.head_add_length
  have := q.length_lt
  have := r.length_lt
  rw [buffer, tail] at after
  rw [buffer] at this
  split at head <;> omega

theorem position_eq (q : Ring α) {n : Nat} (h : n < q.buffer.size) :
    q.position n =
      if q.head + n < q.buffer.size then q.head + n else q.head + n - q.buffer.size := by
  have := q.head_lt
  unfold position
  split
  · exact Nat.mod_eq_of_lt (by assumption)
  · rw [Nat.mod_eq_sub_mod (by omega)]
    exact Nat.mod_eq_of_lt (by omega)

theorem getElem?_toList (q : Ring α) (n : Nat) :
    q.toList[n]? = if n < q.length then q.buffer[q.position n]? else none := by
  rw [toList, List.getElem?_map]
  by_cases h : n < q.length <;> simp [h, q.position_lt n]

@[simp] theorem length_toList (q : Ring α) : q.toList.length = q.length := by simp [toList]

theorem toList_eq_nil_iff {q : Ring α} : q.toList = [] ↔ q.isEmpty := by
  have := q.head_lt
  have := q.tail_lt
  rw [← List.length_eq_zero_iff, length_toList, isEmpty, decide_eq_true_iff]
  unfold length
  split <;> omega

@[simp] theorem toList_withCapacity [Inhabited α] (n : Nat) :
    (withCapacity n : Ring α).toList = [] :=
  toList_eq_nil_iff.2 rfl

@[simp] theorem toList_clear (q : Ring α) : q.clear.toList = [] :=
  toList_eq_nil_iff.2 rfl

theorem position_eq_tail_iff (q : Ring α) {n : Nat} (h : n < q.buffer.size) :
    q.position n = q.tail ↔ n = q.length := by
  have := q.length_lt
  have := q.head_lt
  have := q.tail_lt
  have := q.head_add_length
  rw [position_eq q h]
  split <;> omega

/-- Growth moves items, but leaves them where they are counted from the head. -/
theorem getElem?_push [Inhabited α] (q : Ring α) (a : α) {n : Nat} (h : n < q.buffer.size) :
    (q.push a).buffer[(q.push a).position n]? =
      (q.buffer.set q.tail a q.tail_lt)[q.position n]? := by
  have size := q.size_push a
  have := q.head_lt
  by_cases full : q.length + 1 = q.buffer.size
  · rw [if_pos full] at size
    rw [position_eq _ (by omega), position_eq _ h, size]
    obtain ⟨buffer, head, -⟩ := push_of_full a full
    rw [buffer, head]
    simp only [Array.getElem?_append, Array.getElem?_extract, Array.getElem?_replicate,
      Array.size_append, Array.size_extract, Array.size_replicate, Array.size_set]
    grind
  · rw [if_neg full] at size
    obtain ⟨buffer, head, -⟩ := push_of_spare a full
    rw [position, position, size, buffer, head]

theorem getElem?_push_position [Inhabited α] (q : Ring α) (a : α) {n : Nat} (hn : n ≤ q.length) :
    (q.push a).buffer[(q.push a).position n]? =
      if n < q.length then q.buffer[q.position n]? else some a := by
  have within : n < q.buffer.size := Nat.lt_of_le_of_lt hn q.length_lt
  rw [getElem?_push q a within, Array.getElem?_set]
  split
  · rename_i last
    have last := (q.position_eq_tail_iff within).1 last.symm
    rw [if_neg (by omega)]
  · rename_i other
    have other := mt (q.position_eq_tail_iff within).2 (Ne.symm other)
    rw [if_pos (by omega)]

@[simp] theorem toList_push [Inhabited α] (q : Ring α) (a : α) :
    (q.push a).toList = q.toList ++ [a] := by
  apply List.ext_getElem?
  intro n
  rw [getElem?_toList, length_push, List.getElem?_append, length_toList, getElem?_toList]
  by_cases hn : n < q.length + 1
  · rw [if_pos hn, getElem?_push_position q a (by omega)]
    by_cases h : n < q.length
    · simp [h]
    · have : n - q.length = 0 := by omega
      simp [h, this]
  · have h : ¬ n < q.length := by omega
    rw [if_neg hn, if_neg h, List.getElem?_eq_none (by simp; omega)]

theorem pop?_eq_none_iff {q : Ring α} : q.pop? = none ↔ q.toList = [] := by
  rw [toList_eq_nil_iff, isEmpty, decide_eq_true_iff]
  unfold pop?
  split <;> simp_all

theorem position_of_pop? {q r : Ring α} {a : α} (h : q.pop? = some (a, r)) {n : Nat}
    (hn : n < r.length) : r.position n = q.position (n + 1) := by
  obtain ⟨-, -, buffer, head, -⟩ := of_pop? h
  have := length_pop? h
  have := q.length_lt
  have := q.head_lt
  have size : r.buffer.size = q.buffer.size := congrArg Array.size buffer
  rw [position_eq r (by omega), position_eq q (by omega), size, head]
  split <;> split <;> split <;> omega

theorem toList_of_pop? {q r : Ring α} {a : α} (h : q.pop? = some (a, r)) :
    q.toList = a :: r.toList := by
  obtain ⟨-, first, buffer, -⟩ := of_pop? h
  have length := length_pop? h
  have := q.head_lt
  apply List.ext_getElem?
  intro n
  cases n with
  | zero =>
    rw [getElem?_toList, if_pos (by omega), position_eq _ (by omega), Nat.add_zero, if_pos this]
    exact first
  | succ n =>
    rw [getElem?_toList, List.getElem?_cons_succ, getElem?_toList, buffer]
    by_cases hn : n < r.length
    · rw [if_pos (by omega), if_pos hn, position_of_pop? h hn]
    · rw [if_neg (by omega), if_neg hn]

end Ring

end TwinHeap
