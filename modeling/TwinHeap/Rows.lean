import TwinHeap.Capacity

/-! Tables whose rows are numbered by keys of one kind. -/
namespace TwinHeap

/-- Slot numbers are written in 32 bits. -/
def slotLimit : Nat := UInt32.size

class RowKey (κ : Type) where
  number : κ → Nat
  ofNumber : Nat → κ
  number_ofNumber : ∀ n, number (ofNumber n) = n
  ofNumber_number : ∀ k, ofNumber (number k) = k

instance : RowKey ExportKey := ⟨ExportKey.number, .mk, fun _ => rfl, fun _ => rfl⟩
instance : RowKey ImportKey := ⟨ImportKey.number, .mk, fun _ => rfl, fun _ => rfl⟩

theorem RowKey.number_inj {κ : Type} [RowKey κ] {k j : κ} : number k = number j ↔ k = j :=
  ⟨fun h => by rw [← ofNumber_number k, h, ofNumber_number], fun h => h ▸ rfl⟩

structure Rows (κ α : Type) where
  toArray : Array α := #[]
  deriving DecidableEq

/-- The key of a number, which has to fit a slot. -/
def RowKey.check {κ : Type} [RowKey κ] (n : Nat) : Except Fault κ :=
  if n < slotLimit then .ok (RowKey.ofNumber n) else .error (.slotNumber n)

namespace Rows

variable {κ α : Type} [RowKey κ]

omit [RowKey κ] in
def size (t : Rows κ α) : Nat := t.toArray.size

omit [RowKey κ] in
def isEmpty (t : Rows κ α) : Bool := t.toArray.isEmpty

omit [RowKey κ] in
def toList (t : Rows κ α) : List α := t.toArray.toList

def contains (t : Rows κ α) (k : κ) : Bool := decide (RowKey.number k < t.size)

def get? (t : Rows κ α) (k : κ) : Option α := t.toArray[RowKey.number k]?

/-- The key that the next `push` fills. -/
def nextKey (t : Rows κ α) : κ := RowKey.ofNumber t.size

omit [RowKey κ] in
def push (t : Rows κ α) (a : α) : Rows κ α := ⟨t.toArray.push a⟩

/-- Rows that do not exist are not written. -/
def set (t : Rows κ α) (k : κ) (a : α) : Rows κ α := ⟨t.toArray.setIfInBounds (RowKey.number k) a⟩

/-- The content of a row that has to exist. -/
def row (t : Rows κ α) (k : κ) : Except Fault α :=
  match t.get? k with
  | some a => .ok a
  | none => .error (.outOfBounds (RowKey.number k) t.size)

/-- Writes a row that has to exist. -/
def setRow (t : Rows κ α) (k : κ) (a : α) : Except Fault (Rows κ α) :=
  (t.row k).map fun _ => t.set k a

omit [RowKey κ] in
/-- Asks for room for `more` rows of `width` bytes each. -/
def reserve (t : Rows κ α) (width more : Nat) : Except Fault Unit :=
  Capacity.reserve (t.size + more) width

/-- Makes row `k` exist. `fill n` is the content of the `n`-th row added, counted from zero. -/
def reach (t : Rows κ α) (k : κ) (fill : Nat → α) : Rows κ α :=
  ⟨t.toArray ++ Array.ofFn fun n : Fin (RowKey.number k + 1 - t.size) => fill n⟩

def keys (t : Rows κ α) : List κ := (List.range t.size).map RowKey.ofNumber

def entries (t : Rows κ α) : List (κ × α) :=
  t.toList.zipIdx.map fun e => (RowKey.ofNumber e.2, e.1)

def mapEntries (t : Rows κ α) (f : κ → α → α) : Rows κ α :=
  ⟨t.toArray.mapIdx fun n a => f (RowKey.ofNumber n) a⟩

theorem get?_eq_none_iff {t : Rows κ α} {k : κ} : t.get? k = none ↔ t.contains k = false := by
  rw [contains, decide_eq_false_iff_not, Nat.not_lt]
  exact Array.getElem?_eq_none_iff

theorem get?_set [DecidableEq κ] (t : Rows κ α) (k j : κ) (a : α) :
    (t.set k a).get? j = if k = j ∧ t.contains k then some a else t.get? j := by
  by_cases h : k = j
  · subst h
    by_cases hk : RowKey.number k < t.toArray.size <;> simp [get?, set, contains, size, hk]
  · simp [get?, set, h, RowKey.number_inj]

theorem get?_push [DecidableEq κ] (t : Rows κ α) (a : α) (j : κ) :
    (t.push a).get? j = if t.nextKey = j then some a else t.get? j := by
  have : t.nextKey = j ↔ RowKey.number j = t.size := by
    rw [← RowKey.number_inj, nextKey, RowKey.number_ofNumber]
    exact eq_comm
  simp only [this, get?, push, Array.getElem?_push, size]

theorem get?_reach (t : Rows κ α) (k j : κ) (fill : Nat → α) :
    (t.reach k fill).get? j =
      if t.contains j then t.get? j
      else if RowKey.number j ≤ RowKey.number k then some (fill (RowKey.number j - t.size))
      else none := by
  by_cases h : RowKey.number j < t.toArray.size
  · simp [get?, reach, contains, size, Array.getElem?_append, h]
  · by_cases hk : RowKey.number j ≤ RowKey.number k
    · have : RowKey.number j - t.toArray.size < RowKey.number k + 1 - t.toArray.size := by omega
      simp [get?, reach, contains, size, Array.getElem?_append, h, hk, this]
    · have : ¬ RowKey.number j - t.toArray.size < RowKey.number k + 1 - t.toArray.size := by omega
      simp [get?, reach, contains, size, Array.getElem?_append, h, hk, this]

@[simp] theorem size_set (t : Rows κ α) (k : κ) (a : α) : (t.set k a).size = t.size := by
  simp [size, set]

omit [RowKey κ] in
@[simp] theorem size_push (t : Rows κ α) (a : α) : (t.push a).size = t.size + 1 := by
  simp [size, push]

theorem size_reach (t : Rows κ α) (k : κ) (fill : Nat → α) :
    (t.reach k fill).size = max t.size (RowKey.number k + 1) := by
  simp only [size, reach, Array.size_append, Array.size_ofFn]
  omega

end Rows

end TwinHeap
