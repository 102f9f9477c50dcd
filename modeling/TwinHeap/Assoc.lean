/-! Finite maps in the order of first insertion. Each key is held once. -/
namespace TwinHeap

structure Assoc (κ α : Type) where
  entries : List (κ × α)
  nodup : (entries.map Prod.fst).Nodup
  deriving DecidableEq

instance {κ α : Type} : EmptyCollection (Assoc κ α) := ⟨⟨[], List.nodup_nil⟩⟩

namespace Assoc

variable {κ α : Type} [DecidableEq κ]

def lookup (k : κ) : List (κ × α) → Option α
  | [] => none
  | (j, a) :: rest => if j = k then some a else lookup k rest

/-- A key that is present keeps its place. -/
def replace (k : κ) (a : α) : List (κ × α) → List (κ × α)
  | [] => [(k, a)]
  | (j, b) :: rest => if j = k then (k, a) :: rest else (j, b) :: replace k a rest

def remove (k : κ) : List (κ × α) → List (κ × α)
  | [] => []
  | (j, b) :: rest => if j = k then rest else (j, b) :: remove k rest

theorem map_fst_replace (k : κ) (a : α) (l : List (κ × α)) :
    (replace k a l).map Prod.fst =
      if k ∈ l.map Prod.fst then l.map Prod.fst else l.map Prod.fst ++ [k] := by
  induction l with
  | nil => simp [replace]
  | cons e rest ih =>
    obtain ⟨j, b⟩ := e
    by_cases h : j = k
    · simp [replace, h]
    · simp only [replace, h, if_false, List.map_cons, ih, List.mem_cons, Ne.symm h, false_or]
      split <;> rfl

theorem map_fst_remove (k : κ) (l : List (κ × α)) :
    (remove k l).map Prod.fst = (l.map Prod.fst).erase k := by
  induction l with
  | nil => rfl
  | cons e rest ih =>
    obtain ⟨j, b⟩ := e
    by_cases h : j = k <;> simp [remove, h, ih]

theorem nodup_replace {k : κ} {a : α} {l : List (κ × α)} (h : (l.map Prod.fst).Nodup) :
    ((replace k a l).map Prod.fst).Nodup := by
  rw [map_fst_replace]
  split
  · exact h
  · rename_i hk
    exact List.nodup_append.2 ⟨h, by simp, fun x hx y hy => by
      rw [List.mem_singleton.1 hy]
      exact fun e => hk (e ▸ hx)⟩

theorem nodup_remove {k : κ} {l : List (κ × α)} (h : (l.map Prod.fst).Nodup) :
    ((remove k l).map Prod.fst).Nodup :=
  map_fst_remove k l ▸ h.erase k

def find? (m : Assoc κ α) (k : κ) : Option α := lookup k m.entries

def insert (m : Assoc κ α) (k : κ) (a : α) : Assoc κ α :=
  ⟨replace k a m.entries, nodup_replace m.nodup⟩

def erase (m : Assoc κ α) (k : κ) : Assoc κ α := ⟨remove k m.entries, nodup_remove m.nodup⟩
def contains (m : Assoc κ α) (k : κ) : Bool := (m.find? k).isSome

omit [DecidableEq κ] in
def size (m : Assoc κ α) : Nat := m.entries.length

omit [DecidableEq κ] in
def keys (m : Assoc κ α) : List κ := m.entries.map Prod.fst

omit [DecidableEq κ] in
/-- The first key under which `a` is stored. -/
def keyOf? [DecidableEq α] (m : Assoc κ α) (a : α) : Option κ :=
  (m.entries.find? fun e => decide (e.2 = a)).map Prod.fst

/-- Of several pairs with one key the last gives the value. -/
def ofList (pairs : List (κ × α)) : Assoc κ α :=
  pairs.foldl (fun m e => m.insert e.1 e.2) {}

/-- Equality up to the order of the keys. -/
def agrees [DecidableEq α] (m n : Assoc κ α) : Bool :=
  m.size == n.size && m.entries.all fun e => decide (n.find? e.1 = some e.2)

theorem lookup_replace (k j : κ) (a : α) (l : List (κ × α)) :
    lookup j (replace k a l) = if k = j then some a else lookup j l := by
  induction l with
  | nil => simp [replace, lookup]
  | cons e rest ih =>
    obtain ⟨i, b⟩ := e
    by_cases h : i = k
    · subst h; by_cases hj : i = j <;> simp [replace, lookup, hj]
    · by_cases hj : k = j
      · subst hj; simp [replace, lookup, h, ih]
      · simp [replace, lookup, h, ih, hj]

@[simp] theorem find?_insert (m : Assoc κ α) (k j : κ) (a : α) :
    (m.insert k a).find? j = if k = j then some a else m.find? j :=
  lookup_replace k j a m.entries

theorem lookup_eq_none_iff {k : κ} {l : List (κ × α)} :
    lookup k l = none ↔ k ∉ l.map Prod.fst := by
  induction l with
  | nil => simp [lookup]
  | cons e rest ih =>
    obtain ⟨j, b⟩ := e
    by_cases h : j = k
    · simp [lookup, h]
    · simp only [lookup, h, if_false, ih, List.map_cons, List.mem_cons, Ne.symm h, false_or]

theorem lookup_remove {l : List (κ × α)} (h : (l.map Prod.fst).Nodup) (k j : κ) :
    lookup j (remove k l) = if k = j then none else lookup j l := by
  induction l with
  | nil => simp [remove, lookup]
  | cons e rest ih =>
    obtain ⟨i, b⟩ := e
    rw [List.map_cons, List.nodup_cons] at h
    by_cases hi : i = k
    · subst hi
      by_cases hj : i = j
      · subst hj
        simpa [remove] using lookup_eq_none_iff.2 h.1
      · simp [remove, lookup, hj]
    · by_cases hj : k = j
      · subst hj
        simp [remove, lookup, hi, ih h.2]
      · simp [remove, lookup, hi, ih h.2, hj]

@[simp] theorem find?_erase (m : Assoc κ α) (k j : κ) :
    (m.erase k).find? j = if k = j then none else m.find? j :=
  lookup_remove m.nodup k j

@[simp] theorem find?_empty (k : κ) : ({} : Assoc κ α).find? k = none := rfl

theorem lookup_eq_some_iff {l : List (κ × α)} (h : (l.map Prod.fst).Nodup) {k : κ} {a : α} :
    lookup k l = some a ↔ (k, a) ∈ l := by
  induction l with
  | nil => simp [lookup]
  | cons e rest ih =>
    obtain ⟨j, b⟩ := e
    rw [List.map_cons, List.nodup_cons] at h
    by_cases hj : j = k
    · subst hj
      simp only [lookup, if_true, Option.some.injEq, List.mem_cons, Prod.mk.injEq, true_and]
      exact ⟨fun e => .inl e.symm, fun e => e.elim Eq.symm fun m =>
        (h.1 (List.mem_map.2 ⟨_, m, rfl⟩)).elim⟩
    · simp [lookup, hj, ih h.2, Ne.symm hj]

theorem find?_eq_some_iff {m : Assoc κ α} {k : κ} {a : α} :
    m.find? k = some a ↔ (k, a) ∈ m.entries :=
  lookup_eq_some_iff m.nodup

theorem keys_insert (m : Assoc κ α) (k : κ) (a : α) :
    (m.insert k a).keys = if k ∈ m.keys then m.keys else m.keys ++ [k] :=
  map_fst_replace k a m.entries

end Assoc

end TwinHeap
