import TwinHeap.Assoc
import TwinHeap.Rows

/-! Reading rows and finite maps after many of their entries were written. -/
namespace TwinHeap

namespace Rows

variable {κ α : Type} [RowKey κ]

theorem mem_entries {t : Rows κ α} {k : κ} {a : α} : (k, a) ∈ t.entries ↔ t.get? k = some a := by
  simp only [entries, List.mem_map, Prod.exists, List.mem_zipIdx_iff_getElem?, toList,
    Array.getElem?_toList, Prod.mk.injEq]
  constructor
  · rintro ⟨b, n, found, rfl, rfl⟩
    rwa [get?, RowKey.number_ofNumber]
  · intro found
    exact ⟨a, RowKey.number k, found, RowKey.ofNumber_number k, rfl⟩

theorem map_fst_entries (t : Rows κ α) : t.entries.map Prod.fst = t.keys := by
  rw [entries, keys, List.map_map]
  have : (Prod.fst ∘ fun e : α × Nat => ((RowKey.ofNumber e.2 : κ), e.1)) =
      RowKey.ofNumber ∘ Prod.snd := rfl
  rw [this, ← List.map_map, List.zipIdx_map_snd, ← List.range_eq_range']
  rfl

/-- Slot numbers that only go up. -/
def Ascending (ks : List κ) : Prop := ks.Pairwise fun j k => RowKey.number j < RowKey.number k

theorem ascending_keys (t : Rows κ α) : Ascending t.keys := by
  refine List.Pairwise.map RowKey.ofNumber ?_ (List.pairwise_lt_range (n := t.size))
  intro m n below
  rwa [RowKey.number_ofNumber, RowKey.number_ofNumber]

theorem Ascending.nodup {ks : List κ} (ascending : Ascending ks) : ks.Nodup := by
  apply List.Pairwise.imp _ ascending
  intro j k below same
  rw [same] at below
  exact Nat.lt_irrefl _ below

/-- What is picked from the entries and keeps its key stays in order. -/
theorem ascending_filterMap {β : Type} (t : Rows κ α) {pick : κ × α → Option (κ × β)}
    (keeps : ∀ e r, pick e = some r → r.1 = e.1) :
    Ascending ((t.entries.filterMap pick).map Prod.fst) := by
  have sublist : ((t.entries.filterMap pick).map Prod.fst).Sublist (t.entries.map Prod.fst) := by
    induction t.entries with
    | nil => exact List.Sublist.slnil
    | cons e l ih =>
        cases picked : pick e with
        | none =>
            rw [List.filterMap_cons_none picked]
            exact ih.cons e.1
        | some r =>
            rw [List.filterMap_cons_some picked, List.map_cons, keeps e r picked]
            exact ih.cons_cons e.1
  rw [map_fst_entries] at sublist
  exact (ascending_keys t).sublist sublist

theorem mem_keys {t : Rows κ α} {k : κ} : k ∈ t.keys ↔ t.contains k = true := by
  simp only [keys, List.mem_map, List.mem_range, contains, decide_eq_true_eq]
  constructor
  · rintro ⟨n, below, rfl⟩
    rwa [RowKey.number_ofNumber]
  · intro below
    exact ⟨RowKey.number k, below, RowKey.ofNumber_number k⟩

end Rows

namespace Assoc

variable {κ α : Type} [DecidableEq κ]

theorem find?_foldl_insert (l : List (κ × α)) (m : Assoc κ α) (k : κ) (a : α)
    (found : (l.foldl (fun m e => m.insert e.1 e.2) m).find? k = some a) :
    (k, a) ∈ l ∨ m.find? k = some a := by
  induction l generalizing m with
  | nil => exact .inr found
  | cons e l ih =>
      rcases ih (m.insert e.1 e.2) found with later | now
      · exact .inl (List.mem_cons_of_mem e later)
      · rw [find?_insert] at now
        split at now
        · rename_i same
          cases now
          exact .inl (same ▸ List.mem_cons_self)
        · exact .inr now

/-- What is found was listed. -/
theorem mem_of_find?_ofList {l : List (κ × α)} {k : κ} {a : α}
    (found : (ofList l).find? k = some a) : (k, a) ∈ l :=
  (find?_foldl_insert l {} k a found).resolve_right (by simp)

theorem isSome_find?_foldl_insert {l : List (κ × α)} {m : Assoc κ α} {k : κ}
    (known : k ∈ l.map Prod.fst ∨ (m.find? k).isSome = true) :
    ((l.foldl (fun m e => m.insert e.1 e.2) m).find? k).isSome = true := by
  induction l generalizing m with
  | nil => exact known.resolve_left fun none => nomatch none
  | cons e l ih =>
      apply ih
      rw [find?_insert, List.map_cons, List.mem_cons, or_assoc] at *
      rcases known with rfl | later | old
      · exact .inr (by rw [if_pos rfl]; rfl)
      · exact .inl later
      · right
        split
        · rfl
        · exact old

/-- A list that gives each key one value is read back as it is. -/
theorem find?_ofList {l : List (κ × α)} {k : κ} {a : α}
    (single : ∀ b, (k, b) ∈ l → b = a) : (ofList l).find? k = some a ↔ (k, a) ∈ l := by
  refine ⟨mem_of_find?_ofList, fun member => ?_⟩
  have known := isSome_find?_foldl_insert (m := ({} : Assoc κ α))
    (.inl (List.mem_map.2 ⟨_, member, rfl⟩))
  obtain ⟨b, found⟩ := Option.isSome_iff_exists.1 known
  exact found.trans (congrArg some (single b (mem_of_find?_ofList found)))

theorem mem_of_lookup {k : κ} {a : α} {l : List (κ × α)}
    (found : lookup k l = some a) : (k, a) ∈ l := by
  induction l with
  | nil => cases found
  | cons e l ih =>
      obtain ⟨j, b⟩ := e
      rw [lookup] at found
      split at found
      · rename_i same
        cases found
        exact same ▸ List.mem_cons_self
      · exact List.mem_cons_of_mem _ (ih found)

/-- A key with one value only is found with it. -/
theorem lookup_of_mem {k : κ} {a : α} {l : List (κ × α)}
    (member : (k, a) ∈ l) (single : ∀ b, (k, b) ∈ l → b = a) : lookup k l = some a := by
  cases found : lookup k l with
  | none => exact (lookup_eq_none_iff.1 found (List.mem_map.2 ⟨_, member, rfl⟩)).elim
  | some b => rw [single b (mem_of_lookup found)]

theorem replace_of_not_mem {k : κ} {l : List (κ × α)} (fresh : k ∉ l.map Prod.fst) (a : α) :
    replace k a l = l ++ [(k, a)] := by
  induction l with
  | nil => rfl
  | cons e l ih =>
      obtain ⟨j, b⟩ := e
      rw [List.map_cons, List.mem_cons, not_or] at fresh
      rw [replace, if_neg (Ne.symm fresh.1), ih fresh.2]
      rfl

/-- A new key is put at the end. -/
theorem entries_insert_of_not_mem {m : Assoc κ α} {k : κ} (fresh : k ∉ m.keys) (a : α) :
    (m.insert k a).entries = m.entries ++ [(k, a)] :=
  replace_of_not_mem fresh a

omit [DecidableEq κ] in
theorem ext_entries {m n : Assoc κ α} (same : m.entries = n.entries) : m = n := by
  cases m
  cases n
  cases same
  rfl

theorem find?_of_keyOf? [DecidableEq α] {m : Assoc κ α} {k : κ} {a : α}
    (found : m.keyOf? a = some k) : m.find? k = some a := by
  obtain ⟨e, first, rfl⟩ := Option.map_eq_some_iff.1 found
  have same := List.find?_some first
  rw [decide_eq_true_eq] at same
  exact find?_eq_some_iff.2 (same ▸ List.mem_of_find?_eq_some first)

theorem find?_ne_of_keyOf? [DecidableEq α] {m : Assoc κ α} {a : α} (none : m.keyOf? a = none)
    (k : κ) : m.find? k ≠ some a := by
  intro found
  have missing := List.find?_eq_none.1 (Option.map_eq_none_iff.1 none)
  exact missing (k, a) (find?_eq_some_iff.1 found) (decide_eq_true rfl)

end Assoc

end TwinHeap
