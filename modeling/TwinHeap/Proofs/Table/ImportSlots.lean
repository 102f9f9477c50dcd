import TwinHeap.Proofs.Heap.Change
import TwinHeap.Proofs.Table.Lookups
import TwinHeap.Table.Imports

/-! What the operations of an import table do to its slots. -/
namespace TwinHeap.Imports

variable {t : Imports} {h : Heap} {k j : ImportKey} {p : ObjectId}

theorem proxy?_eq_some_iff :
    t.proxy? h k = some p ↔ t.entry? k = some (.weak p) ∧ h.isAlive p = true := by
  unfold proxy?
  split
  · rename_i q weak
    split
    · rename_i alive
      rw [weak]
      constructor
      · intro e
        cases e
        exact ⟨rfl, alive⟩
      · rintro ⟨e, -⟩
        cases e
        rfl
    · rename_i dead
      rw [weak]
      constructor
      · intro e
        cases e
      · rintro ⟨e, alive⟩
        cases e
        exact (dead alive).elim
  · rename_i other
    exact ⟨fun e => (nomatch e), fun both => (other p both.1).elim⟩

theorem mem_liveProxies :
    (k, p) ∈ t.liveProxies h ↔ t.entry? k = some (.weak p) ∧ h.isAlive p = true := by
  simp only [liveProxies, List.mem_filterMap, Prod.exists, Rows.mem_entries]
  constructor
  · rintro ⟨j, e, found, same⟩
    cases e with
    | empty => cases same
    | reserved n => cases same
    | weak q =>
        simp only at same
        split at same
        · rename_i alive
          cases same
          exact ⟨found, alive⟩
        · cases same
  · rintro ⟨found, alive⟩
    exact ⟨k, .weak p, found, by simp [alive]⟩

theorem ascending_liveProxies (t : Imports) (h : Heap) :
    Rows.Ascending ((t.liveProxies h).map Prod.fst) := by
  refine Rows.ascending_filterMap t.rows ?_
  intro e r picked
  obtain ⟨k, e⟩ := e
  cases e with
  | empty => cases picked
  | reserved n => cases picked
  | weak p =>
      dsimp only at picked
      split at picked
      · cases picked
        rfl
      · cases picked

theorem mem_deadKeys :
    k ∈ t.deadKeys h ↔ ∃ p, t.entry? k = some (.weak p) ∧ h.isAlive p = false := by
  simp only [deadKeys, List.mem_filterMap, Prod.exists, Rows.mem_entries]
  constructor
  · rintro ⟨j, e, found, same⟩
    cases e with
    | empty => cases same
    | reserved n => cases same
    | weak q =>
        simp only at same
        split at same
        · cases same
        · rename_i dead
          cases same
          exact ⟨q, found, Bool.eq_false_iff.2 dead⟩
  · rintro ⟨p, found, dead⟩
    exact ⟨k, .weak p, found, by simp [dead]⟩

theorem lt_size_of_entry? {e : ImportEntry} (found : t.entry? k = some e) : k.number < t.size :=
  (Array.getElem?_eq_some_iff.1 found).1

theorem get?_foldl_set (keys : List ImportKey) (rows : Rows ImportKey ImportEntry) (j : ImportKey) :
    (keys.foldl (fun rows k => rows.set k .empty) rows).get? j =
      if j ∈ keys ∧ rows.contains j = true then some .empty else rows.get? j := by
  induction keys generalizing rows with
  | nil => simp
  | cons k keys ih =>
      have size : (rows.set k .empty).contains j = rows.contains j := by
        simp only [Rows.contains, Rows.size_set]
      rw [List.foldl_cons, ih, size, Rows.get?_set]
      by_cases same : k = j
      · subst same
        by_cases below : rows.contains k = true <;> simp [below]
      · simp [same, Ne.symm same]

theorem entry?_scavenge (t : Imports) (h : Heap) (j : ImportKey) :
    Imports.entry? (t.scavenge h).2 j = if j ∈ t.deadKeys h then some .empty else t.entry? j := by
  refine (get?_foldl_set (t.deadKeys h) t.rows j).trans ?_
  by_cases dead : j ∈ t.deadKeys h
  · obtain ⟨p, found, -⟩ := mem_deadKeys.1 dead
    have below : t.rows.contains j = true := decide_eq_true (Imports.lt_size_of_entry? found)
    rw [if_pos ⟨dead, below⟩, if_pos dead]
  · rw [if_neg (fun both => dead both.1), if_neg dead]
    rfl

theorem size_scavenge (t : Imports) (h : Heap) : (t.scavenge h).2.size = t.size := by
  show (List.foldl _ t.rows (t.deadKeys h)).size = t.rows.size
  generalize t.deadKeys h = keys
  generalize t.rows = rows
  induction keys generalizing rows with
  | nil => rfl
  | cons k keys ih => exact (ih _).trans (Rows.size_set rows k .empty)

/-- After a scavenge a slot has the proxy that it had, if that one is alive. -/
theorem entry?_scavenge_weak :
    Imports.entry? (t.scavenge h).2 j = some (.weak p) ↔
      t.entry? j = some (.weak p) ∧ h.isAlive p = true := by
  rw [entry?_scavenge]
  split
  · rename_i dead
    obtain ⟨q, found, gone⟩ := mem_deadKeys.1 dead
    constructor
    · intro e
      cases e
    · rintro ⟨e, alive⟩
      rw [found] at e
      cases e
      rw [gone] at alive
      cases alive
  · rename_i kept
    refine ⟨fun e => ⟨e, ?_⟩, fun both => both.1⟩
    cases alive : h.isAlive p with
    | true => rfl
    | false => exact (kept (mem_deadKeys.2 ⟨p, e, alive⟩)).elim

/-- The proxy for a slot is the one it has, or a new one that takes the slot. Without room for a new
one there is the slot and no proxy in it. -/
theorem proxyFor_cases (t : Imports) (h : Heap) (k : ImportKey) :
    (∃ p, t.entry? k = some (.weak p) ∧ h.isAlive p = true ∧ (t.proxyFor h k).answer = .ok p ∧
      (t.proxyFor h k).state = (h, t)) ∨
    (t.proxy? h k = none ∧ h.hasRoom = true ∧
      (t.proxyFor h k).answer = .ok (h.place (.proxy k)).1 ∧
      (t.proxyFor h k).state = ((h.place (.proxy k)).2,
        { rows := (t.rows.reach k fun _ => .empty).set k (.weak (h.place (.proxy k)).1) })) ∨
    t.proxy? h k = none ∧ h.hasRoom = false ∧ (t.proxyFor h k).answer = .error Heap.noRoom ∧
      (t.proxyFor h k).state = (h, { rows := t.rows.reach k fun _ => .empty }) := by
  unfold proxyFor
  cases found : t.proxy? h k with
  | some p =>
      obtain ⟨entry, alive⟩ := proxy?_eq_some_iff.1 found
      exact .inl ⟨p, entry, alive, rfl, rfl⟩
  | none =>
      dsimp only
      rcases h.alloc_cases (.proxy k) with ⟨room, made⟩ | ⟨full, made⟩
      · rw [made]
        exact .inr (.inl ⟨rfl, room, rfl, rfl⟩)
      · rw [made]
        exact .inr (.inr ⟨rfl, full, rfl, rfl⟩)

theorem entry?_reach (t : Imports) (k j : ImportKey) :
    Imports.entry? { rows := t.rows.reach k fun _ => .empty } j =
      if (t.entry? j).isSome = true then t.entry? j
      else if j.number ≤ k.number then some .empty else none := by
  show (t.rows.reach k fun _ => .empty).get? j = _
  rw [Rows.get?_reach]
  cases inside : t.rows.contains j with
  | false =>
      have none : t.entry? j = none := Rows.get?_eq_none_iff.2 inside
      simp [none, RowKey.number]
  | true =>
      cases found : t.entry? j with
      | none =>
          rw [Rows.get?_eq_none_iff.1 found] at inside
          cases inside
      | some e =>
          rw [if_pos Option.isSome_some]
          exact found

/-- A slot that is only made has no proxy. -/
theorem entry?_reach_weak {p : ObjectId} :
    Imports.entry? { rows := t.rows.reach k fun _ => .empty } j = some (.weak p) ↔
      t.entry? j = some (.weak p) := by
  rw [entry?_reach]
  split
  · rfl
  · rename_i outside
    have none : t.entry? j = none := by simpa using outside
    split <;> simp [none]

theorem entry?_fill (t : Imports) (k : ImportKey) (e : ImportEntry) (j : ImportKey) :
    Imports.entry? { rows := (t.rows.reach k fun _ => .empty).set k e } j =
      if k = j then some e
      else Imports.entry? { rows := t.rows.reach k fun _ => .empty } j := by
  have reached : (t.rows.reach k fun _ => .empty).contains k = true := by
    rw [Rows.contains, decide_eq_true_eq, Rows.size_reach]
    exact Nat.lt_of_lt_of_le (Nat.lt_succ_self _) (Nat.le_max_right _ _)
  show ((t.rows.reach k fun _ => .empty).set k e).get? j = _
  rw [Rows.get?_set, reached]
  simp only [and_true]
  rfl

theorem size_reach (t : Imports) (k : ImportKey) :
    ({ rows := t.rows.reach k fun _ => .empty } : Imports).size = max t.size (k.number + 1) :=
  Rows.size_reach t.rows k _

theorem size_fill (t : Imports) (k : ImportKey) (e : ImportEntry) :
    ({ rows := (t.rows.reach k fun _ => .empty).set k e } : Imports).size =
      max t.size (k.number + 1) :=
  (Rows.size_set _ k e).trans (size_reach t k)

/-- Filling a slot with a proxy leaves the proxies of the other slots where they are. -/
theorem entry?_fill_weak {q : ObjectId} :
    Imports.entry? { rows := (t.rows.reach k fun _ => .empty).set k (.weak p) } j =
        some (.weak q) ↔
      if k = j then p = q else t.entry? j = some (.weak q) := by
  rw [entry?_fill]
  split
  · simp
  · exact entry?_reach_weak

end TwinHeap.Imports
