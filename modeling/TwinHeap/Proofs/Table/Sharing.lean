import TwinHeap.Proofs.Table.ExportSlots

/-! How an object comes by a slot: it has one, it gets one back, or it is given one that is not in
use. -/
namespace TwinHeap.Exports

variable {t t' : Exports} {k j : ExportKey} {o x : ObjectId}

/-- Nothing but notes of the last unlinking is different, and there are no new ones. -/
structure Spends (t t' : Exports) : Prop where
  rest : t' = { t with unlinked := t'.unlinked }
  note : ∀ x j, t'.note? x = some j → t.note? x = some j

theorem Spends.refl (t : Exports) : Spends t t where
  rest := rfl
  note := fun _ _ found => found

/-- At most the note of `o` is spent. -/
structure Forgets (t : Exports) (o : ObjectId) (t' : Exports) : Prop extends Spends t t' where
  others : ∀ x, x ≠ o → t'.note? x = t.note? x

theorem Forgets.refl (t : Exports) (o : ObjectId) : Forgets t o t :=
  ⟨.refl t, fun _ _ => rfl⟩

theorem note?_erase (t : Exports) (o x : ObjectId) :
    Exports.note? { t with unlinked := t.unlinked.map fun m => m.erase o } x =
      if o = x then none else t.note? x := by
  unfold note?
  cases t.unlinked with
  | none => simp
  | some m => simp

theorem forgets_erase (t : Exports) (o : ObjectId) :
    Forgets t o { t with unlinked := t.unlinked.map fun m => m.erase o } where
  rest := rfl
  note := fun x j found => by
    rw [note?_erase] at found
    split at found
    · cases found
    · exact found
  others := fun x differ => by rw [note?_erase, if_neg (Ne.symm differ)]

theorem Spends.entry? (spends : Spends t t') (j : ExportKey) : t'.entry? j = t.entry? j := by
  rw [spends.rest]
  rfl

theorem Spends.keyOf? (spends : Spends t t') (x : ObjectId) : t'.keyOf? x = t.keyOf? x := by
  rw [spends.rest]
  rfl

theorem Spends.size (spends : Spends t t') : t'.size = t.size := by
  rw [spends.rest]
  rfl

theorem Spends.free (spends : Spends t t') : t'.free = t.free := by
  rw [spends.rest]

theorem Spends.quarantine (spends : Spends t t') : t'.quarantine = t.quarantine := by
  rw [spends.rest]

theorem Spends.places (spends : Spends t t') : t'.places = t.places := by
  rw [spends.rest]

theorem Spends.overridden (spends : Spends t t') : t'.overridden = t.overridden := by
  rw [spends.rest]

theorem Spends.ordered (spends : Spends t t') (ordered : t.Ordered) : t'.Ordered := by
  rw [spends.rest]
  exact ⟨ordered.places, ordered.vacant, ordered.nodup, ordered.size_le⟩

/-- The slot `k` holds `o`, and no other slot has changed. -/
structure Fills (t : Exports) (k : ExportKey) (o : ObjectId) (t' : Exports) : Prop where
  ordered : t'.Ordered
  entry : ∀ j, t'.entry? j = if k = j then some (.live o) else t.entry? j
  size : t'.size = max t.size (k.number + 1)
  note : ∀ x j, t'.note? x = some j → t.note? x = some j

theorem fills_of_live (ordered : t.Ordered) (spends : Spends t t')
    (live : t.entry? k = some (.live o)) : Fills t k o t' where
  ordered := spends.ordered ordered
  entry := fun j => by
    rw [spends.entry?]
    split
    · rename_i same
      rw [← same, live]
    · rfl
  size := by
    have below := lt_size_of_entry? live
    rw [spends.size]
    omega
  note := spends.note

theorem fills_restore (ordered : t.Ordered) (spends : Spends t t')
    (detached : t.entry? k = some .detached) (o : ObjectId) : Fills t k o (t'.restore k o) where
  ordered := ordered_restore (spends.ordered ordered) (spends.entry? k ▸ detached) o
  entry := fun j => by
    rw [entry?_restore (spends.entry? k ▸ detached), spends.entry?]
  size := by
    have below := lt_size_of_entry? detached
    rw [size_restore (spends.entry? k ▸ detached), spends.size]
    omega
  note := spends.note

/-- What asking for a severed slot can come to. -/
theorem regain_cases (t : Exports) (o : ObjectId) :
    (t.regain o).answer = none ∧ Forgets t o (t.regain o).state ∨
    (∃ k, (t.regain o).answer = some k ∧ t.entry? k = some (.live o) ∧
      Forgets t o (t.regain o).state) ∨
    ∃ k t', (t.regain o).answer = some k ∧ t.note? o = some k ∧ t.entry? k = some .detached ∧
      Forgets t o t' ∧ (t.regain o).state = t'.restore k o := by
  have erased := forgets_erase t o
  unfold regain
  split
  · exact .inl ⟨rfl, .refl t o⟩
  · rename_i k noted
    dsimp only
    split
    · rename_i detached
      exact .inr (.inr ⟨k, _, rfl, noted, detached, erased, rfl⟩)
    · rename_i other live
      by_cases same : other = o
      · subst same
        exact .inr (.inl ⟨k, by simp, live, erased⟩)
      · exact .inl ⟨by simp [same], erased⟩
    · exact .inl ⟨rfl, erased⟩

theorem fills_free {free : List ExportKey} (ordered : t.Ordered) (listed : t.free = k :: free)
    (o : ObjectId) : Fills t k o
      { t with rows := t.rows.set k (.live o), places := t.places.insert o k, free } := by
  have vacant : t.entry? k = some .free :=
    ordered.vacant k (List.mem_append_left _ (listed ▸ List.mem_cons_self))
  have below : t.rows.contains k = true := decide_eq_true (Exports.lt_size_of_entry? vacant)
  have size : (t.rows.set k (.live o)).size = t.size := Rows.size_set t.rows k (.live o)
  have nodup := ordered.nodup
  rw [listed, List.cons_append, List.nodup_cons] at nodup
  have entry : ∀ j, (t.rows.set k (.live o)).get? j =
      if k = j then some (.live o) else t.entry? j := by
    intro j
    rw [Rows.get?_set, below]
    simp only [and_true]
    rfl
  refine ⟨⟨fun x j => placed_insert ordered ?_ entry rfl, ?_, nodup.2, ?_⟩, entry, ?_,
    fun _ _ found => found⟩
  · intro x live
    rw [vacant] at live
    cases live
  · intro j member
    show (t.rows.set k (.live o)).get? j = _
    rw [entry, if_neg]
    · apply ordered.vacant j
      rw [listed, List.cons_append]
      exact List.mem_cons_of_mem k member
    · rintro rfl
      exact nodup.1 member
  · exact Nat.le_trans (Nat.le_of_eq size) ordered.size_le
  · have := lt_size_of_entry? vacant
    show (t.rows.set k (.live o)).size = _
    omega

theorem entry?_nextKey (t : Exports) : t.entry? t.rows.nextKey = none :=
  Rows.get?_eq_none_iff.2 (decide_eq_false (Nat.lt_irrefl _))

theorem fills_next (ordered : t.Ordered) (room : t.size < slotLimit) (o : ObjectId) :
    Fills t t.rows.nextKey o
      { t with rows := t.rows.push (.live o), places := t.places.insert o t.rows.nextKey } := by
  have size : (t.rows.push (.live o)).size = t.size + 1 := Rows.size_push t.rows (.live o)
  have entry : ∀ j, (t.rows.push (.live o)).get? j =
      if t.rows.nextKey = j then some (.live o) else t.entry? j :=
    fun j => Rows.get?_push t.rows (.live o) j
  refine ⟨⟨fun x j => placed_insert ordered ?_ entry rfl, ?_, ordered.nodup, ?_⟩, entry, ?_,
    fun _ _ found => found⟩
  · intro x live
    rw [entry?_nextKey] at live
    cases live
  · intro j member
    show (t.rows.push (.live o)).get? j = _
    have free := ordered.vacant j member
    rw [entry, if_neg]
    · exact free
    · rintro rfl
      rw [entry?_nextKey] at free
      cases free
  · exact Nat.le_trans (Nat.le_of_eq size) room
  · show (t.rows.push (.live o)).size = max t.size (t.rows.size + 1)
    simp only [Exports.size] at size ⊢
    omega

theorem fills_assign (ordered : t.Ordered) (assigned : (t.assign o).answer = .ok k) :
    Fills t k o (t.assign o).state ∧ ¬ t.Used k := by
  unfold assign at assigned ⊢
  split at assigned
  · rename_i n free listed
    cases assigned
    refine ⟨fills_free ordered listed o, not_used_of_free ?_⟩
    exact ordered.vacant k (List.mem_append_left _ (listed ▸ List.mem_cons_self))
  · rename_i listed
    rw [listed]
    split at assigned
    · rename_i room
      cases assigned
      simp only [if_pos room]
      refine ⟨listed ▸ fills_next ordered room o, ?_⟩
      rintro (e | ⟨x, e⟩)
      · exact nomatch (entry?_nextKey t).symm.trans e
      · exact nomatch (entry?_nextKey t).symm.trans e
    · cases assigned

theorem assign_error {f : Fault} (refused : (t.assign o).answer = .error f) :
    (t.assign o).state = t ∧ ∃ n, f = .slotNumber n := by
  unfold assign at refused ⊢
  split at refused
  · cases refused
  · split at refused
    · cases refused
    · rename_i full
      cases refused
      simp only [if_neg full, true_and]
      exact ⟨_, rfl⟩

/-- The slot that `o` has, or else one that is not in use. -/
def settle (t : Exports) (o : ObjectId) : Outcome Exports (Except Fault ExportKey) :=
  match t.keyOf? o with
  | some k => { state := t, answer := .ok k }
  | none => t.assign o

/-- What sharing an object can come to. -/
theorem share_cases (t : Exports) (o : ObjectId) :
    (∃ t', Forgets t o t' ∧ (t.share o).state = (t'.settle o).state ∧
      (t.share o).answer = (t'.settle o).answer) ∨
    (∃ k, (t.share o).answer = .ok k ∧ t.entry? k = some (.live o) ∧
      Forgets t o (t.share o).state) ∨
    ∃ k t', (t.share o).answer = .ok k ∧ t.note? o = some k ∧ t.entry? k = some .detached ∧
      Forgets t o t' ∧ (t.share o).state = t'.restore k o := by
  unfold share settle
  by_cases looked : t.overridden = true
  · simp only [if_pos looked]
    rcases t.regain_cases o with ⟨none, spends⟩ | ⟨k, some, live, spends⟩ |
        ⟨k, t', some, noted, detached, spends, state⟩
    · rw [none]
      refine .inl ⟨_, spends, ?_⟩
      cases (t.regain o).state.keyOf? o <;> exact ⟨rfl, rfl⟩
    · rw [some]
      exact .inr (.inl ⟨k, rfl, live, spends⟩)
    · rw [some]
      exact .inr (.inr ⟨k, t', rfl, noted, detached, spends, state⟩)
  · simp only [if_neg looked]
    refine .inl ⟨t, .refl t o, ?_⟩
    cases t.keyOf? o <;> exact ⟨rfl, rfl⟩

theorem fills_settle (ordered : t.Ordered) (settled : (t.settle o).answer = .ok k) :
    Fills t k o (t.settle o).state ∧ (t.entry? k = some (.live o) ∨ ¬ t.Used k) := by
  unfold settle at settled ⊢
  split at settled
  · rename_i n place
    cases settled
    have live := ordered.places o k place
    exact ⟨fills_of_live ordered (.refl t) live, .inl live⟩
  · have filled := fills_assign ordered settled
    exact ⟨filled.1, .inr filled.2⟩

/-- A slot that answers for `o` held it, was taken from it, or was not in use. -/
theorem fills_share (ordered : t.Ordered) (shared : (t.share o).answer = .ok k) :
    Fills t k o (t.share o).state ∧
      (t.entry? k = some (.live o) ∨ t.entry? k = some .detached ∧ t.note? o = some k ∨
        ¬ t.Used k) := by
  rcases t.share_cases o with ⟨r, spends, state, answer⟩ | ⟨n, answer, live, spends⟩ |
      ⟨n, r, answer, noted, detached, spends, state⟩
  · obtain ⟨fills, source⟩ := fills_settle (spends.ordered ordered) (answer ▸ shared)
    rw [state]
    refine ⟨⟨fills.ordered, ?_, ?_, ?_⟩, ?_⟩
    · intro j
      rw [fills.entry, spends.entry?]
    · rw [fills.size, spends.size]
    · exact fun x j found => spends.note x j (fills.note x j found)
    · simp only [Used, spends.entry?] at source
      exact source.imp id .inr
  · cases answer.symm.trans shared
    exact ⟨fills_of_live ordered spends.toSpends live, .inl live⟩
  · cases answer.symm.trans shared
    exact ⟨state ▸ fills_restore ordered spends.toSpends detached o, .inr (.inl ⟨detached, noted⟩)⟩

theorem spends_of_share_error {f : Fault} (refused : (t.share o).answer = .error f) :
    Spends t (t.share o).state ∧ ∃ n, f = .slotNumber n := by
  rcases t.share_cases o with ⟨r, spends, state, answer⟩ | ⟨n, answer, live, spends⟩ |
      ⟨n, r, answer, noted, detached, spends, state⟩
  · rw [answer] at refused
    rw [state]
    unfold settle at refused ⊢
    split at refused
    · cases refused
    · obtain ⟨same, full⟩ := assign_error refused
      exact ⟨same.symm ▸ spends.toSpends, full⟩
  · cases answer.symm.trans refused
  · cases answer.symm.trans refused

/-- A detached slot that comes home is filled from the notes, or else nothing happens. -/
theorem reinstate_cases (t : Exports) (k : ExportKey) :
    (t.reinstate k).answer = none ∧ (t.reinstate k).state = t ∨
    ∃ o t', (t.reinstate k).answer = some o ∧ t.note? o = some k ∧ t.entry? k = some .detached ∧
      Forgets t o t' ∧ (t.reinstate k).state = t'.restore k o := by
  unfold reinstate
  split
  · rename_i detached
    split
    · exact .inl ⟨rfl, rfl⟩
    · rename_i o noted
      obtain ⟨m, unlinked, found⟩ := Option.bind_eq_some_iff.1 noted
      refine .inr ⟨o, _, rfl, ?_, detached, forgets_erase t o, rfl⟩
      exact Option.bind_eq_some_iff.2 ⟨m, unlinked, Assoc.find?_of_keyOf? found⟩
  · exact .inl ⟨rfl, rfl⟩

/-- A detached slot is not filled from the notes only if none of them is about it. -/
theorem note?_ne_of_reinstate (detached : t.entry? k = some .detached)
    (none : (t.reinstate k).answer = none) (x : ObjectId) : t.note? x ≠ some k := by
  intro noted
  obtain ⟨m, unlinked, found⟩ := Option.bind_eq_some_iff.1 noted
  unfold reinstate at none
  rw [if_pos detached, unlinked] at none
  cases back : m.keyOf? k with
  | none => exact Assoc.find?_ne_of_keyOf? back x found
  | some o =>
      simp only [Option.bind_some, back] at none
      cases none

end TwinHeap.Exports
