import TwinHeap.Proofs.Heap.Cells

/-! Two ways to look at a change of a heap: which proxies there are after it, and what becomes of
names that were known before it. Only the second depends on generations not going round. -/
namespace TwinHeap

/-- The same object with another record, if it is a proxy. -/
def Object.withRecord (o : Object) (record : Option RepairRecord) : Object :=
  match o.body with
  | .proxy q => { o with body := .proxy { q with record } }
  | _ => o

@[simp] theorem Object.proxy?_withRecord (o : Object) (r : Option RepairRecord) :
    (o.withRecord r).proxy? = o.proxy?.map fun q => { q with record := r } := by
  obtain ⟨c, body⟩ := o
  cases body <;> rfl

namespace Heap

/-- No proxy is made or altered. Proxies may be lost. -/
structure Aged (h h' : Heap) : Prop where
  wellFormed : h'.WellFormed
  proxy : ∀ id q, h'.proxy? id = some q → h.proxy? id = some q

/-- Names that were known stay known, and their objects can only be lost. A proxy goes on to stand
for the slot it stood for. -/
structure Onward (h h' : Heap) : Prop where
  known : ∀ id, h.Known id → h'.Known id
  alive : ∀ id, h.Known id → h'.isAlive id = true → h.isAlive id = true
  key : ∀ id, h.Known id → h'.isAlive id = true →
    (h'.proxy? id).map Proxy.key = (h.proxy? id).map Proxy.key

theorem Onward.refl (h : Heap) : h.Onward h where
  known := fun _ known => known
  alive := fun _ _ alive => alive
  key := fun _ _ _ => rfl

theorem Onward.trans {a b c : Heap} (first : a.Onward b) (next : b.Onward c) : a.Onward c where
  known := fun id known => next.known id (first.known id known)
  alive := fun id known alive => first.alive id known (next.alive id (first.known id known) alive)
  key := fun id known alive => by
    have known' := first.known id known
    rw [next.key id known' alive, first.key id known (next.alive id known' alive)]

/-- Objects are read through `get?`, so that a change which keeps them keeps every name. -/
theorem onward_of_get?_eq {h h' : Heap} (known : ∀ id, h.Known id → h'.Known id)
    (same : ∀ id, h.Known id → h'.get? id = h.get? id) : h.Onward h' where
  known := known
  alive := fun id hk alive => by simpa only [isAlive, same id hk] using alive
  key := fun id hk _ => by simp only [proxy?, same id hk]

theorem onward_of_cells_eq {h h' : Heap} (same : h'.cells = h.cells) : h.Onward h' :=
  onward_of_get?_eq (fun id ⟨c, hc, older⟩ => ⟨c, by rw [same, hc], older⟩)
    fun id _ => get?_of_cells_eq same id

theorem aged_of_cells_eq {h h' : Heap} (cells : h'.cells = h.cells) (free : h'.free = h.free)
    (hw : h.WellFormed) : h.Aged h' where
  wellFormed := ⟨by simpa only [cells, free] using hw.empty, free.symm ▸ hw.nodup⟩
  proxy := fun id q found => by simpa only [proxy?, get?_of_cells_eq cells] using found

theorem age_of_cells_eq {h h' : Heap} (same : h'.cells = h.cells) (slot : Nat) :
    h'.age slot = h.age slot := by
  simp only [age, same]

section Operations

variable {h : Heap}

theorem onward_place (hw : h.WellFormed) (o : Object) : h.Onward (h.place o).2 :=
  onward_of_get?_eq (fun _ known => known_place o known) fun id known => by
    rw [get?_place o hw, if_neg]
    rintro rfl
    exact not_known_place o hw known

theorem aged_place (hw : h.WellFormed) {o : Object} (other : o.proxy? = none) :
    h.Aged (h.place o).2 where
  wellFormed := wellFormed_place o hw
  proxy := fun id q found => by
    rw [proxy?, get?_place o hw] at found
    split at found
    · simp [other] at found
    · exact found

theorem onward_put {id : ObjectId} {o new : Object} (found : h.get? id = some o)
    (same : new.proxy?.map Proxy.key = o.proxy?.map Proxy.key) : h.Onward (h.put id.slot new) where
  known := fun _ known => known_put known id.slot new
  alive := fun x known alive => by
    rw [isAlive, get?_put found] at alive
    split at alive
    · rename_i e
      rw [isAlive, e, found]
      rfl
    · exact alive
  key := fun x known alive => by
    rw [proxy?, get?_put found, proxy?]
    split
    · rename_i e
      rw [e, found]
      exact same
    · rfl

theorem aged_put (hw : h.WellFormed) {id : ObjectId} {o new : Object} (found : h.get? id = some o)
    (other : new.proxy? = none) : h.Aged (h.put id.slot new) where
  wellFormed := wellFormed_put hw found new
  proxy := fun x q e => by
    rw [proxy?, get?_put found] at e
    split at e
    · simp [other] at e
    · exact e

theorem plainFields_eq_ok {id : ObjectId} {c : ObjectClass} {fields : List Value}
    (e : h.plainFields id = .ok (c, fields)) : h.get? id = some (.plain c fields) := by
  unfold plainFields at e
  split at e
  · cases e
  · rename_i o found
    obtain ⟨c', body⟩ := o
    cases body <;> simp_all [Object.fields?, Object.plain]

@[simp] theorem cells_addRoot (id : ObjectId) : (h.addRoot id).2.cells = h.cells := by
  unfold addRoot
  split <;> rfl

@[simp] theorem free_addRoot (id : ObjectId) : (h.addRoot id).2.free = h.free := by
  unfold addRoot
  split <;> rfl

@[simp] theorem cells_removeRoot (r : RootHandle) : (h.removeRoot r).cells = h.cells := by
  unfold removeRoot
  split
  · rfl
  · dsimp only
    split <;> rfl

@[simp] theorem free_removeRoot (r : RootHandle) : (h.removeRoot r).free = h.free := by
  unfold removeRoot
  split
  · rfl
  · dsimp only
    split <;> rfl

@[simp] theorem live_addRoot (id : ObjectId) : (h.addRoot id).2.live = h.live := by
  unfold addRoot
  split <;> rfl

@[simp] theorem live_removeRoot (r : RootHandle) : (h.removeRoot r).live = h.live := by
  unfold removeRoot
  split
  · rfl
  · dsimp only
    split <;> rfl

theorem setField_eq_ok {id : ObjectId} {n : Nat} {v : Value} {h' : Heap}
    (e : h.setField id n v = .ok h') :
    ∃ c fields, h.get? id = some (.plain c fields) ∧
      h' = h.put id.slot (.plain c (fields.set n v)) := by
  unfold setField at e
  split at e
  · cases e
  · rename_i c fields plain
    split at e
    · cases e
      exact ⟨c, fields, plainFields_eq_ok plain, rfl⟩
    · cases e

theorem pushField_eq_ok {id : ObjectId} {v : Value} {h' : Heap} (e : h.pushField id v = .ok h') :
    ∃ c fields, h.get? id = some (.plain c fields) ∧
      h' = h.put id.slot (.plain c (fields ++ [v])) := by
  unfold pushField at e
  split at e
  · cases e
  · rename_i c fields plain
    cases e
    exact ⟨c, fields, plainFields_eq_ok plain, rfl⟩

/-- A program moves roots, puts an object into a cell or rewrites one plain object. -/
theorem mutate_cases (h : Heap) (m : Mutation) :
    (h.mutate m).cells = h.cells ∧ (h.mutate m).free = h.free ∧ (h.mutate m).live = h.live ∨
    (∃ o, o.proxy? = none ∧ h.mutate m = (h.place o).2) ∨
    ∃ id o new, h.get? id = some o ∧ o.proxy? = none ∧ new.proxy? = none ∧
      h.mutate m = h.put id.slot new := by
  cases m with
  | alloc cls fields =>
      rcases h.state_alloc (.plain cls fields) with made | full
      · exact .inr (.inl ⟨_, rfl, made⟩)
      · exact .inl ⟨congrArg cells full, congrArg free full, congrArg live full⟩
  | allocWeak target =>
      rcases h.state_alloc (.weak target) with made | full
      · exact .inr (.inl ⟨_, rfl, made⟩)
      · exact .inl ⟨congrArg cells full, congrArg free full, congrArg live full⟩
  | setField id n v =>
      cases e : h.setField id n v with
      | error f => exact .inl (by simp [mutate, e, Except.toOption])
      | ok h' =>
          obtain ⟨c, fields, found, rfl⟩ := setField_eq_ok e
          exact .inr (.inr ⟨id, _, .plain c (fields.set n v), found, rfl, rfl,
            by simp [mutate, e, Except.toOption]⟩)
  | pushField id v =>
      cases e : h.pushField id v with
      | error f => exact .inl (by simp [mutate, e, Except.toOption])
      | ok h' =>
          obtain ⟨c, fields, found, rfl⟩ := pushField_eq_ok e
          exact .inr (.inr ⟨id, _, .plain c (fields ++ [v]), found, rfl, rfl,
            by simp [mutate, e, Except.toOption]⟩)
  | addRoot id => exact .inl ⟨cells_addRoot id, free_addRoot id, live_addRoot id⟩
  | setRoot r id => exact .inl ⟨rfl, rfl, rfl⟩
  | removeRoot r => exact .inl ⟨cells_removeRoot r, free_removeRoot r, live_removeRoot r⟩

theorem aged_mutate (hw : h.WellFormed) (m : Mutation) : h.Aged (h.mutate m) := by
  rcases h.mutate_cases m with ⟨cells, free, -⟩ | ⟨o, other, e⟩ | ⟨id, o, new, found, -, other, e⟩
  · exact aged_of_cells_eq cells free hw
  · exact e ▸ aged_place hw other
  · exact e ▸ aged_put hw found other

theorem onward_mutate (hw : h.WellFormed) (m : Mutation) : h.Onward (h.mutate m) := by
  rcases h.mutate_cases m with ⟨cells, -⟩ | ⟨o, other, e⟩ | ⟨id, o, new, found, old, other, e⟩
  · exact onward_of_cells_eq cells
  · exact e ▸ onward_place hw o
  · exact e ▸ onward_put found (by rw [old, other])

theorem age_mutate (m : Mutation) (slot : Nat) : (h.mutate m).age slot = h.age slot := by
  rcases h.mutate_cases m with ⟨cells, -⟩ | ⟨o, other, e⟩ | ⟨id, o, new, found, old, other, e⟩
  · exact age_of_cells_eq cells slot
  · exact e ▸ age_place o slot
  · exact e ▸ age_put id.slot slot new

theorem proxy?_of_sweep {marks : SlotSet} {id : ObjectId} {q : Proxy}
    (found : (h.sweep marks).2.proxy? id = some q) : h.proxy? id = some q := by
  rw [proxy?, get?_sweep] at found
  split at found
  · exact found
  · cases found

theorem aged_sweep (hw : h.WellFormed) (marks : SlotSet) : h.Aged (h.sweep marks).2 where
  wellFormed := wellFormed_sweep marks hw
  proxy := fun _ _ => proxy?_of_sweep

theorem onward_sweep {marks : SlotSet} (rising : h.Rising (h.sweep marks).2) :
    h.Onward (h.sweep marks).2 where
  known := fun _ known => known_sweep marks rising known
  alive := fun id _ alive => by
    rw [isAlive, get?_sweep] at alive
    split at alive
    · exact alive
    · cases alive
  key := fun id _ alive => by
    rw [isAlive, get?_sweep] at alive
    rw [proxy?, get?_sweep, proxy?]
    split
    · rfl
    · rename_i unmarked
      rw [if_neg unmarked] at alive
      cases alive

/-- A sweep moves the generation of a cell on by one at most. -/
theorem age_sweep (marks : SlotSet) (slot : Nat) :
    (h.sweep marks).2.age slot = h.age slot ∨ (h.sweep marks).2.age slot = h.age slot + 1 := by
  rw [age_sweep_eq]
  split
  · exact .inr rfl
  · exact .inl rfl

theorem get?_setRecord (p : ObjectId) (r : Option RepairRecord) (x : ObjectId) :
    (h.setRecord p r).get? x =
      if x = p then (h.get? x).map fun o => o.withRecord r else h.get? x := by
  unfold setRecord
  split
  · rename_i c q found
    rw [get?_put found]
    split
    · rename_i e
      rw [e, found]
      rfl
    · rfl
  · rename_i other
    split
    · rename_i e
      subst e
      cases found : h.get? x with
      | none => rfl
      | some o =>
          obtain ⟨c, body⟩ := o
          cases body with
          | proxy q => exact (other c q found).elim
          | plain fields => rfl
          | weak target => rfl
    · rfl

theorem proxy?_setRecord (p : ObjectId) (r : Option RepairRecord) (x : ObjectId) :
    (h.setRecord p r).proxy? x =
      if x = p then (h.proxy? x).map fun q => { q with record := r } else h.proxy? x := by
  rw [proxy?, get?_setRecord, proxy?]
  split
  · cases h.get? x <;> simp
  · rfl

theorem wellFormed_setRecord (hw : h.WellFormed) (p : ObjectId) (r : Option RepairRecord) :
    (h.setRecord p r).WellFormed := by
  unfold setRecord
  split
  · rename_i c q found
    exact wellFormed_put hw found _
  · exact hw

theorem onward_setRecord (p : ObjectId) (r : Option RepairRecord) :
    h.Onward (h.setRecord p r) := by
  unfold setRecord
  split
  · rename_i c q found
    exact onward_put found rfl
  · exact .refl h

@[simp] theorem age_setRecord (p : ObjectId) (r : Option RepairRecord) (slot : Nat) :
    (h.setRecord p r).age slot = h.age slot := by
  unfold setRecord
  split
  · exact age_put _ slot _
  · rfl

@[simp] theorem rootIds_setRecord (p : ObjectId) (r : Option RepairRecord) :
    (h.setRecord p r).rootIds = h.rootIds := by
  unfold setRecord
  split <;> rfl

end Operations

/-- Records of proxies may differ, and nothing else that can be read. -/
structure Recast (h h' : Heap) : Prop where
  same : ∀ x, (h'.get? x).map (fun o => o.withRecord none) =
    (h.get? x).map fun o => o.withRecord none
  known : ∀ x, h.Known x → h'.Known x
  age : ∀ slot, h'.age slot = h.age slot
  roots : h'.rootIds = h.rootIds
  wellFormed : h.WellFormed → h'.WellFormed

namespace Recast

variable {h h' h'' : Heap} {x : ObjectId}

theorem refl (h : Heap) : h.Recast h where
  same := fun _ => rfl
  known := fun _ known => known
  age := fun _ => rfl
  roots := rfl
  wellFormed := fun hw => hw

theorem trans (first : h.Recast h') (next : h'.Recast h'') : h.Recast h'' where
  same := fun x => (next.same x).trans (first.same x)
  known := fun x known => next.known x (first.known x known)
  age := fun slot => (next.age slot).trans (first.age slot)
  roots := next.roots.trans first.roots
  wellFormed := fun hw => next.wellFormed (first.wellFormed hw)

theorem isAlive (recast : h.Recast h') (x : ObjectId) : h'.isAlive x = h.isAlive x := by
  have same := congrArg Option.isSome (recast.same x)
  simp only [Option.isSome_map] at same
  exact same

theorem key (recast : h.Recast h') (x : ObjectId) :
    (h'.proxy? x).map Proxy.key = (h.proxy? x).map Proxy.key := by
  have same := congrArg (fun o => (o.bind Object.proxy?).map Proxy.key) (recast.same x)
  simpa only [Option.bind_map, Function.comp_def, Object.proxy?_withRecord, Option.map_bind,
    Option.map_map, Heap.proxy?] using same

theorem proxy?_eq_none_iff (recast : h.Recast h') (x : ObjectId) :
    h'.proxy? x = none ↔ h.proxy? x = none := by
  have same := congrArg Option.isNone (recast.key x)
  simp only [Option.isNone_map] at same
  rw [← Option.isNone_iff_eq_none, same, Option.isNone_iff_eq_none]

/-- An object that is no proxy is what it was. -/
theorem get?_of_proxy?_eq_none (recast : h.Recast h') (other : h.proxy? x = none) :
    h'.get? x = h.get? x := by
  have plain : ∀ {h : Heap}, h.proxy? x = none →
      (h.get? x).map (fun o => o.withRecord none) = h.get? x := by
    intro h other
    unfold proxy? at other
    cases found : h.get? x with
    | none => rfl
    | some o =>
        obtain ⟨c, body⟩ := o
        rw [found] at other
        cases body with
        | proxy q => cases other
        | plain fields => rfl
        | weak target => rfl
  rw [← plain ((recast.proxy?_eq_none_iff x).2 other), recast.same, plain other]

theorem onward (recast : h.Recast h') : h.Onward h' where
  known := recast.known
  alive := fun x _ alive => recast.isAlive x ▸ alive
  key := fun x _ _ => recast.key x

end Recast

theorem recast_setRecord (h : Heap) (p : ObjectId) (r : Option RepairRecord) :
    h.Recast (h.setRecord p r) where
  same := fun x => by
    rw [get?_setRecord]
    split
    · cases h.get? x with
      | none => rfl
      | some o =>
          obtain ⟨c, body⟩ := o
          cases body <;> rfl
    · rfl
  known := (onward_setRecord p r).known
  age := age_setRecord p r
  roots := rootIds_setRecord p r
  wellFormed := fun hw => wellFormed_setRecord hw p r

/-- Takes the records of several proxies away. -/
def clearRecords (h : Heap) (ps : List ObjectId) : Heap :=
  ps.foldl (fun h p => h.setRecord p none) h

theorem recast_clearRecords (h : Heap) (ps : List ObjectId) : h.Recast (h.clearRecords ps) := by
  induction ps generalizing h with
  | nil => exact .refl h
  | cons p ps ih => exact (recast_setRecord h p none).trans (ih (h.setRecord p none))

theorem proxy?_clearRecords (h : Heap) (ps : List ObjectId) (x : ObjectId) :
    (h.clearRecords ps).proxy? x =
      if x ∈ ps then (h.proxy? x).map fun q => { q with record := none } else h.proxy? x := by
  induction ps generalizing h with
  | nil => rfl
  | cons p ps ih =>
      apply (ih (h.setRecord p none)).trans
      rw [proxy?_setRecord]
      by_cases same : x = p
      · subst same
        cases h.proxy? x <;> simp
      · simp [same]

end Heap

end TwinHeap
