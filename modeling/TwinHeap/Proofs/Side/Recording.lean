import TwinHeap.Proofs.Side.Repair

/-! What the proxies have on record once new records are attached to them. What a record says already
stays there, unless it is about a slot that the new one names. -/
namespace TwinHeap

namespace RepairRecord

/-- Every slot is listed with its object. -/
def Paired (r : RepairRecord) : Prop := r.keys.length = r.objects.length

variable {r : RepairRecord} {k : ExportKey} {id : ObjectId}

theorem paired_push (paired : r.Paired) (k : ExportKey) (id : ObjectId) : (r.push k id).Paired := by
  simp only [Paired, push, List.length_append, List.length_singleton]
  exact congrArg (· + 1) paired

theorem mem_entries_push (paired : r.Paired) (k : ExportKey) (id : ObjectId)
    (e : ExportKey × ObjectId) : e ∈ (r.push k id).entries ↔ e ∈ r.entries ∨ e = (k, id) := by
  rw [entries, push, List.zip_append paired, List.mem_append]
  simp [entries]

/-- An object that is listed with a slot belongs to an entry. -/
theorem exists_key_of_mem (paired : r.Paired) (member : id ∈ r.objects) :
    ∃ k, (k, id) ∈ r.entries := by
  obtain ⟨n, below, rfl⟩ := List.mem_iff_getElem.1 member
  have belowKeys : n < r.keys.length := paired ▸ below
  refine ⟨r.keys[n], List.mem_iff_getElem.2 ⟨n, ?_, ?_⟩⟩
  · simp only [entries, List.length_zip]
    omega
  · simp [entries]

theorem mem_objects_of_mem (member : (k, id) ∈ r.entries) : id ∈ r.objects :=
  (List.of_mem_zip member).2

/-- The entries of `l` have been noted in `r` one by one, which made it `r'`. An entry gives way only
to another one for its slot. -/
structure Merges (r : RepairRecord) (l : List (ExportKey × ObjectId)) (r' : RepairRecord) : Prop where
  paired : r'.Paired
  source : ∀ e ∈ r'.entries, e ∈ r.entries ∨ e ∈ l
  kept : ∀ e, e ∈ r.entries ∨ e ∈ l → (∀ e' ∈ l, e'.1 = e.1 → e' = e) → e ∈ r'.entries

theorem Merges.refl (paired : r.Paired) : Merges r [] r where
  paired := paired
  source := fun _ member => .inl member
  kept := fun _ either _ => either.resolve_right fun none => nomatch none

theorem Merges.cons {r₁ r' : RepairRecord} {e : ExportKey × ObjectId}
    {l : List (ExportKey × ObjectId)} (first : Merges r [e] r₁) (next : Merges r₁ l r') :
    Merges r (e :: l) r' where
  paired := next.paired
  source := fun x member => by
    rcases next.source x member with early | later
    · rcases first.source x early with old | now
      · exact .inl old
      · exact .inr (List.mem_cons.2 (.inl (List.mem_singleton.1 now)))
    · exact .inr (List.mem_cons_of_mem e later)
  kept := fun x either agree => by
    have here : ∀ e' ∈ [e], e'.1 = x.1 → e' = x := fun e' member =>
      agree e' (List.mem_cons.2 (.inl (List.mem_singleton.1 member)))
    refine next.kept x ?_ fun e' member => agree e' (List.mem_cons_of_mem e member)
    rcases either with old | listed
    · exact .inl (first.kept x (.inl old) here)
    · rcases List.mem_cons.1 listed with now | later
      · exact .inl (first.kept x (.inr (List.mem_singleton.2 now)) here)
      · exact .inr later

theorem entries_set (paired : r.Paired) {n : Nat} (below : n < r.keys.length) (id : ObjectId) :
    entries { r with objects := r.objects.set n id } = r.entries.set n (r.keys[n], id) := by
  have belowObjects : n < r.objects.length := paired ▸ below
  apply List.ext_getElem
  · simp [entries]
  · intro m _ _
    by_cases same : n = m
    · subst same
      simp [entries]
    · simp [entries, List.getElem_set_ne same]

theorem mem_entries_set_of_ne (paired : r.Paired) {n : Nat} (below : n < r.keys.length)
    (id : ObjectId) {e : ExportKey × ObjectId} (old : e ∈ r.entries) (apart : r.keys[n] ≠ e.1) :
    e ∈ entries { r with objects := r.objects.set n id } := by
  obtain ⟨m, belowEntry, same⟩ := List.mem_iff_getElem.1 old
  have differ : n ≠ m := by
    rintro rfl
    refine apart ?_
    rw [← same]
    simp [entries]
  rw [entries_set paired below]
  refine List.mem_iff_getElem.2 ⟨m, ?_, ?_⟩
  · rw [List.length_set]
    exact belowEntry
  · rw [List.getElem_set_ne differ]
    exact same

theorem merges_note (paired : r.Paired) (k : ExportKey) (id : ObjectId) :
    ∃ r', r.note k id = .ok r' ∧ r.Merges [(k, id)] r' := by
  unfold note
  split
  · refine ⟨_, rfl, paired_push paired k id, fun e member => ?_, fun e either _ => ?_⟩
    · exact ((mem_entries_push paired k id e).1 member).imp_right List.mem_singleton.2
    · exact (mem_entries_push paired k id e).2 (either.imp_right List.mem_singleton.1)
  · rename_i n found
    obtain ⟨below, hit, -⟩ := List.findIdx?_eq_some_iff_getElem.1 found
    have key : r.keys[n] = k := of_decide_eq_true hit
    have belowObjects : n < r.objects.length := paired ▸ below
    have entries := key ▸ entries_set paired below id
    refine ⟨_, if_pos belowObjects, ?_, fun e member => ?_, fun e either agree => ?_⟩
    · have length : (r.objects.set n id).length = r.objects.length := List.length_set
      exact paired.trans length.symm
    · rw [entries] at member
      exact (List.mem_or_eq_of_mem_set member).imp_right List.mem_singleton.2
    · by_cases here : k = e.1
      · rw [entries, ← agree (k, id) List.mem_cons_self here]
        have belowEntries : n < r.entries.length := by
          simp only [RepairRecord.entries, List.length_zip]
          omega
        exact List.mem_set belowEntries (k, id)
      · have old : e ∈ r.entries := either.resolve_right fun now =>
          here (congrArg Prod.fst (List.mem_singleton.1 now)).symm
        exact mem_entries_set_of_ne paired below id old fun same => here (key.symm.trans same)

/-- Of a paired record, all entries can be noted. -/
theorem merges_merge (paired : r.Paired) (l : List (ExportKey × ObjectId)) :
    ∃ r', r.merge l = (r', .ok ()) ∧ r.Merges l r' := by
  induction l generalizing r with
  | nil => exact ⟨r, rfl, .refl paired⟩
  | cons e l ih =>
      obtain ⟨next, noted, first⟩ := merges_note paired e.1 e.2
      obtain ⟨last, merged, rest⟩ := ih first.paired
      refine ⟨last, ?_, first.cons rest⟩
      rw [merge, noted]
      exact merged

end RepairRecord

/-- Every record lists its slots with their objects. -/
def Heap.PairedRecords (h : Heap) : Prop :=
  ∀ p q r, h.proxy? p = some q → q.record = some r → r.Paired

theorem Heap.pairedRecords_setRecord {h : Heap} (paired : h.PairedRecords) (p : ObjectId)
    {r : RepairRecord} (pairedNew : r.Paired) : (h.setRecord p (some r)).PairedRecords := by
  intro x q r' proxy record
  rw [Heap.proxy?_setRecord] at proxy
  split at proxy
  · obtain ⟨q', -, rfl⟩ := Option.map_eq_some_iff.1 proxy
    cases record
    exact pairedNew
  · exact paired x q r' proxy record

theorem Heap.recordOf_setRecord {h : Heap} {p : ObjectId} {q : Proxy}
    (found : h.proxy? p = some q) (r : RepairRecord) (x : ObjectId) (k : ExportKey) (o : ObjectId) :
    (h.setRecord p (some r)).RecordOf x k o ↔
      if x = p then (k, o) ∈ r.entries else h.RecordOf x k o := by
  unfold Heap.RecordOf
  rw [Heap.proxy?_setRecord]
  split
  · rename_i same
    subst same
    rw [found]
    constructor
    · rintro ⟨q', r', proxy, record, member⟩
      cases proxy
      cases record
      exact member
    · exact fun member => ⟨_, r, rfl, rfl, member⟩
  · rfl

namespace Side

def Unrecorded (s : Side) : Prop := ∀ p q, s.heap.proxy? p = some q → q.record = none

variable {s s' : Side}

theorem Unrecorded.not_recordOf (bare : s.Unrecorded) {p : ObjectId} {k : ExportKey}
    {x : ObjectId} : ¬ s.heap.RecordOf p k x := by
  rintro ⟨q, r, proxy, record, -⟩
  rw [bare p q proxy] at record
  cases record

theorem Unrecorded.pairedRecords (bare : s.Unrecorded) : s.heap.PairedRecords := by
  intro p q r proxy record
  rw [bare p q proxy] at record
  cases record

/-- A record of the list for the proxy names the slot with the object. -/
def Listed (l : List (ObjectId × RepairRecord)) (p : ObjectId) (k : ExportKey) (x : ObjectId) :
    Prop :=
  ∃ r, (p, r) ∈ l ∧ (k, x) ∈ r.entries

theorem listed_singleton {p p' : ObjectId} {r : RepairRecord} {k : ExportKey} {x : ObjectId} :
    Listed [(p, r)] p' k x ↔ p' = p ∧ (k, x) ∈ r.entries := by
  simp [Listed, and_assoc]

theorem listed_cons {e : ObjectId × RepairRecord} {l : List (ObjectId × RepairRecord)}
    {p : ObjectId} {k : ExportKey} {x : ObjectId} :
    Listed (e :: l) p k x ↔ Listed [e] p k x ∨ Listed l p k x := by
  simp [Listed, or_and_right, exists_or]

/-- The records of `l` have been attached to proxies, next to what was there. -/
structure Attached (s : Side) (l : List (ObjectId × RepairRecord)) (s' : Side) : Prop where
  heap : s.heap.Recast s'.heap
  paired : s'.heap.PairedRecords
  source : ∀ p k x, s'.heap.RecordOf p k x →
    s.heap.RecordOf p k x ∨ (s.heap.proxy? p).isSome = true ∧ Listed l p k x
  kept : ∀ p k x, s.heap.RecordOf p k x ∨ (s.heap.proxy? p).isSome = true ∧ Listed l p k x →
    (∀ y, Listed l p k y → y = x) → s'.heap.RecordOf p k x
  owner : ∀ p, s'.heap.HasRecord p → s.heap.HasRecord p ∨ ∃ r, (p, r) ∈ l
  rest : s' = { s with heap := s'.heap }

theorem Attached.isSome_proxy? {l : List (ObjectId × RepairRecord)} (attached : s.Attached l s')
    (p : ObjectId) : (s'.heap.proxy? p).isSome = (s.heap.proxy? p).isSome := by
  have key := congrArg Option.isSome (attached.heap.key p)
  simpa only [Option.isSome_map] using key

theorem Attached.cons {s₁ : Side} {e : ObjectId × RepairRecord}
    {l : List (ObjectId × RepairRecord)} (first : s.Attached [e] s₁) (next : s₁.Attached l s') :
    s.Attached (e :: l) s' where
  heap := first.heap.trans next.heap
  paired := next.paired
  source := fun p k x recorded => by
    rw [listed_cons]
    rcases next.source p k x recorded with early | ⟨alive, listed⟩
    · rcases first.source p k x early with old | ⟨alive, listed⟩
      · exact .inl old
      · exact .inr ⟨alive, .inl listed⟩
    · exact .inr ⟨first.isSome_proxy? p ▸ alive, .inr listed⟩
  kept := fun p k x either agree => by
    have before : ∀ y, Listed [e] p k y → y = x := fun y listed =>
      agree y (listed_cons.2 (.inl listed))
    refine next.kept p k x ?_ fun y listed => agree y (listed_cons.2 (.inr listed))
    rcases either with old | ⟨alive, listed⟩
    · exact .inl (first.kept p k x (.inl old) before)
    · rcases listed_cons.1 listed with now | later
      · exact .inl (first.kept p k x (.inr ⟨alive, now⟩) before)
      · exact .inr ⟨(first.isSome_proxy? p).trans alive, later⟩
  owner := fun p has => by
    rcases next.owner p has with early | ⟨r, member⟩
    · rcases first.owner p early with old | ⟨r, member⟩
      · exact .inl old
      · exact .inr ⟨r, List.mem_cons.2 (.inl (List.mem_singleton.1 member))⟩
    · exact .inr ⟨r, List.mem_cons_of_mem e member⟩
  rest := by rw [next.rest, first.rest]

/-- The record of `p` becomes what it was with what `r` says noted in it. -/
theorem attached_setRecord {p : ObjectId} {q : Proxy} {r merged : RepairRecord}
    {old : List (ExportKey × ObjectId)} (paired : s.heap.PairedRecords)
    (found : s.heap.proxy? p = some q) (before : ∀ k x, s.heap.RecordOf p k x ↔ (k, x) ∈ old)
    (pairedNew : merged.Paired) (source : ∀ e ∈ merged.entries, e ∈ old ∨ e ∈ r.entries)
    (kept : ∀ e, e ∈ old ∨ e ∈ r.entries → (∀ e' ∈ r.entries, e'.1 = e.1 → e' = e) →
      e ∈ merged.entries) :
    Attached s [(p, r)] { s with heap := s.heap.setRecord p (some merged) } where
  heap := Heap.recast_setRecord s.heap p (some merged)
  paired := Heap.pairedRecords_setRecord paired p pairedNew
  source := fun x k o recorded => by
    have member := (Heap.recordOf_setRecord found merged x k o).1 recorded
    split at member
    · rename_i same
      subst same
      rw [before, listed_singleton]
      exact (source (k, o) member).imp_right fun now => ⟨by rw [found]; rfl, rfl, now⟩
    · exact .inl member
  kept := fun x k o either agree => by
    apply (Heap.recordOf_setRecord found merged x k o).2
    simp only [listed_singleton] at either agree
    split
    · rename_i same
      subst same
      rw [before] at either
      refine kept (k, o) (either.imp_right fun now => now.2.2) ?_
      rintro ⟨k', y⟩ member rfl
      rw [agree y ⟨rfl, member⟩]
    · rename_i differ
      exact either.resolve_right fun now => differ now.2.1
  owner := fun x ⟨q', r', proxy, record⟩ => by
    dsimp only at proxy
    rw [Heap.proxy?_setRecord] at proxy
    split at proxy
    · rename_i same
      exact .inr ⟨r, List.mem_singleton.2 (by rw [same])⟩
    · exact .inl ⟨q', r', proxy, record⟩
  rest := rfl

theorem attached_attachRecord (paired : s.heap.PairedRecords) (p : ObjectId) {r : RepairRecord}
    (pairedNew : r.Paired) :
    (s.attachRecord p r).answer = .ok () ∧ Attached s [(p, r)] (s.attachRecord p r).state := by
  unfold attachRecord
  cases found : s.heap.proxy? p with
  | none =>
      have missing : ∀ x, (s.heap.proxy? x).isSome = true → x ≠ p := by
        rintro x alive rfl
        rw [found] at alive
        cases alive
      refine ⟨rfl, .refl s.heap, paired, fun _ _ _ => .inl, fun x k o either _ => ?_, fun _ => .inl, rfl⟩
      exact either.resolve_right fun now => missing x now.1 (listed_singleton.1 now.2).1
  | some q =>
      dsimp only
      cases record : q.record with
      | none =>
          have before : ∀ k x, s.heap.RecordOf p k x ↔ (k, x) ∈ ([] : List (ExportKey × ObjectId)) := by
            intro k x
            refine ⟨?_, fun none => nomatch none⟩
            rintro ⟨q', r', proxy, record', -⟩
            cases found.symm.trans proxy
            rw [record] at record'
            cases record'
          refine ⟨rfl, attached_setRecord paired found before pairedNew (fun _ => .inr) ?_⟩
          exact fun e either _ => either.resolve_left fun none => nomatch none
      | some old =>
          obtain ⟨merged, e, merges⟩ :=
            RepairRecord.merges_merge (paired p q old found record) r.entries
          dsimp only
          rw [e]
          exact ⟨rfl, attached_setRecord paired found (fun _ _ => Heap.recordOf_iff found record)
            merges.paired merges.source merges.kept⟩

theorem attached_attachRecords (paired : s.heap.PairedRecords)
    (l : List (ObjectId × RepairRecord)) (pairedNew : ∀ e ∈ l, e.2.Paired) :
    (s.attachRecords l).answer = .ok () ∧ Attached s l (s.attachRecords l).state := by
  induction l generalizing s with
  | nil =>
      refine ⟨rfl, .refl s.heap, paired, fun _ _ _ => .inl, fun p k x either _ => ?_, fun _ => .inl, rfl⟩
      exact either.resolve_right fun now => by simp [Listed] at now
  | cons e l ih =>
      obtain ⟨p, r⟩ := e
      obtain ⟨ok, first⟩ := attached_attachRecord paired p (pairedNew (p, r) List.mem_cons_self)
      obtain ⟨okRest, rest⟩ := ih first.paired fun e member =>
        pairedNew e (List.mem_cons_of_mem _ member)
      rw [attachRecords]
      simp only [ok]
      exact ⟨okRest, first.cons rest⟩

theorem rest_attachRecord (s : Side) (p : ObjectId) (r : RepairRecord) :
    (s.attachRecord p r).state = { s with heap := (s.attachRecord p r).state.heap } := by
  unfold attachRecord
  split
  · rfl
  · dsimp only
    split <;> rfl

theorem rest_attachRecords (s : Side) (l : List (ObjectId × RepairRecord)) :
    (s.attachRecords l).state = { s with heap := (s.attachRecords l).state.heap } := by
  induction l generalizing s with
  | nil => rfl
  | cons e l ih =>
      have first := s.rest_attachRecord e.1 e.2
      rw [attachRecords]
      split
      · exact first
      · rw [ih, first]

end Side

end TwinHeap
