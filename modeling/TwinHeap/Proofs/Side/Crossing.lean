import TwinHeap.Proofs.Side.Ownership

/-! What a value does to the two sides when it crosses. Apart from an object that is exported, it
only mends slots. -/
namespace TwinHeap.Side

variable {s : Side} {k : ExportKey} {o p : ObjectId} {v : Value}

/-- The records that are applied when a value leaves or comes home clash. -/
def Clashes (s : Side) (ps : List ObjectId) (f : Fault) : Prop := s.planRepair ps = .error f

theorem mends_handBack (s : Side) (p : ObjectId) : s.Mends (s.handBack p).state := by
  unfold handBack
  split
  · exact .refl s
  · rcases s.repairProxy_cases p with ⟨f, -, -, same⟩ | ⟨-, repairs⟩
    · dsimp only
      rw [same]
      exact .refl s
    · exact repairs.mends

theorem handBack_eq_ok {k : ImportKey} (answered : (s.handBack p).answer = .ok k) :
    s.remoteKey? p = some k := by
  unfold handBack at answered
  split at answered
  · cases answered
  · rename_i j key
    dsimp only at answered
    cases repaired : (s.repairProxy p).answer with
    | error f =>
        rw [repaired] at answered
        cases answered
    | ok n =>
        rw [repaired] at answered
        cases answered
        exact key

theorem handBack_eq_error {f : Fault} (refused : (s.handBack p).answer = .error f) :
    s.Clashes [p] f ∨ ∃ cause, f = .handle cause := by
  unfold handBack at refused
  split at refused
  · cases refused
    exact .inr ⟨_, rfl⟩
  · dsimp only at refused
    rcases s.repairProxy_cases p with ⟨g, clash, answer, -⟩ | ⟨⟨n, answer⟩, -⟩
    · rw [answer] at refused
      cases refused
      exact .inl clash
    · rw [answer] at refused
      cases refused

/-- A value that leaves a side mends slots, unless it is an object that gets one. -/
theorem encode_cases (s : Side) (ordered : s.exports.Ordered) (v : Value) :
    (s.Mends (s.encode v).state ∧ ∀ k, (s.encode v).answer ≠ .ok (.exported k)) ∨
    ∃ o k exports, v = .ref o ∧ s.heap.proxy? o = none ∧ s.heap.isAlive o = true ∧
      (s.exports.share o).answer = .ok k ∧ (s.encode v).answer = .ok (.exported k) ∧
      (s.encode v).state = { s with exports } ∧ exports = (s.exports.share o).state ∧
      s.exports.Fills k o exports := by
  cases v with
  | nil => exact .inl ⟨.refl s, fun k e => nomatch e⟩
  | int n => exact .inl ⟨.refl s, fun k e => nomatch e⟩
  | ref o =>
      unfold encode
      dsimp only
      by_cases isProxy : (s.heap.proxy? o).isSome = true
      · simp only [if_pos isProxy]
        refine .inl ⟨s.mends_handBack o, fun k e => ?_⟩
        cases answer : (s.handBack o).answer with
        | error f =>
            rw [answer] at e
            cases e
        | ok j =>
            rw [answer] at e
            cases e
      · simp only [if_neg isProxy, share]
        by_cases alive : s.heap.isAlive o = true
        · simp only [if_pos alive]
          cases answer : (s.exports.share o).answer with
          | error f =>
              have spends := Exports.spends_of_share_error answer
              refine .inl ⟨mends_of_spends spends.1, fun k e => ?_⟩
              simp only [Outcome.into, answer] at e
              cases e
          | ok k =>
              have fills := Exports.fills_share ordered answer
              refine .inr ⟨o, k, _, rfl, Option.not_isSome_iff_eq_none.1 isProxy, alive, answer, ?_,
                rfl, rfl, fills.1⟩
              simp only [Outcome.into, answer]
              rfl
        · simp only [if_neg alive]
          exact .inl ⟨.refl s, fun k e => nomatch e⟩

/-- What a value that is not exported travels as. -/
theorem encode_eq_ok {parcel : Parcel} (answered : (s.encode v).answer = .ok parcel) :
    (∃ k, parcel = .exported k) ∨ v = .nil ∧ parcel = .nil ∨ (∃ n, v = .int n ∧ parcel = .int n) ∨
      ∃ p k, v = .ref p ∧ s.remoteKey? p = some k ∧ parcel = .returned k := by
  cases v with
  | nil =>
      cases answered
      exact .inr (.inl ⟨rfl, rfl⟩)
  | int n =>
      cases answered
      exact .inr (.inr (.inl ⟨n, rfl, rfl⟩))
  | ref o =>
      unfold encode at answered
      dsimp only at answered
      split at answered
      · cases answer : (s.handBack o).answer with
        | error f =>
            rw [answer] at answered
            cases answered
        | ok j =>
            rw [answer] at answered
            cases answered
            exact .inr (.inr (.inr ⟨o, j, rfl, handBack_eq_ok answer, rfl⟩))
      · cases answer : (s.share o).answer with
        | error f =>
            rw [answer] at answered
            cases answered
        | ok j =>
            rw [answer] at answered
            cases answered
            exact .inl ⟨j, rfl⟩

theorem encode_eq_error {f : Fault} (refused : (s.encode v).answer = .error f) :
    (∃ p, s.Clashes [p] f) ∨ (∃ cause, f = .handle cause) ∨ ∃ n, f = .slotNumber n := by
  cases v with
  | nil => cases refused
  | int n => cases refused
  | ref o =>
      unfold encode at refused
      dsimp only at refused
      split at refused
      · cases answer : (s.handBack o).answer with
        | ok j =>
            rw [answer] at refused
            cases refused
        | error g =>
            rw [answer] at refused
            cases refused
            rcases handBack_eq_error answer with clash | handle
            · exact .inl ⟨o, clash⟩
            · exact .inr (.inl handle)
      · unfold share at refused
        split at refused
        · cases answer : (s.exports.share o).answer with
          | ok j =>
              simp only [Outcome.into, answer] at refused
              cases refused
          | error g =>
              simp only [Outcome.into, answer] at refused
              cases refused
              exact .inr (.inr (Exports.spends_of_share_error answer).2)
        · cases refused
          exact .inr (.inl ⟨_, rfl⟩)

theorem mends_recover (s : Side) (ordered : s.exports.Ordered) (k : ExportKey) :
    s.Mends (s.recover k).state := by
  unfold recover
  split
  · dsimp only
    rcases s.exports.reinstate_cases k with ⟨none, -⟩ | ⟨o, t, some, noted, detached, spends, state⟩
    · rw [none]
      rcases s.repairAll_cases with ⟨f, -, -, same⟩ | ⟨-, repairs, -⟩
      · dsimp only
        rw [same]
        exact .refl s
      · exact repairs.mends
    · rw [some]
      dsimp only
      rw [state]
      exact mends_of_fills (Exports.fills_restore ordered spends.toSpends detached o)
        (.inr ⟨detached, noted⟩)
  · exact .refl s

theorem recover_eq_error {f : Fault} (refused : (s.recover k).answer = .error f) :
    s.Clashes s.liveProxies f := by
  unfold recover at refused
  split at refused
  · dsimp only at refused
    split at refused
    · cases refused
    · rcases s.repairAll_cases with ⟨g, clash, answer, -⟩ | ⟨⟨n, answer⟩, -⟩
      · simp only [answer] at refused
        cases refused
        exact clash
      · simp only [answer] at refused
        cases refused
  · cases refused

/-- A parcel that arrives mends slots, unless it asks for a proxy. -/
theorem mends_decode (s : Side) (ordered : s.exports.Ordered) {parcel : Parcel}
    (other : ∀ k, parcel ≠ .exported k) : s.Mends (s.decode parcel).state := by
  cases parcel with
  | nil => exact .refl s
  | int n => exact .refl s
  | exported k => exact (other k rfl).elim
  | returned k => exact s.mends_recover ordered k.across

/-- What arrives for an exported object is the proxy for its slot. -/
theorem decode_exported_eq_ok {k : ExportKey}
    (answered : (s.decode (.exported k)).answer = .ok (.ref p)) :
    (s.proxyFor k.across).answer = .ok p := by
  cases made : (s.proxyFor k.across).answer with
  | error f =>
      simp only [decode, made] at answered
      cases answered
  | ok x =>
      simp only [decode, made] at answered
      cases answered
      rfl

theorem decode_returned_eq_ok {k : ImportKey} (answered : (s.decode (.returned k)).answer = .ok v) :
    ∃ o, (s.decode (.returned k)).state.exports.object? k.across = some o ∧ v = .ref o := by
  unfold decode at answered ⊢
  dsimp only at answered ⊢
  split at answered
  · cases answered
  · split at answered
    · rename_i o holds
      cases answered
      exact ⟨o, holds, rfl⟩
    · cases answered

/-- A slot that has an object once it is made usable comes home as that object. -/
theorem answer_decode_of_object {k : ImportKey} {x : ObjectId}
    (done : (s.recover k.across).answer = .ok ())
    (holds : (s.recover k.across).state.exports.object? k.across = some x) :
    (s.decode (.returned k)).answer = .ok (.ref x) := by
  unfold decode
  dsimp only
  rw [done]
  dsimp only
  rw [holds]

/-- A live slot that comes home answers with its object. -/
theorem answer_decode_of_live {k : ImportKey} {x : ObjectId}
    (live : s.exports.entry? k.across = some (.live x)) :
    (s.decode (.returned k)).answer = .ok (.ref x) := by
  have idle : s.recover k.across = { state := s, answer := .ok () } := by
    unfold recover
    rw [if_neg]
    rw [live]
    intro same
    cases same
  exact answer_decode_of_object (by rw [idle]) (by rw [idle]; exact Exports.object?_eq_some_iff.2 live)

theorem decode_eq_error {parcel : Parcel} {f : Fault} (refused : (s.decode parcel).answer = .error f) :
    s.Clashes s.liveProxies f ∨ (∃ cause, f = .handle cause) ∨ f = Heap.noRoom := by
  cases parcel with
  | nil => cases refused
  | int n => cases refused
  | exported k =>
      rcases s.imports.proxyFor_cases s.heap k.across with ⟨p, -, -, answer, -⟩ | ⟨-, -, answer, -⟩ |
          ⟨-, -, answer, -⟩
      all_goals simp only [decode, proxyFor, Outcome.into, answer] at refused
      · cases refused
      · cases refused
      · cases refused
        exact .inr (.inr rfl)
  | returned k =>
      unfold decode at refused
      dsimp only at refused
      split at refused
      · rename_i g answer
        cases refused
        exact .inl (recover_eq_error answer)
      · split at refused
        · cases refused
        · cases refused
          exact .inr (.inl ⟨_, rfl⟩)

end TwinHeap.Side
