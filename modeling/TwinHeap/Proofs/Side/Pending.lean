import TwinHeap.Proofs.Side.Filing

/-! How long a side knows what a severed slot held. Until the next severing it knows it from the notes,
or from the records. The notes are dropped when a slot comes home that they do not mention: all records
are applied then, and a severed slot that is in none of them is lost. -/
namespace TwinHeap.Side

variable {s s' : Side} {i k : ExportKey} {o x : ObjectId}

/-- The slot holds the object, or the notes say that it lost it. -/
structure Remembers (s : Side) (k : ExportKey) (o : ObjectId) : Prop where
  owns : s.Owns k o
  noted : s.exports.entry? k = some .detached → s.exports.note? o = some k

/-- The slot is severed, and nothing says which object it held. -/
def Lost (s : Side) (k : ExportKey) : Prop :=
  s.exports.entry? k = some .detached ∧ ∀ x, ¬ s.Named k x

/-- A run notes what it severs. -/
theorem note?_carryOut {g : IncomingGraph} {repair : RepairPlan} (m : Manager) (sound : s.Sound)
    (exclusive : s.Exclusive) (planned : s.planRepair s.liveProxies = .ok repair)
    (member : (k, x) ∈ (CollectionPlan.of s g repair).unlink) :
    (m.carryOut s g (.of s g repair)).state.2.exports.note? x = some k := by
  have plans := plans_of_planRepair planned
  have repairs := (repairs_commitRepair plans).finish
  have fits := Manager.fits_repaired (g := g) sound.ordered planned
  have filed := Exports.filed_finishRepair (exclusive_commitRepair plans exclusive).filed
  have ok := (severed_sever (repairs.unrecorded sound.enlisted) fits).1
  have first : (CollectionPlan.of s g repair).repair = repair := rfl
  simp only [Manager.carryOut, first, ok]
  show Exports.note? (Manager.sever _ _).state.exports x = some k
  rw [exports_sever ok]
  exact (Exports.note?_unlink_iff fits.live filed).2 member

/-- The slot `i` comes home severed and without a note, which makes the side apply all its records.
The slot `k` is severed and in none of them. -/
structure Closes (s : Side) (i k : ExportKey) : Prop where
  home : s.exports.entry? i = some .detached
  unnoted : ∀ x, s.exports.note? x ≠ some i
  repaired : ∃ n, s.repairAll.answer = .ok n
  severed : s.exports.entry? k = some .detached
  unrecorded : ∀ x, ¬ s.Recorded k x

namespace Remembers

theorem of_live (live : s.exports.entry? k = some (.live o)) : s.Remembers k o where
  owns := .inl live
  noted := fun detached => by cases live.symm.trans detached

theorem of_mends (mends : s.Mends s') (kept : s'.exports.note? o = s.exports.note? o)
    (remembers : s.Remembers k o) : s'.Remembers k o where
  owns := mends.owns remembers.owns
  noted := fun detached => kept.trans (remembers.noted (mends.detached detached))

theorem entry (remembers : s.Remembers k o) : s.exports.entry? k = some (.live o) ∨
    s.exports.entry? k = some .detached ∧ s.exports.note? o = some k :=
  remembers.owns.imp_right fun ⟨detached, _⟩ => ⟨detached, remembers.noted detached⟩

/-- Only what the slot lost comes back to it. -/
theorem of_fills {exports : Exports} (fills : s.exports.Fills k x exports) (sound : s.Sound)
    (noted : s.exports.entry? k = some .detached ∧ s.exports.note? x = some k)
    (remembers : s.Remembers k o) : Remembers { s with exports } k o := by
  have mine := remembers.noted noted.1
  have same := sound.agreed k x o noted.1 (.inl noted.2) (.inl mine)
  subst same
  exact of_live ((fills.entry k).trans (if_pos rfl))

end Remembers

namespace Lost

theorem of_mends (mends : s.Mends s') (lost : s.Lost k) : s'.Lost k := by
  obtain ⟨detached, unnamed⟩ := lost
  refine ⟨?_, fun x named => unnamed x (mends.named named)⟩
  rcases mends.entry k with same | ⟨-, x, named, -⟩
  · exact same.trans detached
  · exact (unnamed x named).elim

end Lost

section Heap

variable {h : Heap}

theorem Remembers.of_aged (aged : s.heap.Aged h) (remembers : s.Remembers k o) :
    Remembers { s with heap := h } k o :=
  ⟨owns_of_aged aged remembers.owns, remembers.noted⟩

theorem Lost.of_aged (aged : s.heap.Aged h) (lost : s.Lost k) : Lost { s with heap := h } k :=
  ⟨lost.1, fun x named => lost.2 x (named_of_aged aged named)⟩

end Heap

section Tidied

variable {keys : List ExportKey}

theorem note?_tidied (sound : s.Sound) (keys : List ExportKey) (x : ObjectId) :
    (s.tidied keys).exports.note? x = s.exports.note? x := by
  have same := (Exports.ordered_releaseAll sound.ordered keys).2.2
  show Exports.note? (s.exports.releaseAll keys) x = _
  rw [Exports.note?, same, Exports.note?]

theorem Remembers.tidied (sound : s.Sound) (kept : k ∉ keys) (remembers : s.Remembers k o) :
    (s.tidied keys).Remembers k o where
  owns := owns_tidied sound kept remembers.owns
  noted := fun detached => by
    rw [entry?_tidied_of_not_mem kept] at detached
    exact (note?_tidied sound keys o).trans (remembers.noted detached)

theorem Lost.tidied (sound : s.Sound) (kept : k ∉ keys) (lost : s.Lost k) : (s.tidied keys).Lost k :=
  ⟨(entry?_tidied_of_not_mem kept).trans lost.1, fun x named => lost.2 x (named_tidied sound named)⟩

end Tidied

/-- What a side keeps that works by itself and does not release the slot. -/
structure Stays (k : ExportKey) (P : Side → Prop) : Prop where
  aged : ∀ s h, s.heap.Aged h → P s → P { s with heap := h }
  tidied : ∀ s keys, s.Sound → k ∉ keys → P s → P (s.tidied keys)

theorem stays_remembers (k : ExportKey) (o : ObjectId) : Stays k fun s => s.Remembers k o where
  aged := fun _ _ aged remembers => remembers.of_aged aged
  tidied := fun _ _ sound kept remembers => remembers.tidied sound kept

theorem stays_lost (k : ExportKey) : Stays k fun s => s.Lost k where
  aged := fun _ _ aged lost => lost.of_aged aged
  tidied := fun _ _ sound kept lost => lost.tidied sound kept

section Leave

theorem note?_repairProxy (s : Side) (p : ObjectId) :
    (s.repairProxy p).state.exports.note? x = s.exports.note? x := by
  unfold repairProxy
  split
  · rfl
  · rename_i plan planned
    have same : (s.exports.restoreAll plan.restores.entries).unlinked = s.exports.unlinked :=
      Exports.unlinked_restoreAll s.exports plan.restores.entries
    show Exports.note? (s.exports.restoreAll plan.restores.entries) x = _
    rw [Exports.note?, same, Exports.note?]

theorem note?_handBack (s : Side) (p : ObjectId) :
    (s.handBack p).state.exports.note? x = s.exports.note? x := by
  unfold handBack
  split
  · rfl
  · exact note?_repairProxy s p

theorem Remembers.share (sound : s.Sound) (exclusive : s.Exclusive) (remembers : s.Remembers k o)
    (x : ObjectId) : (s.share x).state.Remembers k o := by
  unfold Side.share
  split
  · show Remembers { s with exports := (s.exports.share x).state } k o
    -- The slot is given back if it is the one of `x`, and no other slot in use is touched.
    by_cases back : s.exports.entry? k = some .detached ∧ x = o
    · obtain ⟨detached, rfl⟩ := back
      have noted := remembers.noted detached
      have looked := (exclusive.returning k x detached (.inl noted)).1
      have fills := (Exports.fills_share sound.ordered
        (Exports.answer_share_of_noted looked noted detached)).1
      exact remembers.of_fills fills sound ⟨detached, noted⟩
    · cases answer : (s.exports.share x).answer with
      | error f =>
          have mends := mends_of_spends (Exports.spends_of_share_error answer).1
          refine ⟨mends.owns remembers.owns, fun detached => ?_⟩
          have before := mends.detached detached
          have differ : o ≠ x := fun same => back ⟨before, same.symm⟩
          exact (Exports.note?_share sound.ordered differ).trans (remembers.noted before)
      | ok j =>
          obtain ⟨fills, source⟩ := Exports.fills_share sound.ordered answer
          refine ⟨owns_of_fills fills source remembers.owns, fun detached => ?_⟩
          have before : s.exports.entry? k = some .detached := by
            have entry := (fills.entry k).symm.trans detached
            split at entry
            · cases entry
            · exact entry
          have differ : o ≠ x := fun same => back ⟨before, same.symm⟩
          exact (Exports.note?_share sound.ordered differ).trans (remembers.noted before)
  · exact remembers

theorem Lost.share (sound : s.Sound) (lost : s.Lost k) (x : ObjectId) : (s.share x).state.Lost k := by
  obtain ⟨detached, unnamed⟩ := lost
  unfold Side.share
  split
  · show Lost { s with exports := (s.exports.share x).state } k
    cases answer : (s.exports.share x).answer with
    | error f =>
        exact Lost.of_mends (mends_of_spends (Exports.spends_of_share_error answer).1)
          ⟨detached, unnamed⟩
    | ok j =>
        obtain ⟨fills, source⟩ := Exports.fills_share sound.ordered answer
        have apart : ¬ j = k := by
          rintro rfl
          rcases source with live | ⟨-, noted⟩ | vacant
          · cases live.symm.trans detached
          · exact unnamed x (.inl noted)
          · exact vacant (.inl detached)
        refine ⟨((fills.entry k).trans (if_neg apart)).trans detached, fun y named => ?_⟩
        exact unnamed y (named.imp (fills.note y k) id)
  · exact ⟨detached, unnamed⟩

theorem Remembers.encode (sound : s.Sound) (exclusive : s.Exclusive) (remembers : s.Remembers k o)
    (v : Value) : (s.encode v).state.Remembers k o := by
  cases v with
  | nil => exact remembers
  | int n => exact remembers
  | ref x =>
      unfold Side.encode
      dsimp only
      split
      · exact remembers.of_mends (s.mends_handBack x) (note?_handBack s x)
      · exact remembers.share sound exclusive x

theorem Lost.encode (sound : s.Sound) (lost : s.Lost k) (v : Value) : (s.encode v).state.Lost k := by
  cases v with
  | nil => exact lost
  | int n => exact lost
  | ref x =>
      unfold Side.encode
      dsimp only
      split
      · exact lost.of_mends (s.mends_handBack x)
      · exact lost.share sound x

end Leave

section Arrive

/-- A slot that comes home costs another one what the notes say of it, or nothing happens to it. -/
theorem Remembers.recover (sound : s.Sound) (remembers : s.Remembers k o) (i : ExportKey) :
    s.Closes i k ∧ (s.recover i).state.Lost k ∨ ¬ s.Closes i k ∧ (s.recover i).state.Remembers k o := by
  unfold Side.recover
  by_cases home : s.exports.entry? i = some .detached
  · rw [if_pos home]
    dsimp only
    cases answer : (s.exports.reinstate i).answer with
    | some y =>
        right
        obtain ⟨z, t, -, noted, -, forgets, state⟩ :=
          (s.exports.reinstate_cases i).resolve_left fun none => nomatch answer.symm.trans none.1
        have fills := Exports.fills_restore sound.ordered forgets.toSpends home z
        refine ⟨fun closes => closes.unnoted z noted, ?_⟩
        dsimp only
        rw [state]
        by_cases here : i = k
        · subst here
          exact remembers.of_fills fills sound ⟨home, noted⟩
        · refine ⟨(mends_of_fills fills (.inr ⟨home, noted⟩)).owns remembers.owns, fun detached => ?_⟩
          have before := (fills.entry k).symm.trans detached
          rw [if_neg here] at before
          have mine := remembers.noted before
          have differ : o ≠ z := fun same => here (Option.some.inj ((same ▸ noted).symm.trans mine))
          exact (forgets.others o differ).trans mine
    | none =>
        dsimp only
        rcases s.repairAll_cases with ⟨f, -, refused, same⟩ | ⟨done, repairs, spent⟩
        · right
          rw [same]
          refine ⟨fun closes => ?_, remembers⟩
          obtain ⟨n, done⟩ := closes.repaired
          cases refused.symm.trans done
        · rcases repairs.entry k with ⟨y, detached, named, live⟩ | ⟨same, unnamed⟩
          · right
            have recorded := recorded_of_recordedBy named
            have mine := sound.agreed k y o detached (.inr recorded) (.inl (remembers.noted detached))
            exact ⟨fun closes => closes.unrecorded y recorded, .of_live (mine ▸ live)⟩
          · rcases remembers.owns with live | ⟨detached, -⟩
            · right
              refine ⟨fun closes => ?_, .of_live (same.trans live)⟩
              cases live.symm.trans closes.severed
            · left
              have unrecorded : ∀ x, ¬ s.Recorded k x := fun x recorded =>
                unnamed x detached ((recordedBy_liveProxies sound.enlisted).2 recorded)
              have unnoted := Exports.note?_ne_of_reinstate home answer
              refine ⟨⟨home, unnoted, done, detached, unrecorded⟩, same.trans detached, ?_⟩
              rintro x (noted | recorded)
              · cases (spent x).symm.trans noted
              · obtain ⟨p, record⟩ := recorded
                exact (repairs.unrecorded sound.enlisted).not_recordOf record
  · rw [if_neg home]
    exact .inr ⟨fun closes => home closes.home, remembers⟩

theorem Remembers.receive {n : ImportKey} {made : Except Fault ObjectId}
    (receives : s.Receives n made s') (sound : s.Sound) (remembers : s.Remembers k o) : s'.Remembers k o where
  owns := receives.owns sound.heap remembers.owns
  noted := receives.exports ▸ remembers.noted

/-- What a parcel that arrives does to a slot. -/
theorem Remembers.decode (sound : s.Sound) (remembers : s.Remembers k o) (parcel : Parcel) :
    (∃ i, parcel = .returned i ∧ s.Closes i.across k) ∧ (s.decode parcel).state.Lost k ∨
    (∀ i, parcel = .returned i → ¬ s.Closes i.across k) ∧ (s.decode parcel).state.Remembers k o := by
  cases parcel with
  | nil => exact .inr ⟨fun i same => (nomatch same), remembers⟩
  | int n => exact .inr ⟨fun i same => (nomatch same), remembers⟩
  | exported n =>
      exact .inr ⟨fun i same => (nomatch same),
        remembers.receive (s.receives_proxyFor n.across) sound⟩
  | returned i =>
      rcases remembers.recover sound i.across with ⟨closes, lost⟩ | ⟨spared, kept⟩
      · exact .inl ⟨⟨i, rfl, closes⟩, lost⟩
      · refine .inr ⟨?_, kept⟩
        rintro j same
        cases same
        exact spared

theorem Lost.decode (sound : s.Sound) (lost : s.Lost k) (parcel : Parcel) :
    (s.decode parcel).state.Lost k := by
  cases parcel with
  | nil => exact lost
  | int n => exact lost
  | exported n =>
      have receives := s.receives_proxyFor n.across
      have same : (s.proxyFor n.across).state.exports = s.exports := receives.exports
      refine ⟨?_, fun x named => lost.2 x (receives.named sound.heap named)⟩
      show (s.proxyFor n.across).state.exports.entry? k = _
      rw [same]
      exact lost.1
  | returned i => exact lost.of_mends (s.mends_recover sound.ordered i.across)

end Arrive

section Answers

/-- A slot that is remembered comes home as its object. -/
theorem Remembers.answer_decode (sound : s.Sound) (remembers : s.Remembers k o) :
    (s.decode (.returned k.across)).answer = .ok (.ref o) := by
  rcases remembers.entry with live | ⟨detached, noted⟩
  · exact answer_decode_of_live live
  · rcases s.exports.reinstate_cases k with ⟨none, -⟩ | ⟨x, t, some, named, -, forgets, state⟩
    · exact (Exports.note?_ne_of_reinstate detached none o noted).elim
    · have mine := sound.agreed k x o detached (.inl named) (.inl noted)
      have fills := Exports.fills_restore sound.ordered forgets.toSpends detached x
      have done : (s.recover k).answer = .ok () := by
        simp only [Side.recover, if_pos detached, some]
      have back : (s.recover k).state.exports = t.restore k x := by
        simp only [Side.recover, if_pos detached, some, state]
      refine answer_decode_of_object (k := k.across) done ?_
      rw [ExportKey.across_across, back, mine]
      exact Exports.object?_eq_some_iff.2 (mine ▸ (fills.entry k).trans (if_pos rfl))

theorem Lost.answer_decode_ne (sound : s.Sound) (lost : s.Lost k) (v : Value) :
    (s.decode (.returned k.across)).answer ≠ .ok v := by
  intro answered
  obtain ⟨x, holds, -⟩ := decode_returned_eq_ok answered
  have still := (lost.decode sound (.returned k.across)).1
  cases still.symm.trans (Exports.object?_eq_some_iff.1 holds)

/-- An object that is remembered for a slot is shared as that slot. -/
theorem Remembers.answer_share (exclusive : s.Exclusive) (remembers : s.Remembers k o)
    (alive : s.heap.isAlive o = true) : (s.share o).answer = .ok k := by
  unfold Side.share
  rw [if_pos alive]
  rcases remembers.entry with live | ⟨detached, noted⟩
  · exact Exports.answer_share_of_live exclusive live
  · have looked := (exclusive.returning k o detached (.inl noted)).1
    exact Exports.answer_share_of_noted looked noted detached

theorem Lost.answer_share_ne (sound : s.Sound) (lost : s.Lost k) (o : ObjectId) :
    (s.share o).answer ≠ .ok k := by
  obtain ⟨detached, unnamed⟩ := lost
  unfold Side.share
  split
  · intro answered
    rcases (Exports.fills_share sound.ordered answered).2 with live | ⟨-, noted⟩ | vacant
    · cases live.symm.trans detached
    · exact unnamed o (.inl noted)
    · exact vacant (.inl detached)
  · intro answered
    cases answered

end Answers

end TwinHeap.Side
