import TwinHeap.Proofs.Heap.Marks
import TwinHeap.Proofs.Side.Severing

/-! Whose a slot is. A detached slot has lost its object, but the notes of the last unlinking and the
records of the proxies still say which one it was, and they never disagree. -/
namespace TwinHeap.Side

/-- A note or a record names the slot with the object. -/
def Named (s : Side) (k : ExportKey) (x : ObjectId) : Prop :=
  s.exports.note? x = some k ∨ s.Recorded k x

/-- The slot holds the object, or no other object can come back to it. -/
def Owns (s : Side) (k : ExportKey) (o : ObjectId) : Prop :=
  s.exports.entry? k = some (.live o) ∨
    s.exports.entry? k = some .detached ∧ ∀ x, s.Named k x → x = o

/-- What holds of each side by itself. -/
structure Sound (s : Side) : Prop where
  heap : s.heap.WellFormed
  ordered : s.exports.Ordered
  listed : ∀ p q, s.heap.proxy? p = some q → s.imports.entry? q.key = some (.weak p)
  agreed : ∀ k x y, s.exports.entry? k = some .detached → s.Named k x → s.Named k y → x = y

/-- Which slots are in use is the same, and so are the proxies. -/
structure Steady (s s' : Side) : Prop where
  imports : s'.imports = s.imports
  size : s'.exports.size = s.exports.size
  used : ∀ k, s'.exports.Used k ↔ s.exports.Used k

/-- Detached slots may be filled with objects that were named for them. -/
structure Mends (s s' : Side) : Prop where
  heap : s.heap.Recast s'.heap
  record : ∀ p r q, s'.heap.proxy? p = some q → q.record = some r →
    ∃ q', s.heap.proxy? p = some q' ∧ q'.record = some r
  imports : s'.imports = s.imports
  entry : ∀ k, s'.exports.entry? k = s.exports.entry? k ∨
    s.exports.entry? k = some .detached ∧
      ∃ x, s.Named k x ∧ s'.exports.entry? k = some (.live x)
  note : ∀ x k, s'.exports.note? x = some k → s.exports.note? x = some k
  ordered : s.exports.Ordered → s'.exports.Ordered
  size : s.exports.Ordered → s'.exports.size = s.exports.size

variable {s s' s'' : Side} {k : ExportKey} {o x : ObjectId}

theorem Owns.used (owns : s.Owns k o) : s.exports.Used k := by
  rcases owns with live | ⟨detached, -⟩
  · exact .inr ⟨o, live⟩
  · exact .inl detached

theorem Owns.eq_of_object? (owns : s.Owns k o) (holds : s.exports.object? k = some x) : x = o := by
  have live := Exports.object?_eq_some_iff.1 holds
  rcases owns with same | ⟨detached, -⟩
  · rw [same] at live
    cases live
    rfl
  · rw [detached] at live
    cases live

namespace Steady

theorem trans (first : s.Steady s') (next : s'.Steady s'') : s.Steady s'' :=
  ⟨next.imports.trans first.imports, next.size.trans first.size,
    fun k => (next.used k).trans (first.used k)⟩

end Steady

namespace Mends

theorem refl (s : Side) : s.Mends s where
  heap := .refl s.heap
  record := fun _ _ q proxy record => ⟨q, proxy, record⟩
  imports := rfl
  entry := fun _ => .inl rfl
  note := fun _ _ noted => noted
  ordered := fun ordered => ordered
  size := fun _ => rfl

theorem recordOf (mends : s.Mends s') {p : ObjectId} (named : s'.heap.RecordOf p k x) :
    s.heap.RecordOf p k x := by
  obtain ⟨q, r, proxy, record, member⟩ := named
  obtain ⟨q', proxy', record'⟩ := mends.record p r q proxy record
  exact ⟨q', r, proxy', record', member⟩

theorem named (mends : s.Mends s') (named : s'.Named k x) : s.Named k x := by
  rcases named with noted | ⟨p, recorded⟩
  · exact .inl (mends.note x k noted)
  · exact .inr ⟨p, mends.recordOf recorded⟩

theorem detached (mends : s.Mends s') (detached : s'.exports.entry? k = some .detached) :
    s.exports.entry? k = some .detached := by
  rcases mends.entry k with same | ⟨detached, -⟩
  · exact same ▸ detached
  · exact detached

theorem steady (mends : s.Mends s') (ordered : s.exports.Ordered) : s.Steady s' where
  imports := mends.imports
  size := mends.size ordered
  used := fun k => by
    rcases mends.entry k with same | ⟨detached, x, -, live⟩
    · simp only [Exports.Used, same]
    · simp [Exports.Used, detached, live]

theorem owns (mends : s.Mends s') (owns : s.Owns k o) : s'.Owns k o := by
  rcases owns with live | ⟨detached, only⟩
  · rcases mends.entry k with same | ⟨detached, -⟩
    · exact .inl (same.trans live)
    · rw [live] at detached
      cases detached
  · rcases mends.entry k with same | ⟨-, x, named, live⟩
    · exact .inr ⟨same.trans detached, fun x named => only x (mends.named named)⟩
    · exact .inl (only x named ▸ live)

theorem sound (mends : s.Mends s') (sound : s.Sound) : s'.Sound where
  heap := mends.heap.wellFormed sound.heap
  ordered := mends.ordered sound.ordered
  listed := fun p q proxy => by
    have key := mends.heap.key p
    rw [proxy] at key
    obtain ⟨q', proxy', same⟩ := Option.map_eq_some_iff.1 key.symm
    rw [mends.imports, ← same]
    exact sound.listed p q' proxy'
  agreed := fun k x y detached hx hy =>
    sound.agreed k x y (mends.detached detached) (mends.named hx) (mends.named hy)

theorem unrecorded (mends : s.Mends s') (bare : s.Unrecorded) : s'.Unrecorded := by
  intro p q proxy
  cases record : q.record with
  | none => rfl
  | some r =>
      obtain ⟨q', proxy', record'⟩ := mends.record p r q proxy record
      rw [bare p q' proxy'] at record'
      cases record'

end Mends

section Steps

theorem Repairs.mends {ps : List ObjectId} (repairs : s.Repairs ps s') : s.Mends s' where
  heap := repairs.heap
  record := fun p r q proxy record => by
    rw [repairs.proxy] at proxy
    split at proxy
    · obtain ⟨q', -, rfl⟩ := Option.map_eq_some_iff.1 proxy
      cases record
    · exact ⟨q, proxy, record⟩
  imports := repairs.imports
  entry := fun k => by
    rcases repairs.entry k with ⟨x, detached, named, live⟩ | ⟨same, -⟩
    · exact .inr ⟨detached, x, .inr (recorded_of_recordedBy named), live⟩
    · exact .inl same
  note := repairs.note
  ordered := fun ordered => (repairs.ordered ordered).1
  size := fun ordered => (repairs.ordered ordered).2

theorem mends_of_spends {exports : Exports} (spends : s.exports.Spends exports) :
    s.Mends { s with exports } where
  heap := .refl s.heap
  record := fun _ _ q proxy record => ⟨q, proxy, record⟩
  imports := rfl
  entry := fun k => .inl (spends.entry? k)
  note := spends.note
  ordered := spends.ordered
  size := fun _ => spends.size

/-- A slot is filled with the object that a note names for it. -/
theorem mends_of_fills {exports : Exports} (fills : s.exports.Fills k o exports)
    (source : s.exports.entry? k = some (.live o) ∨
      s.exports.entry? k = some .detached ∧ s.exports.note? o = some k) :
    s.Mends { s with exports } where
  heap := .refl s.heap
  record := fun _ _ q proxy record => ⟨q, proxy, record⟩
  imports := rfl
  entry := fun j => by
    have entry := fills.entry j
    split at entry
    · rename_i same
      subst same
      rcases source with live | ⟨detached, noted⟩
      · exact .inl (entry.trans live.symm)
      · exact .inr ⟨detached, o, .inl noted, entry⟩
    · exact .inl entry
  note := fills.note
  ordered := fun _ => fills.ordered
  size := fun _ => by
    have below : k.number < s.exports.size := by
      rcases source with live | ⟨detached, -⟩
      · exact Exports.lt_size_of_entry? live
      · exact Exports.lt_size_of_entry? detached
    have size := fills.size
    show exports.size = s.exports.size
    omega

theorem sound_of_fills {exports : Exports} (fills : s.exports.Fills k o exports) (sound : s.Sound) :
    Sound { s with exports } where
  heap := sound.heap
  ordered := fills.ordered
  listed := sound.listed
  agreed := fun n x y detached hx hy => by
    have before : ∀ {z}, Named { s with exports } n z → s.Named n z :=
      fun named => named.imp (fills.note _ n) id
    have entry := fills.entry n
    split at entry
    · cases entry.symm.trans detached
    · exact sound.agreed n x y (entry.symm.trans detached) (before hx) (before hy)

/-- A slot that belongs to an object is not given to another one. -/
theorem owns_of_fills {exports : Exports} (fills : s.exports.Fills k o exports)
    (source : s.exports.entry? k = some (.live o) ∨
      s.exports.entry? k = some .detached ∧ s.exports.note? o = some k ∨ ¬ s.exports.Used k)
    {n : ExportKey} (owns : s.Owns n x) : Owns { s with exports } n x := by
  rcases source with live | noted | vacant
  · exact (mends_of_fills fills (.inl live)).owns owns
  · exact (mends_of_fills fills (.inr noted)).owns owns
  · have apart : ¬ k = n := fun same => vacant (same ▸ owns.used)
    have entry := fills.entry n
    rw [if_neg apart] at entry
    rcases owns with live | ⟨detached, only⟩
    · exact .inl (entry.trans live)
    · exact .inr ⟨entry.trans detached, fun z named => only z (named.imp (fills.note z n) id)⟩

/-- A change of the heap that makes and alters no proxy. -/
theorem named_of_aged {h : Heap} (aged : s.heap.Aged h) (named : Named { s with heap := h } k x) :
    s.Named k x := by
  rcases named with noted | ⟨p, q, r, proxy, record, member⟩
  · exact .inl noted
  · exact .inr ⟨p, q, r, aged.proxy p q proxy, record, member⟩

theorem sound_of_aged {h : Heap} (aged : s.heap.Aged h) (sound : s.Sound) :
    Sound { s with heap := h } where
  heap := aged.wellFormed
  ordered := sound.ordered
  listed := fun p q proxy => sound.listed p q (aged.proxy p q proxy)
  agreed := fun k x y detached hx hy =>
    sound.agreed k x y detached (named_of_aged aged hx) (named_of_aged aged hy)

theorem owns_of_aged {h : Heap} (aged : s.heap.Aged h) (owns : s.Owns k o) :
    Owns { s with heap := h } k o := by
  rcases owns with live | ⟨detached, only⟩
  · exact .inl live
  · exact .inr ⟨detached, fun x named => only x (named_of_aged aged named)⟩

theorem unrecorded_of_aged {h : Heap} (aged : s.heap.Aged h) (bare : s.Unrecorded) :
    Unrecorded { s with heap := h } :=
  fun p q proxy => bare p q (aged.proxy p q proxy)

theorem aged_nativeCollect (sound : s.Sound) : s.heap.Aged s.nativeCollect.state.heap :=
  Heap.aged_sweep sound.heap _

theorem sound_nativeCollect (sound : s.Sound) : s.nativeCollect.state.Sound :=
  sound_of_aged (aged_nativeCollect sound) sound

theorem owns_nativeCollect (sound : s.Sound) (owns : s.Owns k o) : s.nativeCollect.state.Owns k o :=
  owns_of_aged (aged_nativeCollect sound) owns

theorem age_nativeCollect (s : Side) (slot : Nat) :
    s.nativeCollect.state.heap.age slot = s.heap.age slot ∨
      s.nativeCollect.state.heap.age slot = s.heap.age slot + 1 :=
  Heap.age_sweep _ slot

theorem steady_nativeCollect (s : Side) : s.Steady s.nativeCollect.state := ⟨rfl, rfl, fun _ => .rfl⟩

namespace Severed

variable {g : IncomingGraph}

theorem named (severed : s.Severed g s') (named : s'.Named k x) :
    s.exports.object? k = some x := by
  rcases named with noted | ⟨p, recorded⟩
  · exact (severed.note x k noted).2
  · exact ((severed.record p k x).1 recorded).2.1

theorem sound (severed : s.Severed g s') (sound : s.Sound) : s'.Sound where
  heap := severed.heap.wellFormed sound.heap
  ordered := (severed.ordered sound.ordered).1
  listed := fun p q proxy => by
    have key := severed.heap.key p
    rw [proxy] at key
    obtain ⟨q', proxy', same⟩ := Option.map_eq_some_iff.1 key.symm
    rw [severed.imports, ← same]
    exact sound.listed p q' proxy'
  agreed := fun k x y _ hx hy =>
    Option.some.inj ((severed.named hx).symm.trans (severed.named hy))

theorem steady (severed : s.Severed g s') (ordered : s.exports.Ordered) : s.Steady s' where
  imports := severed.imports
  size := (severed.ordered ordered).2
  used := fun k => by
    have entry := severed.entry k
    split at entry
    · rename_i both
      obtain ⟨x, holds⟩ := Option.isSome_iff_exists.1 both.2
      exact ⟨fun _ => Exports.used_of_object? holds, fun _ => .inl entry⟩
    · simp only [Exports.Used, entry]

theorem owns (severed : s.Severed g s') (owns : s.Owns k o) : s'.Owns k o := by
  have only : ∀ x, s'.Named k x → x = o := fun x named =>
    owns.eq_of_object? (severed.named named)
  have entry := severed.entry k
  split at entry
  · exact .inr ⟨entry, only⟩
  · rcases owns with live | ⟨detached, -⟩
    · exact .inl (entry.trans live)
    · exact .inr ⟨entry.trans detached, only⟩

/-- What a record names after a severing is there already, or the slot is free for it. -/
theorem recorded_entry (severed : s.Severed g s') (recorded : s'.Recorded k x) :
    s'.exports.entry? k = some (.live x) ∨ s'.exports.entry? k = some .detached := by
  obtain ⟨p, named⟩ := recorded
  have holds := ((severed.record p k x).1 named).2.1
  have entry := severed.entry k
  split at entry
  · exact .inr entry
  · exact .inl (entry.trans (Exports.object?_eq_some_iff.1 holds))

end Severed

end Steps

end TwinHeap.Side
