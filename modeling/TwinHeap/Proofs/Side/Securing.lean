import TwinHeap.Proofs.Side.Anchoring
import TwinHeap.Proofs.Side.Pending

/-! What keeps the object of a severed slot until it comes back. The record of a proxy holds the object
and names its slot, the notes name the slot too, and in the end the slot has the object again. Whatever
uses up one of the three fills the slot. -/
namespace TwinHeap

namespace Heap

variable {h h' : Heap} {p x : ObjectId} {k : ExportKey} {q : Proxy}

theorem RecordOf.of_proxy? (recorded : h.RecordOf p k x) (same : h'.proxy? p = h.proxy? p) :
    h'.RecordOf p k x := by
  obtain ⟨q, r, proxy, rest⟩ := recorded
  exact ⟨q, r, same.trans proxy, rest⟩

theorem proxy?_place_of_proxy? (hw : h.WellFormed) (o : Object) (proxy : h.proxy? p = some q) :
    (h.place o).2.proxy? p = some q := by
  rw [Heap.proxy?, get?_place o hw, if_neg]
  · exact proxy
  · rintro rfl
    exact not_known_place o hw (known_of_isAlive (isAlive_of_proxy? proxy))

/-- A program does not write to proxies. -/
theorem proxy?_mutate_of_proxy? (hw : h.WellFormed) (m : Mutation) (proxy : h.proxy? p = some q) :
    (h.mutate m).proxy? p = some q := by
  rcases h.mutate_cases m with ⟨cells, -⟩ | ⟨o, -, e⟩ | ⟨id, o, new, found, plain, -, e⟩
  · rw [Heap.proxy?, get?_of_cells_eq cells]
    exact proxy
  · rw [e]
    exact proxy?_place_of_proxy? hw o proxy
  · rw [e, Heap.proxy?, get?_put found, if_neg]
    · exact proxy
    · rintro rfl
      rw [Heap.proxy?, found] at proxy
      cases plain.symm.trans proxy

theorem RecordOf.mutate (recorded : h.RecordOf p k x) (hw : h.WellFormed) (m : Mutation) :
    (h.mutate m).RecordOf p k x := by
  obtain ⟨q, r, proxy, rest⟩ := recorded
  exact ⟨q, r, proxy?_mutate_of_proxy? hw m proxy, rest⟩

end Heap

namespace Side

variable {s s' : Side} {p o x : ObjectId} {k : ExportKey}

theorem recordOf_proxyFor (hw : s.heap.WellFormed) (n : ImportKey)
    (recorded : s.heap.RecordOf p k x) : (s.proxyFor n).state.heap.RecordOf p k x := by
  obtain ⟨q, r, proxy, rest⟩ := recorded
  refine ⟨q, r, ?_, rest⟩
  rcases s.imports.proxyFor_cases s.heap n with ⟨-, -, -, -, state⟩ |
      ⟨-, -, -, state⟩ | ⟨-, -, -, state⟩
  · simpa only [proxyFor, Outcome.into, state] using proxy
  · simpa only [proxyFor, Outcome.into, state] using
      Heap.proxy?_place_of_proxy? hw (.proxy n) proxy
  · simpa only [proxyFor, Outcome.into, state] using proxy

/-- Each slot that a record names belongs to the object that it names. -/
def Backed (s : Side) : Prop := ∀ k x, s.Recorded k x → s.Owns k x

theorem Backed.kept (backed : s.Backed) : s.Kept :=
  fun k x _ recorded live =>
    (backed k x recorded).eq_of_object? (Exports.object?_eq_some_iff.2 live)

theorem Backed.next (backed : s.Backed) (recorded : ∀ k x, s'.Recorded k x → s.Recorded k x)
    (owns : ∀ k x, s.Owns k x → s'.Owns k x) : s'.Backed :=
  fun k x named => owns k x (backed k x (recorded k x named))

/-- All that a side which severed the slot of `o` needs to give it back, while the proxy `p` lives. -/
structure Secured (s : Side) (p : ObjectId) (k : ExportKey) (o : ObjectId) : Prop where
  sound : s.Sound
  exclusive : s.Exclusive
  backed : s.Backed
  remembers : s.Remembers k o
  recorded : s.exports.entry? k = some .detached → s.heap.RecordOf p k o
  alive : s.heap.isAlive o = true

namespace Secured

theorem of_aged {h : Heap} (secured : s.Secured p k o) (aged : s.heap.Aged h)
    (recorded : s.heap.RecordOf p k o → h.RecordOf p k o) (alive : h.isAlive o = true) :
    Secured { s with heap := h } p k o where
  sound := sound_of_aged aged secured.sound
  exclusive := exclusive_of_aged aged secured.exclusive
  backed := secured.backed.next (recorded_of_aged aged) fun _ _ owns => owns_of_aged aged owns
  remembers := secured.remembers.of_aged aged
  recorded := fun detached => recorded (secured.recorded detached)
  alive := alive

theorem mutate (secured : s.Secured p k o) (m : Mutation) :
    Secured { s with heap := s.heap.mutate m } p k o :=
  have hw := secured.sound.heap
  secured.of_aged (Heap.aged_mutate hw m) (fun recorded => recorded.mutate hw m)
    (Heap.isAlive_mutate hw m secured.alive)

/-- The object is held by its slot, or by the record of the proxy. -/
theorem nativeCollect (secured : s.Secured p k o)
    (still : s.nativeCollect.state.heap.isAlive p = true) : s.nativeCollect.state.Secured p k o := by
  have held : s.Held p := isAlive_nativeCollect.1 still
  refine secured.of_aged (aged_nativeCollect secured.sound) (recordOf_nativeCollect held).2
    (isAlive_nativeCollect.2 ?_)
  rcases secured.remembers.entry with live | ⟨detached, -⟩
  · exact held_of_live live secured.alive
  · exact held.child (Heap.mem_children_of_recordOf (secured.recorded detached)) secured.alive

theorem repairs {ps : List ObjectId} (secured : s.Secured p k o) (repairs : s.Repairs ps s')
    (exclusive : s'.Exclusive)
    (note : s'.exports.entry? k = some .detached → s'.exports.note? o = s.exports.note? o) :
    s'.Secured p k o where
  sound := repairs.mends.sound secured.sound
  exclusive := exclusive
  backed := secured.backed.next repairs.mends.recorded fun _ _ => repairs.mends.owns
  remembers := ⟨repairs.mends.owns secured.remembers.owns, fun detached =>
    (note detached).trans (secured.remembers.noted (repairs.mends.detached detached))⟩
  recorded := fun detached => by
    have named := secured.recorded (repairs.mends.detached detached)
    have unlisted : p ∉ ps := by
      intro listed
      rcases repairs.entry k with ⟨x, -, -, live⟩ | ⟨-, unnamed⟩
      · cases detached.symm.trans live
      · exact unnamed o (repairs.mends.detached detached) ⟨p, listed, named⟩
    exact named.of_proxy? ((repairs.proxy p).trans (if_neg unlisted))
  alive := (repairs.heap.isAlive o).trans secured.alive

theorem repairProxy (secured : s.Secured p k o) (x : ObjectId) :
    (s.repairProxy x).state.Secured p k o := by
  rcases s.repairProxy_cases x with ⟨f, -, -, same⟩ | ⟨-, repairs⟩
  · exact same.symm ▸ secured
  · exact secured.repairs repairs (exclusive_repairProxy secured.exclusive x)
      fun _ => note?_repairProxy s x

theorem repairAll (secured : s.Secured p k o) : s.repairAll.state.Secured p k o := by
  rcases s.repairAll_cases with ⟨f, -, -, same⟩ | ⟨-, repairs, -⟩
  · exact same.symm ▸ secured
  · refine secured.repairs repairs (exclusive_repairAll secured.sound secured.exclusive) ?_
    intro detached
    have before := repairs.mends.detached detached
    have live := repairs.live_of_recorded secured.sound ⟨p, secured.recorded before⟩ (.inr before)
    cases detached.symm.trans live

theorem handBack (secured : s.Secured p k o) (x : ObjectId) :
    (s.handBack x).state.Secured p k o := by
  unfold Side.handBack
  split
  · exact secured
  · exact secured.repairProxy x

/-- Slots that are filled from the notes, or that were not in use, are no slots of other objects. -/
theorem of_tables {exports : Exports} (secured : s.Secured p k o)
    (sound : Sound { s with exports }) (exclusive : Exclusive { s with exports })
    (owns : ∀ n y, s.Owns n y → Owns { s with exports } n y)
    (remembers : Remembers { s with exports } k o)
    (detached : exports.entry? k = some .detached → s.exports.entry? k = some .detached) :
    Secured { s with exports } p k o where
  sound := sound
  exclusive := exclusive
  backed := secured.backed.next (fun _ _ => id) owns
  remembers := remembers
  recorded := fun now => secured.recorded (detached now)
  alive := secured.alive

theorem share (secured : s.Secured p k o) (x : ObjectId) : (s.share x).state.Secured p k o := by
  have exclusive := exclusive_share secured.sound secured.exclusive x
  have remembers := secured.remembers.share secured.sound secured.exclusive x
  unfold Side.share at exclusive remembers ⊢
  split
  · rename_i alive
    rw [if_pos alive] at exclusive remembers
    cases answer : (s.exports.share x).answer with
    | error f =>
        have mends := mends_of_spends (Exports.spends_of_share_error answer).1
        exact secured.of_tables (mends.sound secured.sound) exclusive (fun _ _ => mends.owns)
          remembers mends.detached
    | ok j =>
        obtain ⟨fills, source⟩ := Exports.fills_share secured.sound.ordered answer
        refine secured.of_tables (sound_of_fills fills secured.sound) exclusive
          (fun _ _ => owns_of_fills fills source) remembers fun detached => ?_
        have entry := (fills.entry k).symm.trans detached
        split at entry
        · cases entry
        · exact entry
  · exact secured

theorem encode (secured : s.Secured p k o) (v : Value) : (s.encode v).state.Secured p k o := by
  cases v with
  | nil => exact secured
  | int n => exact secured
  | ref x =>
      unfold Side.encode
      dsimp only
      split
      · exact secured.handBack x
      · exact secured.share x

theorem proxyFor (secured : s.Secured p k o) (n : ImportKey) :
    (s.proxyFor n).state.Secured p k o := by
  have receives := s.receives_proxyFor n
  have hw := secured.sound.heap
  exact
    { sound := receives.sound secured.sound
      exclusive := receives.exclusive hw secured.exclusive
      backed := secured.backed.next (receives.recorded hw) fun _ _ => receives.owns hw
      remembers := secured.remembers.receive receives secured.sound
      recorded := fun detached =>
        recordOf_proxyFor hw n (secured.recorded (receives.exports ▸ detached))
      alive := isAlive_proxyFor hw n secured.alive }

/-- A slot that comes home without a note makes the side apply all records, the one of `p` among them. -/
theorem recover (secured : s.Secured p k o) (i : ExportKey) :
    (s.recover i).state.Secured p k o := by
  have remembers : (s.recover i).state.Remembers k o := by
    rcases secured.remembers.recover secured.sound i with ⟨closes, -⟩ | ⟨-, kept⟩
    · exact (closes.unrecorded o ⟨p, secured.recorded closes.severed⟩).elim
    · exact kept
  have mends := s.mends_recover secured.sound.ordered i
  unfold Side.recover at remembers mends ⊢
  split
  · rename_i home
    rw [if_pos home] at remembers mends
    dsimp only at remembers mends ⊢
    cases answer : (s.exports.reinstate i).answer with
    | some y =>
        rw [answer] at remembers mends
        exact secured.of_tables (mends.sound secured.sound)
          (Exports.exclusive_reinstate secured.exclusive i) (fun _ _ => mends.owns) remembers
          mends.detached
    | none => exact secured.repairAll
  · exact secured

theorem decode (secured : s.Secured p k o) (parcel : Parcel) :
    (s.decode parcel).state.Secured p k o := by
  cases parcel with
  | nil => exact secured
  | int n => exact secured
  | exported n => exact secured.proxyFor n.across
  | returned i => exact secured.recover i.across

/-- A repair of all records succeeds and leaves the slot with its object. -/
theorem repairAll_spec (secured : s.Secured p k o) :
    (∃ n, s.repairAll.answer = .ok n) ∧
      s.repairAll.state.exports.entry? k = some (.live o) := by
  rcases s.repairAll_cases with ⟨f, clash, -⟩ | ⟨done, repairs, -⟩
  · obtain ⟨plan, planned⟩ := planRepair_of_kept secured.sound secured.backed.kept s.liveProxies
    cases clash.symm.trans planned
  · refine ⟨done, ?_⟩
    rcases secured.remembers.entry with live | ⟨detached, -⟩
    · exact repairs.live live
    · exact repairs.live_of_recorded secured.sound ⟨p, secured.recorded detached⟩ (.inr detached)

end Secured

section Collect

variable {m : Manager} {repair : RepairPlan}

/-- What a run puts into a record is secured by it. -/
theorem secured_carryOut {g : IncomingGraph} (sound : s.Sound) (exclusive : s.Exclusive)
    (anchored : s.Anchored) (planned : s.planRepair s.liveProxies = .ok repair)
    (received : (m.carryOut s g (.of s g repair)).state.2.heap.RecordOf p k o) :
    (m.carryOut s g (.of s g repair)).state.2.Secured p k o := by
  have fits := Manager.fits_repaired (g := g) sound.ordered planned
  have manages := (Manager.manages_carryOut m (g := g) sound planned).2
  have soundNext := manages.sound sound
  have anchoredNext := Manages.anchored manages sound anchored
  have exclusiveNext := exclusive_carryOut (g := g) sound exclusive m planned
  have noted := note?_carryOut (g := g) (k := k) (x := o) m sound exclusive planned
  obtain ⟨-, after, repairs, cut, state⟩ :=
    Manager.cut_carryOut m (g := g) sound.enlisted sound.ordered planned
  have severed := cut.severed (repairs.unrecorded sound.enlisted)
  rw [state] at received noted anchoredNext exclusiveNext soundNext ⊢
  have backed : Backed { after with exports := after.exports.override } := by
    intro n y recorded
    have live := Exports.object?_eq_some_iff.1 (severed.named (.inr recorded))
    exact (Manager.Manages.mends_override after).owns (severed.owns (.inl live))
  refine ⟨soundNext, exclusiveNext, backed, ⟨backed k o ⟨p, received⟩, fun detached => ?_⟩,
    fun _ => received, anchoredNext.recorded k o ⟨p, received⟩⟩
  have holds := ((severed.record p k o).1 received).2.1
  have entry := (severed.entry k).symm.trans detached
  split at entry
  · rename_i both
    exact noted ((fits.unlink k o).2 ⟨both.1, holds⟩)
  · cases (Exports.object?_eq_some_iff.1 holds).symm.trans entry

theorem secured_collect {g : EdgeGraph} {report : ManagerReport} (sound : s.Sound)
    (exclusive : s.Exclusive) (anchored : s.Anchored) (accepted : (m.collect s g).answer = .ok report)
    (received : (m.collect s g).state.2.heap.RecordOf p k o) :
    (m.collect s g).state.2.Secured p k o := by
  unfold Manager.collect at accepted received ⊢
  cases fits : IncomingGraph.ofGraph g s with
  | error f =>
      rw [fits] at accepted
      cases accepted
  | ok incoming =>
      rw [fits] at accepted received
      cases planned : s.planRepair s.liveProxies with
      | error f =>
          rw [planned] at accepted
          cases accepted
      | ok repair =>
          rw [planned] at received
          exact secured_carryOut sound exclusive anchored planned received

end Collect

end Side

end TwinHeap
