import TwinHeap.Proofs.Bridge.Lasting
import TwinHeap.Proofs.Heap.RootEntries

/-! What a send does to the roots of the sides. The value is a root for a while, and nothing else is
touched; so the roots come out as they were if the entry for the value was vacant. -/
namespace TwinHeap

namespace Heap

variable {h h' : Heap}

/-- A root is added and removed again. -/
def pinned (h : Heap) (id : ObjectId) : Heap := (h.addRoot id).2.removeRoot (h.addRoot id).1

theorem KeepsRoots.rootIds (keeps : h.KeepsRoots h') : h'.rootIds = h.rootIds := by
  rw [Heap.rootIds, keeps.roots, Heap.rootIds]

theorem KeepsRoots.removeRoot (keeps : h.KeepsRoots h') (r : RootHandle) :
    (h.removeRoot r).KeepsRoots (h'.removeRoot r) := by
  unfold Heap.removeRoot
  rw [keeps.roots, keeps.free]
  split
  · exact keeps
  · dsimp only
    split
    · exact ⟨rfl, rfl, keeps.numbered⟩
    · exact ⟨rfl, rfl, keeps.numbered⟩

theorem filterMap_set_none (entries : List (Option ObjectId)) (n : Nat) :
    (entries.set n none).filterMap id = entries.filterMap id ↔ entries[n]?.join = none := by
  induction entries generalizing n with
  | nil => simp
  | cons entry entries ih =>
      cases n with
      | zero => cases entry <;> simp
      | succ n => cases entry <;> simpa using ih n

/-- Clearing an entry makes a difference to the roots exactly if it holds one. -/
theorem rootIds_clear_iff (h : Heap) (r : RootHandle) :
    (h.setRoot r none).rootIds = h.rootIds ↔ h.root? r = none := by
  unfold setRoot Heap.rootIds root?
  rw [Array.toList_setIfInBounds, ← Array.getElem?_toList]
  exact filterMap_set_none h.roots.toList r.number

theorem rootIds_removeRoot (h : Heap) (r : RootHandle) :
    (h.removeRoot r).rootIds = (h.setRoot r none).rootIds := by
  unfold removeRoot
  split
  · rename_i outside
    have vacant : h.root? r = none := by
      rw [root?, outside]
      rfl
    exact ((rootIds_clear_iff h r).2 vacant).symm
  · dsimp only
    split <;> rfl

/-- Rooting an object for a while costs the root that was in its entry. -/
theorem rootIds_pinned (h : Heap) (id : ObjectId) :
    (h.pinned id).rootIds = (h.setRoot (h.addRoot id).1 none).rootIds := by
  rw [pinned, rootIds_removeRoot]
  unfold addRoot setRoot Heap.rootIds
  split
  · simp
  · simp [List.set_eq_of_length_le]

theorem rootIds_pinned_iff (h : Heap) (id : ObjectId) :
    (h.pinned id).rootIds = h.rootIds ↔ h.root? (h.addRoot id).1 = none := by
  rw [rootIds_pinned, rootIds_clear_iff]

end Heap

namespace Bridge

variable {b b' b'' : Bridge} {e : BridgeEnd} {v : Value} {now : Nat}

/-- Both sides keep their roots, entry by entry. -/
def KeepsRoots (b b' : Bridge) : Prop := ∀ x, (b.side x).heap.KeepsRoots (b'.side x).heap

theorem KeepsRoots.refl (b : Bridge) : b.KeepsRoots b := fun x => .refl (b.side x).heap

theorem KeepsRoots.trans (first : b.KeepsRoots b') (next : b'.KeepsRoots b'') :
    b.KeepsRoots b'' := fun x => (first x).trans (next x)

theorem keepsRoots_of_sides (near : b.near.heap.KeepsRoots b'.near.heap)
    (far : b.far.heap.KeepsRoots b'.far.heap) : b.KeepsRoots b' := by
  intro x
  cases x with
  | near => exact near
  | far => exact far

theorem keepsRoots_setSide {s : Side} (keeps : (b.side e).heap.KeepsRoots s.heap) :
    b.KeepsRoots (b.setSide s e) := by
  intro x
  rcases eq_or_eq_other e x with rfl | rfl
  · rwa [side_setSide_same]
  · rw [side_setSide_other]
    exact .refl _

theorem keepsRoots_scavenge (b : Bridge) : b.KeepsRoots b.scavenge.state := by
  intro e
  rw [side_scavenge]
  exact .refl _

theorem keepsRoots_collect (b : Bridge) : b.KeepsRoots b.collect.state := by
  refine keepsRoots_of_sides (.refl _) ?_
  rcases b.collect_cases with ⟨f, -, -, same⟩ | ⟨-, far, -⟩
  · rw [same]
    exact .refl _
  · rw [far]
    exact b.far.keepsRoots_collectText b.manager b.collector.settings.forceNative _

theorem keepsRoots_cleared (b : Bridge) (now : Nat) : b.KeepsRoots (b.cleared now) := by
  have called : b.KeepsRoots { b with schedule := (b.schedule.call now).2 } :=
    keepsRoots_of_sides (.refl _) (.refl _)
  unfold cleared
  dsimp only
  split
  · exact called.trans (keepsRoots_scavenge _)
  · exact called

theorem keepsRoots_onCall (b : Bridge) (now : Nat) : b.KeepsRoots (b.onCall now).state := by
  have cleared := b.keepsRoots_cleared now
  have cycled := cleared.trans (keepsRoots_collect _)
  rw [(b.onCall_eq now).1]
  split
  · split
    · exact keepsRoots_of_sides (cycled .near) (cycled .far)
    · exact cycled
  · exact cleared

theorem keepsRoots_cross (b : Bridge) (e : BridgeEnd) (v : Value) :
    b.KeepsRoots (b.cross e v).state := by
  have left : b.KeepsRoots (b.setSide ((b.side e).encode v).state e) :=
    keepsRoots_setSide ((b.side e).keepsRoots_encode v)
  unfold cross
  dsimp only
  split
  · exact left
  · refine left.trans (keepsRoots_setSide ?_)
    exact Side.keepsRoots_decode _ _

/-- The work that is due on the call does not stop the process. -/
def Survives (b : Bridge) (e : BridgeEnd) (v : Value) (now : Nat) : Prop :=
  ∀ f, ((b.pin e v).2.onCall now).answer = .error f → f.isFatal = false

theorem keepsRoots_send (survives : b.Survives e v now) :
    (b.ready e v now).KeepsRoots (b.send e v now).state := by
  unfold send
  dsimp only
  split
  · rename_i f refused
    rw [if_neg (by rw [survives f refused]; exact Bool.false_ne_true)]
    exact .refl _
  · exact keepsRoots_cross _ e v

/-- When the value crosses, its side has rooted it for a while, and the other side has its roots. -/
theorem keepsRoots_ready (b : Bridge) (e : BridgeEnd) (v : Value) (now : Nat) :
    match v.object? with
    | none => b.KeepsRoots (b.ready e v now)
    | some id => ((b.side e).heap.pinned id).KeepsRoots ((b.ready e v now).side e).heap ∧
        (b.side e.other).heap.KeepsRoots ((b.ready e v now).side e.other).heap := by
  unfold ready pin
  cases v.object? with
  | none => exact b.keepsRoots_onCall now
  | some id =>
      dsimp only
      generalize called : b.setSide { b.side e with heap := ((b.side e).heap.addRoot id).2 } e = b₁
      have here : (b₁.side e).heap = ((b.side e).heap.addRoot id).2 := by
        rw [← called, side_setSide_same]
      have there : (b₁.side e.other).heap = (b.side e.other).heap := by
        rw [← called, side_setSide_other]
      have worked := b₁.keepsRoots_onCall now
      unfold unpin
      dsimp only
      rw [side_setSide_same, side_setSide_other]
      refine ⟨?_, there ▸ worked e.other⟩
      exact (here ▸ worked e).removeRoot ((b.side e).heap.addRoot id).1

/-- A send leaves the roots of both sides as they were exactly if it does not put its value into an
entry that holds a root. -/
theorem rootIds_send_iff (survives : b.Survives e v now) :
    (∀ x, ((b.send e v now).state.side x).heap.rootIds = (b.side x).heap.rootIds) ↔
      ∀ id, v.object? = some id → (b.side e).heap.root? ((b.side e).heap.addRoot id).1 = none := by
  have sent := keepsRoots_send survives
  have ready := b.keepsRoots_ready e v now
  cases object : v.object? with
  | none =>
      rw [object] at ready
      exact iff_of_true (fun x => (ready.trans sent x).rootIds) nofun
  | some id =>
      rw [object] at ready
      have here := ready.1.trans (sent e)
      have there := ready.2.trans (sent e.other)
      constructor
      · rintro same _ ⟨⟩
        rw [← Heap.rootIds_pinned_iff, ← here.rootIds]
        exact same e
      · intro vacant x
        rcases eq_or_eq_other e x with rfl | rfl
        · rw [here.rootIds]
          exact (Heap.rootIds_pinned_iff _ id).2 (vacant id rfl)
        · exact there.rootIds

section Runs

/-- The free entries of both sides are there, vacant and listed once. -/
def Listed (b : Bridge) : Prop := b.Everywhere fun s => s.heap.Rootable ∧ s.heap.Spare

theorem Listed.keeps (listed : b.Listed) (keeps : b.KeepsRoots b') : b'.Listed :=
  fun x => ⟨(keeps x).rootable (listed x).1, (keeps x).spare (listed x).2⟩

theorem listed_pin (listed : b.Listed) (e : BridgeEnd) (v : Value) : (b.pin e v).2.Listed := by
  unfold pin
  cases v.object? with
  | none => exact listed
  | some id =>
      obtain ⟨rootable, spare⟩ := listed e
      exact Everywhere.setSide listed
        ⟨Heap.rootable_addRoot rootable id, Heap.spare_addRoot rootable spare id⟩ e

theorem listed_unpin (listed : b.Listed) (e : BridgeEnd) (handle : Option RootHandle) :
    (b.unpin e handle).Listed := by
  cases handle with
  | none => exact listed
  | some r =>
      obtain ⟨rootable, spare⟩ := listed e
      exact Everywhere.setSide listed
        ⟨Heap.rootable_removeRoot rootable r, Heap.spare_removeRoot spare r⟩ e

theorem listed_send (listed : b.Listed) (e : BridgeEnd) (v : Value) (now : Nat) :
    (b.send e v now).state.Listed := by
  have called := (listed_pin listed e v).keeps (keepsRoots_onCall _ now)
  have ready : (b.ready e v now).Listed := listed_unpin called e (b.pin e v).1
  rcases b.send_cases e v now with ⟨f, -, -, state | state⟩ | ⟨-, state, -⟩
  · rw [state]
    exact ready
  · rw [state]
    exact called
  · rw [state]
    exact ready.keeps (keepsRoots_cross _ e v)

/-- A program points a handle that it has given back at an object. -/
def Refills (b : Bridge) (event : BridgeEvent) : Prop :=
  ∃ e m, event = .mutate e m ∧ (b.side e).heap.Refills (.mutate m)

theorem listed_update (listed : b.Listed) {event : BridgeEvent} (tame : ¬ b.Refills event) :
    (b.update event).Listed := by
  cases event with
  | mutate e m =>
      obtain ⟨rootable, spare⟩ := listed e
      have once : ¬ (b.side e).heap.Refills (.mutate m) := fun refills => tame ⟨e, m, rfl, refills⟩
      exact Everywhere.setSide listed
        ⟨Heap.rootable_mutate rootable m, (Heap.spare_update_iff rootable spare _).2 once⟩ e
  | nativeCollect e => exact listed.keeps (keepsRoots_setSide (b.side e).keepsRoots_nativeCollect)
  | collect => exact listed.keeps b.keepsRoots_collect
  | scavenge => exact listed.keeps b.keepsRoots_scavenge
  | send e v now => exact listed_send listed e v now

/-- No event of the history points a handle that was given back at an object. -/
def Tame (b : Bridge) (events : List BridgeEvent) : Prop :=
  ∀ past event later, past ++ event :: later = events → ¬ (b.history past).Refills event

theorem listed_history (listed : b.Listed) {events : List BridgeEvent} (tame : b.Tame events) :
    (b.history events).Listed := by
  induction events generalizing b with
  | nil => exact listed
  | cons event rest ih =>
      refine ih (listed_update listed (tame [] event rest rfl)) fun past x later split => ?_
      exact tame (event :: past) x later (congrArg (List.cons event) split)

theorem listed_new {settings : Settings} (fresh : Bridge.new settings = .ok b) : b.Listed := by
  cases eq_opened fresh
  intro x
  cases x <;> exact ⟨nofun, Heap.spare_of_nil rfl⟩

end Runs

/-- New roots displace others after a handle that was given back has been pointed at an object, and
only then. In a heap whose list of free entries is right a root stays at its handle until its owner
gives it up, whatever else happens. A send puts its value into the next entry, and so it leaves the
roots of both sides as they were exactly if that one is vacant. -/
theorem roots_exact {settings : Settings} {start : Bridge}
    (fresh : Bridge.new settings = .ok start) (events : List HeapEvent) :
    let h := Heap.history {} events
    ((∀ past later, past ++ later = events → (Heap.history {} past).Spare) ↔
      Heap.Tame {} events) ∧
    (h.Spare ↔ ∀ ids id, (h.addRoots ids).root? ((h.addRoots ids).addRoot id).1 = none) ∧
    (∀ r x later, h.Spare → h.root? r = some x → h.Tame later →
      (∀ event ∈ later, ¬ Heap.Yields r event) →
        (h.history later).root? r = some x ∧ x ∈ (h.history later).rootIds) ∧
    (∀ b e v now, Survives b e v now →
      ((∀ x, ((b.send e v now).state.side x).heap.rootIds = (b.side x).heap.rootIds) ↔
        ∀ id, v.object? = some id →
          (b.side e).heap.root? ((b.side e).heap.addRoot id).1 = none)) ∧
    ∀ past, start.Tame past → ∀ e v now, Survives (start.history past) e v now →
      ∀ x, (((start.history past).send e v now).state.side x).heap.rootIds =
        ((start.history past).side x).heap.rootIds := by
  intro h
  have empty : Heap.Rootable {} := nofun
  have vacant : Heap.Spare {} := Heap.spare_of_nil rfl
  have rootable : h.Rootable := Heap.rootable_history events empty
  refine ⟨Heap.spare_history_iff empty vacant, Heap.spare_iff_addRoots rootable, ?_,
    fun b e v now => rootIds_send_iff, ?_⟩
  · intro r x later spare held tame kept
    have still := Heap.root?_history rootable spare held tame kept
    exact ⟨still, Heap.mem_rootIds_iff.2 ⟨r, still⟩⟩
  · intro past tame e v now survives
    have listed := listed_history (listed_new fresh) tame
    exact (rootIds_send_iff survives).2 fun id _ => Heap.root?_addRoot_eq_none (listed e).2 id

/-- One object is a root and another one is about to be sent. -/
def oneRoot : List BridgeEvent :=
  [.mutate .near (.alloc .ordinary []), .mutate .near (.addRoot ⟨0, 0⟩),
    .mutate .near (.alloc .ordinary [])]

theorem roots_exact_sent :
    let sent := ((opened byHand).history oneRoot).send .near (.ref ⟨1, 0⟩) 0
    sent.answer = .ok (.ref ⟨0, 0⟩) ∧ (sent.state.side .near).heap.rootIds = [⟨0, 0⟩] := by
  dsimp only
  have tame : (opened byHand).Tame oneRoot := by
    rintro past event later split ⟨e, m, rfl, r, x, same, -⟩
    cases same
    have member : BridgeEvent.mutate e (.setRoot r (some x)) ∈ oneRoot := by
      rw [← split]
      exact List.mem_append_right past List.mem_cons_self
    simp [oneRoot] at member
  have worked : ((((opened byHand).history oneRoot).pin .near (.ref ⟨1, 0⟩)).2.onCall 0).answer =
      .ok () := by decide +kernel
  have survives : Survives ((opened byHand).history oneRoot) .near (.ref ⟨1, 0⟩) 0 := by
    intro f refused
    cases worked.symm.trans refused
  obtain ⟨-, -, -, -, kept⟩ := @roots_exact byHand (opened byHand) (new_opened rfl) []
  refine ⟨by decide +kernel, ?_⟩
  rw [kept oneRoot tame .near (.ref ⟨1, 0⟩) 0 survives .near]
  decide +kernel

/-- A root is removed, its handle is pointed at the object once more, and the root is removed again.
Then the entry is listed twice. -/
def listedTwice : List BridgeEvent :=
  [.mutate .near (.alloc .ordinary []), .mutate .near (.addRoot ⟨0, 0⟩),
    .mutate .near (.removeRoot ⟨0⟩), .mutate .near (.setRoot ⟨0⟩ (some ⟨0, 0⟩)),
    .mutate .near (.removeRoot ⟨0⟩), .mutate .near (.alloc .ordinary []),
    .mutate .near (.addRoot ⟨1, 0⟩), .mutate .near (.alloc .ordinary [])]

/-- The second object is rooted in the entry and loses it to the third, which is only sent. -/
theorem root_lost_to_send :
    let b := (opened byHand).history listedTwice
    let sent := b.send .near (.ref ⟨2, 0⟩) 0
    Bridge.new byHand = .ok (opened byHand) ∧ (b.side .near).heap.rootIds = [⟨1, 0⟩] ∧
      sent.answer = .ok (.ref ⟨0, 0⟩) ∧ (sent.state.side .near).heap.rootIds = [] ∧
      ((sent.state.update (.nativeCollect .near)).side .near).heap.isAlive ⟨1, 0⟩ = false :=
  ⟨new_opened rfl, by decide +kernel, by decide +kernel, by decide +kernel, by decide +kernel⟩

end Bridge

end TwinHeap
