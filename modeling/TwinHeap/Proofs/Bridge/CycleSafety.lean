import TwinHeap.Proofs.Bridge.Combined
import TwinHeap.Proofs.Bridge.Generations

/-! A cycle frees nothing that is reachable across both heaps, in either mode and with either kind of
graph. Slots behind the roots of the near side stay live; any other slot that is still needed is in
the record of a proxy that the far side holds. -/
namespace TwinHeap.Bridge

variable {b : Bridge} {e : BridgeEnd} {x : ObjectId} {s s' : Side}

/-- What keeps a reached object: on the far side the next native collection does, and on the near
side a root or an exported object reaches it whose proxy is kept so. -/
def Traced (b : Bridge) (s' : Side) : BridgeEnd → ObjectId → Prop
  | .far, x => s'.Held x
  | .near, x => b.near.heap.Rooted (some .hidden) x ∨
      ∃ k a q, b.near.exports.entry? k = some (.live a) ∧ b.near.heap.Path (some .hidden) a x ∧
        b.far.imports.proxy? b.far.heap k.across = some q ∧ s'.Held q

theorem Traced.near {p x : ObjectId} (traced : b.Traced s' .near p)
    (leave : b.near.heap.classOf? p ≠ some .hidden) (child : x ∈ b.near.heap.children p)
    (alive : b.near.heap.isAlive x = true) : b.Traced s' .near x := by
  rcases traced with rooted | ⟨k, a, q, live, path, proxy, held⟩
  · exact .inl (rooted.trans (.step (.here (Heap.Path.alive_last rooted.choose_spec.2)) leave child
      alive))
  · exact .inr ⟨k, a, q, live, .step path leave child alive, proxy, held⟩

/-- A slot whose proxy is traced on the near side stays live, or a proxy that the far side holds
records it. -/
theorem kept_of_traced {p o : ObjectId} {j : ImportKey} (current : b.Current)
    (recast : b.far.heap.Recast s.heap) (imports : s.imports = b.far.imports)
    (severed : s.Severed b.incoming s') (traced : b.Traced s' .near p)
    (found : b.near.imports.proxy? b.near.heap j = some p)
    (live : s.exports.entry? j.across = some (.live o)) :
    s'.exports.entry? j.across = some (.live o) ∨
      ∃ q, s'.Held q ∧ s'.heap.RecordOf q j.across o := by
  have covering := covering_outgoing current
  have stays : j ∈ b.outgoing.root → s'.exports.entry? j.across = some (.live o) := by
    intro member
    rw [severed.entry, if_neg fun both => both.1 (mem_roots_incoming.2 member)]
    exact live
  rcases traced with rooted | ⟨k, a, q, exported, path, proxy, held⟩
  · exact .inl (stays (covering.root j p found rooted))
  · rcases covering.edge k a j p exported found path with member | ⟨js, listed, member⟩
    · exact .inl (stays member)
    · obtain ⟨entryQ, aliveQ⟩ := Imports.proxy?_eq_some_iff.1 proxy
      have atHand : s.imports.proxy? s.heap k.across = some q := by
        rw [imports]
        exact Imports.proxy?_eq_some_iff.2 ⟨entryQ, (recast.isAlive q).trans aliveQ⟩
      have isProxy : (s.heap.proxy? q).isSome = true := by
        have key := (current .far).key k.across q entryQ aliveQ
        obtain ⟨body, is, -⟩ := Option.map_eq_some_iff.1 ((recast.key q).trans key)
        rw [is]
        rfl
      refine .inr ⟨q, held, (severed.record q j.across o).2 ⟨isProxy, ?_, k.across,
        js.map ImportKey.across, mem_edges_incoming.2 ⟨js, listed, rfl⟩, atHand,
        List.mem_map_of_mem member⟩⟩
      exact Exports.object?_eq_some_iff.2 live

/-- Severing by the graph of the near side keeps what it reaches. `s` is the far side when it is
severed, with every slot repaired that the records ask for. -/
theorem traced_of_severed (current : b.Current) (recast : b.far.heap.Recast s.heap)
    (imports : s.imports = b.far.imports)
    (offers : ∀ k o, b.Offers k o → s.exports.entry? k = some (.live o))
    (severed : s.Severed b.incoming s') (reached : b.Reached e x) : b.Traced s' e x := by
  have heap : b.far.heap.Recast s'.heap := recast.trans severed.heap
  have alive : ∀ {x}, b.far.heap.isAlive x = true → s'.heap.isAlive x = true := fun alive => by
    rw [heap.isAlive]
    exact alive
  induction reached with
  | @root e x member old =>
      cases e with
      | near => exact .inl ⟨x, member, .here old⟩
      | far => exact Side.held_of_root (heap.roots ▸ member) (alive old)
  | near _ leave child old ih => exact ih.near leave child old
  | @far p x c fields _ plain child old ih =>
      have other : b.far.heap.proxy? p = none := by
        simp only [Heap.proxy?, plain]
        rfl
      exact Side.Held.child ih (heap.children other ▸ child) (alive old)
  | @out p o j source entry offered old ih =>
      have found : b.near.imports.proxy? b.near.heap j = some p :=
        Imports.proxy?_eq_some_iff.2 ⟨entry, source.alive⟩
      rcases kept_of_traced current recast imports severed ih found (offers j.across o offered) with
          live | ⟨q, held, recorded⟩
      · exact Side.held_of_live live (alive old)
      · exact held.child (Heap.mem_children_of_recordOf recorded) (alive old)
  | @back p a i source entry live old ih =>
      refine .inr ⟨i.across, a, p, live, .here old, ?_, ih⟩
      exact Imports.proxy?_eq_some_iff.2 ⟨entry, source.alive⟩

/-- What is reached is held once the manager is done. -/
theorem held_of_manages {far : Side} {forced : Bool} (sound : b.Sound) (current : b.Current)
    (bare : forced = true → b.far.Unrecorded) (manages : Manager.Manages b.far b.incoming forced far)
    (reached : b.Reached .far x) : far.Held x := by
  have soundFar := sound.side .far
  cases manages with
  | @repairFirst s₁ s₂ repairs _ severed =>
      have offers : ∀ k o, b.Offers k o → s₁.exports.entry? k = some (.live o) := by
        rintro k o (live | ⟨detached, recorded⟩)
        · exact repairs.live live
        · exact repairs.live_of_recorded soundFar recorded (.inr detached)
      have held : s₂.Held x :=
        traced_of_severed current repairs.heap repairs.imports offers severed reached
      exact held
  | @severFirst s₁ _ severed repairs =>
      have offers : ∀ k o, b.Offers k o → b.far.exports.entry? k = some (.live o) := by
        rintro k o (live | ⟨-, p, recorded⟩)
        · exact live
        · exact ((bare rfl).not_recordOf recorded).elim
      have held : s₁.Held x := traced_of_severed current (.refl _) rfl offers severed reached
      have soundNext := severed.sound soundFar
      exact repairs.held (Side.sound_nativeCollect soundNext)
        (Side.returning_nativeCollect soundNext severed.returning) (Side.held_nativeCollect.2 held)

/-- Native collections one after another keep what the first one keeps. -/
theorem held_history_native (held : b.far.Held x) (ends : List BridgeEnd) :
    (b.history (ends.map .nativeCollect)).far.Held x := by
  induction ends generalizing b with
  | nil => exact held
  | cons e ends ih =>
      apply ih (b := b.update (.nativeCollect e))
      cases e with
      | near => exact held
      | far => exact Side.held_nativeCollect.2 held

/-- After a cycle that succeeds every object of the far side that was reached is alive, and so it is
after any number of native collections that follow. -/
theorem collect_keeps_reached {settings : Settings} {start : Bridge} {events : List BridgeEvent}
    {report : CycleReport} (fresh : Bridge.new settings = .ok start)
    (unwrapped : start.Unwrapped events)
    (answered : (start.history events).collect.answer = .ok report)
    (reached : (start.history events).Reached .far x) (ends : List BridgeEnd) :
    (((start.history events).update .collect).history
      (ends.map .nativeCollect)).far.heap.isAlive x = true := by
  have sound := sound_history (sound_new fresh) events
  have current := current_history (sound_new fresh) (ascends_of_unwrapped fresh unwrapped)
    (current_new fresh)
  have bare : (start.history events).collector.settings.forceNative = true →
      (start.history events).far.Unrecorded := fun forced => sound.bare .far (.inr forced)
  refine (held_history_native ?_ ends).alive
  rcases cycle_cases sound with ⟨f, -, refused, -⟩ | ⟨f, -, -, -, refused, -⟩ | ⟨-, -, manages⟩
  · exact nomatch refused.symm.trans answered
  · exact nomatch refused.symm.trans answered
  · exact held_of_manages sound current bare manages reached

/-- An object of the far side whose only root is one of its proxy on the near side. -/
def rootedProxy : List BridgeEvent :=
  [.mutate .far (.alloc .ordinary []), .mutate .far (.addRoot ⟨0, 0⟩), .send .far (.ref ⟨0, 0⟩) 0,
    .mutate .near (.addRoot ⟨0, 0⟩), .mutate .far (.removeRoot ⟨0⟩)]

theorem collect_keeps_rooted_proxy :
    ((((opened byHand).history rootedProxy).update .collect).history
      ([.far, .far].map .nativeCollect)).far.heap.isAlive ⟨0, 0⟩ = true := by
  have proxy : ((opened byHand).history rootedProxy).Reached .near ⟨0, 0⟩ :=
    .root (by decide +kernel) (by decide +kernel)
  have reached : ((opened byHand).history rootedProxy).Reached .far ⟨0, 0⟩ :=
    .out (j := ⟨0⟩) proxy (by decide +kernel) (.inl (by decide +kernel)) (by decide +kernel)
  exact @collect_keeps_reached ⟨0, 0⟩ byHand (opened byHand) rootedProxy
    { cycle := 1, mode := .exact, entries := 1, roots := 1, edges := 0, records := 0, unlinked := 0,
      repaired := 0, live := 1, detached := 0, native := none }
    (new_opened rfl) (unwrapped_of_length (by decide) _) (by decide +kernel) reached [.far, .far]

end TwinHeap.Bridge
