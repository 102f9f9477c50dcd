import TwinHeap.Proofs.Side.Crossing

/-! How the tables of two sides go together: a slot in which one side has a proxy, alive or not, is in
use on the side that owns it. -/
namespace TwinHeap.Side

/-- The export table of `owner` and the import table of `holder` are about the same slots. -/
structure Coupled (owner holder : Side) : Prop where
  size : owner.exports.size = holder.imports.size
  used : ∀ k p, holder.imports.entry? k.across = some (.weak p) → owner.exports.Used k

/-- A live proxy of the import table stands for the slot that it is listed with. -/
def Keyed (s : Side) : Prop :=
  ∀ k p, s.imports.entry? k = some (.weak p) → s.heap.isAlive p = true → s.remoteKey? p = some k

/-- The names in an import table are known, and a live one is a proxy for its slot. Both fail when
generations go round. -/
structure Current (s : Side) : Prop where
  known : ∀ k p, s.imports.entry? k = some (.weak p) → s.heap.Known p
  key : s.Keyed

variable {s s' owner holder : Side} {k : ExportKey} {j : ImportKey} {o p x : ObjectId}

theorem Coupled.steady_owner {owner' : Side} (coupled : owner.Coupled holder)
    (steady : owner.Steady owner') : owner'.Coupled holder :=
  ⟨steady.size.trans coupled.size, fun k p weak => (steady.used k).2 (coupled.used k p weak)⟩

theorem Coupled.steady_holder {holder' : Side} (coupled : owner.Coupled holder)
    (same : holder'.imports = holder.imports) : owner.Coupled holder' :=
  ⟨same ▸ coupled.size, fun k p weak => coupled.used k p (same ▸ weak)⟩

theorem current_of_onward (current : s.Current) (onward : s.heap.Onward s'.heap)
    (same : s'.imports = s.imports) : s'.Current where
  known := fun k p entry => onward.known p (current.known k p (same ▸ entry))
  key := fun k p entry alive => by
    have entry := same ▸ entry
    have known := current.known k p entry
    exact (onward.key p known alive).trans (current.key k p entry (onward.alive p known alive))

section Receive

/-- The side was asked for a proxy in the slot `k` and answered `made`. Without room for a new one the
slot is there, and nothing else has changed. -/
structure Receives (s : Side) (k : ImportKey) (made : Except Fault ObjectId) (s' : Side) :
    Prop where
  exports : s'.exports = s.exports
  wellFormed : s.heap.WellFormed → s'.heap.WellFormed
  onward : s.heap.WellFormed → s.heap.Onward s'.heap
  age : ∀ slot, s'.heap.age slot = s.heap.age slot
  alive : s.heap.WellFormed → ∀ p, made = .ok p → s'.heap.isAlive p = true
  held : ∀ p, s.imports.proxy? s.heap k = some p → made = .ok p
  proxy : s.heap.WellFormed → ∀ id q, s'.heap.proxy? id = some q →
    s.heap.proxy? id = some q ∨ made = .ok id ∧ q = { key := k }
  key : s.heap.WellFormed → s.Keyed → ∀ p, made = .ok p → s'.remoteKey? p = some k
  placed : ∀ p, made = .ok p → s'.imports.entry? k = some (.weak p)
  elsewhere : ∀ j p, j ≠ k → s.imports.entry? j = some (.weak p) →
    s'.imports.entry? j = some (.weak p)
  weak : ∀ j p, s'.imports.entry? j = some (.weak p) →
    s.imports.entry? j = some (.weak p) ∨ j = k ∧ made = .ok p
  size : s'.imports.size = max s.imports.size (k.number + 1)
  refused : ∀ f, made = .error f → f = Heap.noRoom ∧ s.imports.proxy? s.heap k = none ∧
    s.heap.hasRoom = false ∧ s'.heap = s.heap

/-- The proxy is there already. -/
theorem receives_held {k : ImportKey} {p : ObjectId} (entry : s.imports.entry? k = some (.weak p))
    (alive : s.heap.isAlive p = true) : s.Receives k (.ok p) s where
  exports := rfl
  wellFormed := id
  onward := fun _ => .refl s.heap
  age := fun _ => rfl
  alive := by
    rintro - q ⟨⟩
    exact alive
  held := fun q held => by
    rw [Imports.proxy?_eq_some_iff.2 ⟨entry, alive⟩] at held
    cases held
    rfl
  proxy := fun _ _ _ proxy => .inl proxy
  key := by
    rintro - keyed q ⟨⟩
    exact keyed k p entry alive
  placed := by
    rintro q ⟨⟩
    exact entry
  elsewhere := fun _ _ _ weak => weak
  weak := fun _ _ weak => .inl weak
  size := by
    have below := Imports.lt_size_of_entry? entry
    omega
  refused := by
    rintro f ⟨⟩

/-- A new proxy is put into the slot. -/
theorem receives_placed {k : ImportKey} (none : s.imports.proxy? s.heap k = none) :
    s.Receives k (.ok (s.heap.place (.proxy k)).1)
      { s with
        heap := (s.heap.place (.proxy k)).2
        imports :=
          { rows := (s.imports.rows.reach k fun _ => .empty).set k
              (.weak (s.heap.place (.proxy k)).1) } } where
  exports := rfl
  wellFormed := Heap.wellFormed_place _
  onward := fun hw => Heap.onward_place hw _
  age := Heap.age_place _
  alive := by
    rintro hw q ⟨⟩
    exact Heap.isAlive_place _ hw
  held := fun q held => by
    rw [none] at held
    cases held
  proxy := fun hw id q proxy => by
    simp only [Heap.proxy?, Heap.get?_place _ hw] at proxy
    split at proxy
    · rename_i fresh
      cases proxy
      exact .inr ⟨congrArg Except.ok fresh.symm, rfl⟩
    · exact .inl proxy
  key := by
    rintro hw - q ⟨⟩
    simp only [remoteKey?, Heap.proxy?, Heap.get?_place _ hw, if_pos]
    rfl
  placed := by
    rintro q ⟨⟩
    exact Imports.entry?_fill_weak.2 (by simp)
  elsewhere := fun j q apart weak => Imports.entry?_fill_weak.2 (by rwa [if_neg apart.symm])
  weak := fun j q weak => by
    have fill := Imports.entry?_fill_weak.1 weak
    split at fill
    · rename_i here
      exact .inr ⟨here.symm, congrArg Except.ok fill⟩
    · exact .inl fill
  size := Imports.size_fill s.imports k _
  refused := by
    rintro f ⟨⟩

/-- There is no room for a new proxy, and the slot stays empty. -/
theorem receives_refused {k : ImportKey} (none : s.imports.proxy? s.heap k = none)
    (full : s.heap.hasRoom = false) :
    s.Receives k (.error Heap.noRoom)
      { s with imports := { rows := s.imports.rows.reach k fun _ => .empty } } where
  exports := rfl
  wellFormed := id
  onward := fun _ => .refl s.heap
  age := fun _ => rfl
  alive := by
    rintro - q ⟨⟩
  held := fun q held => by
    rw [none] at held
    cases held
  proxy := fun _ _ _ proxy => .inl proxy
  key := by
    rintro - - q ⟨⟩
  placed := by
    rintro q ⟨⟩
  elsewhere := fun _ _ _ => Imports.entry?_reach_weak.2
  weak := fun _ _ weak => .inl (Imports.entry?_reach_weak.1 weak)
  size := Imports.size_reach s.imports k
  refused := by
    rintro f ⟨⟩
    exact ⟨rfl, none, full, rfl⟩

theorem receives_proxyFor (s : Side) (k : ImportKey) :
    s.Receives k (s.proxyFor k).answer (s.proxyFor k).state := by
  show s.Receives k (s.imports.proxyFor s.heap k).answer
    { s with
      heap := (s.imports.proxyFor s.heap k).state.1
      imports := (s.imports.proxyFor s.heap k).state.2 }
  rcases s.imports.proxyFor_cases s.heap k with ⟨p, entry, alive, answer, state⟩ |
      ⟨none, -, answer, state⟩ | ⟨none, full, answer, state⟩
  · rw [answer, state]
    exact receives_held entry alive
  · rw [answer, state]
    exact receives_placed none
  · rw [answer, state]
    exact receives_refused none full

namespace Receives

variable {k : ImportKey} {made : Except Fault ObjectId}

theorem recordOf (receives : s.Receives k made s') (hw : s.heap.WellFormed) {id : ObjectId}
    {n : ExportKey} (named : s'.heap.RecordOf id n x) : s.heap.RecordOf id n x := by
  obtain ⟨q, r, proxy, record, member⟩ := named
  rcases receives.proxy hw id q proxy with old | ⟨-, rfl⟩
  · exact ⟨q, r, old, record, member⟩
  · cases record

theorem named (receives : s.Receives k made s') (hw : s.heap.WellFormed) {n : ExportKey}
    (named : s'.Named n x) : s.Named n x := by
  rcases named with noted | ⟨id, recorded⟩
  · exact .inl (receives.exports ▸ noted)
  · exact .inr ⟨id, receives.recordOf hw recorded⟩

/-- A slot whose proxy is alive goes on to have it. -/
theorem entry (receives : s.Receives k made s') {j : ImportKey} {p : ObjectId}
    (weak : s.imports.entry? j = some (.weak p)) (alive : s.heap.isAlive p = true) :
    s'.imports.entry? j = some (.weak p) := by
  by_cases here : j = k
  · subst here
    exact receives.placed p (receives.held p (Imports.proxy?_eq_some_iff.2 ⟨weak, alive⟩))
  · exact receives.elsewhere j p here weak

theorem sound (receives : s.Receives k made s') (sound : s.Sound) : s'.Sound where
  heap := receives.wellFormed sound.heap
  ordered := receives.exports ▸ sound.ordered
  listed := fun id q proxy => by
    rcases receives.proxy sound.heap id q proxy with old | ⟨fresh, rfl⟩
    · exact receives.entry (sound.listed id q old) (Heap.isAlive_of_proxy? old)
    · exact receives.placed id fresh
  agreed := fun n x y detached hx hy =>
    sound.agreed n x y (receives.exports ▸ detached) (receives.named sound.heap hx)
      (receives.named sound.heap hy)

theorem owns (receives : s.Receives k made s') (hw : s.heap.WellFormed) {n : ExportKey}
    (owns : s.Owns n o) : s'.Owns n o := by
  rcases owns with live | ⟨detached, only⟩
  · exact .inl (receives.exports ▸ live)
  · exact .inr ⟨receives.exports ▸ detached, fun x named => only x (receives.named hw named)⟩

theorem unrecorded (receives : s.Receives k made s') (hw : s.heap.WellFormed)
    (bare : s.Unrecorded) : s'.Unrecorded := by
  intro id q proxy
  rcases receives.proxy hw id q proxy with old | ⟨-, rfl⟩
  · exact bare id q old
  · rfl

theorem current (receives : s.Receives k made s') (hw : s.heap.WellFormed) (current : s.Current) :
    s'.Current where
  known := fun j p entry => by
    rcases receives.weak j p entry with old | ⟨-, fresh⟩
    · exact (receives.onward hw).known p (current.known j p old)
    · exact Heap.known_of_isAlive (receives.alive hw p fresh)
  key := fun j p entry alive => by
    rcases receives.weak j p entry with old | ⟨rfl, fresh⟩
    · have known := current.known j p old
      exact ((receives.onward hw).key p known alive).trans
        (current.key j p old ((receives.onward hw).alive p known alive))
    · exact receives.key hw current.key p fresh

end Receives

/-- An object has got a slot on one side, and the other side was asked for a proxy. -/
theorem Coupled.export {exports : Exports} {holder' : Side} {made : Except Fault ObjectId}
    (coupled : owner.Coupled holder) (fills : owner.exports.Fills k o exports)
    (receives : holder.Receives k.across made holder') : Coupled { owner with exports } holder' where
  size := by
    show exports.size = holder'.imports.size
    rw [fills.size, receives.size, coupled.size]
    rfl
  used := fun n p weak => by
    have entry := fills.entry n
    by_cases same : k = n
    · subst same
      exact .inr ⟨o, by simpa using entry⟩
    · rw [if_neg same] at entry
      rcases receives.weak _ p weak with old | ⟨here, -⟩
      · have used : Exports.Used exports n ↔ owner.exports.Used n := by
          simp only [Exports.Used, entry]
        exact used.2 (coupled.used n p old)
      · exact (same (congrArg ImportKey.across here).symm).elim

end Receive

section Tidy

/-- The import slots of collected proxies are emptied, and `keys` are released. -/
def tidied (s : Side) (keys : List ExportKey) : Side :=
  { s with
    exports := s.exports.releaseAll keys
    imports := (s.imports.scavenge s.heap).2 }

variable {keys : List ExportKey}

theorem entry?_tidied {e : ExportEntry} (found : (s.tidied keys).exports.entry? k = some e)
    (taken : e ≠ .free) : s.exports.entry? k = some e := by
  have entry := found.symm.trans (Exports.entry?_releaseAll s.exports keys k)
  split at entry
  · cases entry
    exact (taken rfl).elim
  · exact entry.symm

theorem entry?_tidied_of_not_mem (kept : k ∉ keys) :
    (s.tidied keys).exports.entry? k = s.exports.entry? k :=
  (Exports.entry?_releaseAll s.exports keys k).trans (if_neg fun both => kept both.1)

theorem used_tidied : (s.tidied keys).exports.Used k ↔ s.exports.Used k ∧ k ∉ keys := by
  have entry : (s.tidied keys).exports.entry? k = _ := Exports.entry?_releaseAll s.exports keys k
  by_cases released : k ∈ keys ∧ s.exports.Used k
  · rw [if_pos released] at entry
    exact ⟨fun used => (Exports.not_used_of_free entry used).elim, fun both => (both.2 released.1).elim⟩
  · rw [if_neg released] at entry
    have same : (s.tidied keys).exports.Used k ↔ s.exports.Used k := by
      simp only [Exports.Used, entry]
    rw [same]
    exact ⟨fun used => ⟨used, fun member => released ⟨member, used⟩⟩, And.left⟩

theorem named_tidied (sound : s.Sound) (named : (s.tidied keys).Named k x) : s.Named k x := by
  rcases named with noted | recorded
  · left
    rw [Exports.note?, ← (Exports.ordered_releaseAll sound.ordered keys).2.2]
    exact noted
  · exact .inr recorded

theorem sound_tidied (sound : s.Sound) (keys : List ExportKey) : (s.tidied keys).Sound where
  heap := sound.heap
  ordered := (Exports.ordered_releaseAll sound.ordered keys).1
  listed := fun p q proxy =>
    Imports.entry?_scavenge_weak.2 ⟨sound.listed p q proxy, Heap.isAlive_of_proxy? proxy⟩
  agreed := fun k x y detached hx hy =>
    sound.agreed k x y (entry?_tidied detached (fun e => nomatch e)) (named_tidied sound hx)
      (named_tidied sound hy)

theorem owns_tidied (sound : s.Sound) (kept : k ∉ keys) (owns : s.Owns k o) :
    (s.tidied keys).Owns k o := by
  have entry := entry?_tidied_of_not_mem (s := s) kept
  rcases owns with live | ⟨detached, only⟩
  · exact .inl (entry.trans live)
  · exact .inr ⟨entry.trans detached, fun x named => only x (named_tidied sound named)⟩

theorem current_tidied (current : s.Current) (keys : List ExportKey) : (s.tidied keys).Current where
  known := fun k p entry => current.known k p (Imports.entry?_scavenge_weak.1 entry).1
  key := fun k p entry alive => current.key k p (Imports.entry?_scavenge_weak.1 entry).1 alive

theorem mem_map_across {l : List ImportKey} : k ∈ l.map ImportKey.across ↔ k.across ∈ l := by
  rw [List.mem_map]
  exact ⟨fun ⟨j, member, same⟩ => same ▸ member, fun member => ⟨k.across, member, rfl⟩⟩

/-- The slots that are given up are those whose proxies are taken out. -/
theorem Coupled.tidied (coupled : owner.Coupled holder) (others : List ExportKey) :
    (owner.tidied (holder.deadKeys.map ImportKey.across)).Coupled (holder.tidied others) where
  size := by
    refine Eq.trans ?_ (coupled.size.trans (Imports.size_scavenge holder.imports holder.heap).symm)
    show (owner.exports.releaseAll _).size = _
    generalize holder.deadKeys.map ImportKey.across = keys
    generalize owner.exports = exports
    induction keys generalizing exports with
    | nil => rfl
    | cons k keys ih => exact (ih (exports.release k).2).trans (Exports.size_release exports k)
  used := fun k p entry => by
    obtain ⟨weak, alive⟩ := Imports.entry?_scavenge_weak.1 entry
    refine used_tidied.2 ⟨coupled.used k p weak, fun dead => ?_⟩
    obtain ⟨x, found, gone⟩ := Imports.mem_deadKeys.1 (mem_map_across.1 dead)
    rw [weak] at found
    cases found
    rw [alive] at gone
    cases gone

end Tidy

end TwinHeap.Side
