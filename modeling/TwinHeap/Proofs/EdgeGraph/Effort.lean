import Mathlib.Data.List.Induction
import TwinHeap.Proofs.EdgeGraph.Approximate
import TwinHeap.Proofs.EdgeGraph.Exact
import TwinHeap.Proofs.Marking.Turns

/-! How long it takes to build a graph. No walk needs more turns than a bound that is known from the
size of the heap. In a walk of the exact graph no object is queued twice. In the approximate one objects
are queued again when their filters grow; each time a filter gains bits that it did not have before, and
the first time five of them, so that sixty times is the most for both passes together. -/
namespace TwinHeap

namespace Survey

variable {h : Heap} {c : Option ObjectClass} {closed : SlotSet}

/-- What has been queued is marked, and was queued once. -/
structure Once (s : Survey) (record : List (Queueing Survey)) : Prop where
  marked : ∀ q ∈ record, s.marks.contains q.id.slot = true
  single : ∀ x, Queueing.times record x ≤ 1

theorem once_nil (s : Survey) : Once s [] where
  marked := fun _ member => nomatch member
  single := fun _ => Nat.zero_le 1

theorem once_visit {s : Survey} {record : List (Queueing Survey)} (once : Once s record)
    (parent : Option ObjectId) (id : ObjectId) : Once (visit closed parent id s).2 record where
  marked := fun q member => by rw [contains_visit, once.marked q member, Bool.true_or]
  single := once.single

theorem once_queued {s : Survey} {record : List (Queueing Survey)} (once : Once s record)
    (parent : Option ObjectId) {id : ObjectId} (fresh : (visit closed parent id s).1 = true) :
    Once (visit closed parent id s).2 (⟨id, s, (visit closed parent id s).2⟩ :: record) := by
  have new := (fresh_visit closed parent id s).symm.trans fresh
  rw [Bool.and_eq_true, Bool.not_eq_true', Bool.not_eq_true'] at new
  refine ⟨List.forall_mem_cons.2 ⟨?_, (once_visit once parent id).marked⟩, fun x => ?_⟩
  · rw [contains_visit, new.1]
    simp
  · rw [Queueing.times_cons]
    split
    · rename_i same
      have never : Queueing.times record x = 0 := by
        refine Queueing.times_eq_zero.2 fun q member again => ?_
        have marked := once.marked q member
        rw [again, ← same, new.2] at marked
        cases marked
      omega
    · exact once.single x

theorem keeps_once : RecordedWalk.Keeps (visitor h closed) c Once where
  queued := fun parent _ _ _ _ fresh _ once => once_queued once parent fresh
  passed := fun parent id _ _ _ _ once => once_visit once parent id

theorem work_le {w : Walk Survey} (empty : w.queue.toList = []) :
    w.work (visitor h closed) ≤ h.capacity := by
  have none : w.queue.length = 0 := by rw [← Ring.length_toList, empty, List.length_nil]
  have few : w.marks.marks.missing h.capacity ≤ h.capacity :=
    Nat.le_trans List.countP_le_length (Nat.le_of_eq List.length_range)
  rw [Walk.work, none]
  exact few

/-- A walk is over after as many turns as there are cells, and has queued no object twice. -/
theorem run_once {w : Walk Survey} (empty : w.queue.toList = []) (seeds : List ObjectId) :
    (RecordedWalk.run (visitor h closed) c seeds h.capacity w).walk =
        Walk.run (visitor h closed) c seeds w ∧
      ∀ x, Queueing.times (RecordedWalk.run (visitor h closed) c seeds h.capacity w).record x ≤ 1 :=
  ⟨RecordedWalk.walk_run (work_le empty),
    (keeps_once.run (once_nil w.marks) seeds h.capacity).single⟩

end Survey

namespace BloomFilter

variable {f g : BloomFilter}

/-- No bit is set, or as many as an element has. -/
def Seeded (f : BloomFilter) : Prop := f.popCount = 0 ∨ hashes ≤ f.popCount

theorem eq_empty_of_popCount (none : f.popCount = 0) : f = empty := by
  apply ext_testBit
  intro i below
  rw [testBit_empty]
  exact Bool.eq_false_iff.2 (List.countP_eq_zero.1 none i (List.mem_range.2 below))

theorem seeded_union (first : f.Seeded) (second : g.Seeded) : (f.union g).Seeded := by
  rcases first with none | some
  · rcases second with none' | some
    · rw [eq_empty_of_popCount none, eq_empty_of_popCount none']
      exact .inl rfl
    · exact .inr (Nat.le_trans some (popCount_mono (includes_union_right f g)))
  · exact .inr (Nat.le_trans some (popCount_mono (includes_union_left f g)))

end BloomFilter

namespace FilterTable

open BloomFilter (Seeded hashes)

variable {h : Heap} {c : Option ObjectClass} {seed : BloomFilter} {t : FilterTable}
variable {record : List (Queueing FilterTable)}

/-- The queueing of an object is paid for by bits of its filter. No earlier queueing of the object was
paid for by the same bits, since its filter has kept those. -/
structure Pays (earlier : List (Queueing FilterTable)) (q : Queueing FilterTable) : Prop where
  grows : (q.after.get q.id.slot).includes (q.before.get q.id.slot) = true
  bit : (q.before.get q.id.slot).popCount + 1 ≤ (q.after.get q.id.slot).popCount
  first : (∀ p ∈ earlier, p.id ≠ q.id) →
    (q.before.get q.id.slot).popCount + 5 ≤ (q.after.get q.id.slot).popCount
  again : ∀ p ∈ earlier, p.id = q.id →
    (q.before.get q.id.slot).includes (p.after.get q.id.slot) = true

/-- Every queueing of a record is paid for. -/
inductive Paid : List (Queueing FilterTable) → Prop where
  | nil : Paid []
  | cons {q : Queueing FilterTable} {earlier : List (Queueing FilterTable)} (paid : Paid earlier)
      (pays : Pays earlier q) : Paid (q :: earlier)

/-- The account that the filters keep of what was queued. An object that was not queued yet has an empty
filter; any other has at least four bits more than it was queued. -/
structure Account (h : Heap) (c : Option ObjectClass) (t : FilterTable)
    (record : List (Queueing FilterTable)) : Prop where
  seeded : ∀ slot, (t.get slot).Seeded
  unspent : ∀ x, h.isAlive x = true → h.classOf? x ≠ c → Queueing.times record x = 0 →
    (t.get x.slot).popCount = 0
  spent : ∀ x, Queueing.times record x ≠ 0 → Queueing.times record x + 4 ≤ (t.get x.slot).popCount
  kept : ∀ p ∈ record, (t.get p.id.slot).includes (p.after.get p.id.slot) = true
  paid : Paid record

theorem account_withRoom (slots : Nat) : Account h c (withRoom slots) [] where
  seeded := fun slot => .inl (by rw [get_withRoom]; decide)
  unspent := fun x _ _ _ => by rw [get_withRoom]; decide
  spent := fun _ queued => (queued rfl).elim
  kept := fun _ member => nomatch member
  paid := .nil

theorem Account.seeded_merge (account : Account h c t record) {f : BloomFilter} (given : f.Seeded)
    (slot i : Nat) : ((t.merge slot f).2.get i).Seeded := by
  rw [get_merge]
  split
  · exact BloomFilter.seeded_union (account.seeded slot) given
  · exact account.seeded i

/-- Other objects than the one that is met have the filters that they had. -/
theorem get_merge_of_ne {id x : ObjectId} (alive : h.isAlive id = true) (aliveX : h.isAlive x = true)
    (other : id ≠ x) (f : BloomFilter) : (t.merge id.slot f).2.get x.slot = t.get x.slot := by
  rw [get_merge, if_neg fun shared => other (Heap.eq_of_isAlive alive aliveX shared)]

/-- A filter that has changed pays for the object to be queued. -/
theorem Account.queued (account : Account h c t record) {f : BloomFilter} (given : f.Seeded)
    {id : ObjectId} (alive : h.isAlive id = true) (clear : h.classOf? id ≠ c)
    (changed : (t.merge id.slot f).1 = true) :
    Account h c (t.merge id.slot f).2 (⟨id, t, (t.merge id.slot f).2⟩ :: record) := by
  have bit := popCount_lt_of_changed changed
  have five := (account.seeded_merge given id.slot id.slot).resolve_left (by omega)
  unfold hashes at five
  refine ⟨account.seeded_merge given id.slot, ?_, ?_, ?_, .cons account.paid ⟨?_, bit, ?_, ?_⟩⟩
  · intro x aliveX clearX unqueued
    rw [Queueing.times_cons] at unqueued
    have other : id ≠ x := by
      intro same
      rw [if_pos same] at unqueued
      omega
    rw [get_merge_of_ne alive aliveX other]
    exact account.unspent x aliveX clearX (by omega)
  · intro x queued
    rw [Queueing.times_cons] at queued ⊢
    by_cases same : id = x
    · subst same
      rw [if_pos rfl]
      -- the first time it pays five bits, later one more than it had
      by_cases unqueued : Queueing.times record id = 0
      · omega
      · have before := account.spent id unqueued
        omega
    · rw [if_neg same, Nat.add_zero] at queued ⊢
      have more := BloomFilter.popCount_mono (includes_get_merge t id.slot x.slot f)
      have before := account.spent x queued
      omega
  · refine List.forall_mem_cons.2 ⟨BloomFilter.includes_refl _, fun p member => ?_⟩
    exact BloomFilter.includes_trans (includes_get_merge t id.slot p.id.slot f) (account.kept p member)
  · exact includes_get_merge t id.slot id.slot f
  · intro never
    have none := account.unspent id alive clear (Queueing.times_eq_zero.2 never)
    dsimp only
    omega
  · rintro p member rfl
    exact account.kept p member

/-- An object that is opaque, or whose filter has not changed, is not queued. -/
theorem Account.passed (account : Account h c t record) {f : BloomFilter} (given : f.Seeded)
    {id : ObjectId} (alive : h.isAlive id = true)
    (idle : (t.merge id.slot f).1 = true → h.classOf? id = c) :
    Account h c (t.merge id.slot f).2 record := by
  cases changed : (t.merge id.slot f).1 with
  | false =>
      rw [merge_of_unchanged changed]
      exact account
  | true =>
      refine ⟨account.seeded_merge given id.slot, ?_, ?_, ?_, account.paid⟩
      · intro x aliveX clearX unqueued
        have other : id ≠ x := by
          rintro rfl
          exact clearX (idle changed)
        rw [get_merge_of_ne alive aliveX other]
        exact account.unspent x aliveX clearX unqueued
      · intro x queued
        exact Nat.le_trans (account.spent x queued)
          (BloomFilter.popCount_mono (includes_get_merge t id.slot x.slot f))
      · intro p member
        exact BloomFilter.includes_trans (includes_get_merge t id.slot p.id.slot f)
          (account.kept p member)

/-- Every visit is a merge of a filter that has as many bits as an element, or none. -/
theorem Account.visit_eq_merge (account : Account h c t record) (given : seed.Seeded)
    (parent : Option ObjectId) (id : ObjectId) :
    ∃ f : BloomFilter, f.Seeded ∧ visit seed parent id t = t.merge id.slot f := by
  cases parent with
  | none => exact ⟨seed, given, rfl⟩
  | some p => exact ⟨t.get p.slot, account.seeded p.slot, rfl⟩

theorem keeps_account (given : seed.Seeded) :
    RecordedWalk.Keeps (visitor h seed) c (Account h c) where
  queued := fun parent id t record alive fresh clear account => by
    obtain ⟨f, some, same⟩ := account.visit_eq_merge given parent id
    have merged : (visitor h seed).visit parent id t = t.merge id.slot f := same
    rw [merged] at fresh ⊢
    exact account.queued some alive clear fresh
  passed := fun parent id t record alive idle account => by
    obtain ⟨f, some, same⟩ := account.visit_eq_merge given parent id
    have merged : (visitor h seed).visit parent id t = t.merge id.slot f := same
    rw [merged] at idle ⊢
    exact account.passed some alive idle

/-- A filter has no room for a sixty-first time. -/
theorem Account.times_le (account : Account h c t record) (x : ObjectId) :
    Queueing.times record x ≤ 60 := by
  by_cases unqueued : Queueing.times record x = 0
  · omega
  · have full := (t.get x.slot).popCount_le
    have before := account.spent x unqueued
    unfold BloomFilter.width at full
    omega

section Passes

variable {o : BuildOptions}

theorem work_le {w : Walk FilterTable} (empty : w.queue.toList = []) :
    w.work (visitor h seed) ≤ 64 * h.capacity := by
  have none : w.queue.length = 0 := by rw [← Ring.length_toList, empty, List.length_nil]
  have few : w.marks.clearBits h.capacity ≤ 64 * h.capacity :=
    Nat.le_trans List.countP_le_length (Nat.le_of_eq List.length_range)
  rw [Walk.work, none]
  exact few

/-- The pass that starts from the roots, turn by turn. -/
def stickyTurns (h : Heap) (o : BuildOptions) : RecordedWalk FilterTable :=
  RecordedWalk.run (visitor h .sticky) (some o.opaqueClass) h.rootIds (64 * h.capacity)
    (Walk.start o.queueCapacity (.withRoom h.capacity))

/-- Gives an exported object the filter of its slot. -/
def recordExport (h : Heap) (o : BuildOptions) (r : RecordedWalk FilterTable)
    (e : ExportKey × ObjectId) : RecordedWalk FilterTable :=
  r.meet (visitor h (own o e.1)) (some o.opaqueClass) none e.2

/-- Both passes, turn by turn, with one record. -/
def spreadTurns (h : Heap) (exports : Exports) (o : BuildOptions) : RecordedWalk FilterTable :=
  RecordedWalk.turns (visitor h .empty) (some o.opaqueClass) (64 * h.capacity)
    (exports.liveObjects.foldl (recordExport h o) (stickyTurns h o))

theorem walk_recordExports {r : RecordedWalk FilterTable} (l : List (ExportKey × ObjectId)) :
    (l.foldl (recordExport h o) r).walk = l.foldl (meetExport h o) r.walk := by
  induction l generalizing r with
  | nil => rfl
  | cons e l ih =>
      rw [List.foldl_cons, ih, recordExport, RecordedWalk.walk_meet]
      rfl

/-- The work that is left does not depend on the filter that seeds are given. -/
theorem work_visitor (seed : BloomFilter) (w : Walk FilterTable) :
    w.work (visitor h seed) = room h w.marks + w.queue.length := rfl

theorem work_meetExports {w : Walk FilterTable} (l : List (ExportKey × ObjectId)) :
    (l.foldl (meetExport h o) w).work (visitor h seed) ≤ w.work (visitor h seed) := by
  induction l generalizing w with
  | nil => exact Nat.le_refl _
  | cons e l ih =>
      have spent := Walk.work_meet (visitor h (own o e.1)) (some o.opaqueClass) none w e.2
      rw [work_visitor, work_visitor, ← meetExport] at spent
      rw [List.foldl_cons]
      apply Nat.le_trans (ih (w := meetExport h o w e))
      rw [work_visitor, work_visitor]
      exact spent

theorem walk_stickyTurns (h : Heap) (o : BuildOptions) :
    (stickyTurns h o).walk = stickyWalk h o :=
  RecordedWalk.walk_run (work_le (Ring.toList_withCapacity o.queueCapacity))

theorem walk_spreadTurns (h : Heap) (exports : Exports) (o : BuildOptions) :
    (spreadTurns h exports o).walk = FilterTable.spread h exports o := by
  have start : (stickyWalk h o).work (visitor h .empty) ≤ 64 * h.capacity :=
    work_le (Walk.toList_queue_drain _)
  rw [spreadTurns, RecordedWalk.walk_turns, walk_recordExports, walk_stickyTurns]
  · rfl
  · rw [walk_recordExports, walk_stickyTurns]
    exact Nat.le_trans (work_meetExports exports.liveObjects) start

theorem account_recordExports {r : RecordedWalk FilterTable}
    (account : Account h (some o.opaqueClass) r.walk.marks r.record)
    (l : List (ExportKey × ObjectId)) :
    Account h (some o.opaqueClass) (l.foldl (recordExport h o) r).walk.marks
      (l.foldl (recordExport h o) r).record := by
  induction l generalizing r with
  | nil => exact account
  | cons e l ih =>
      have given : (own o e.1).Seeded :=
        .inr (Nat.le_of_eq (BloomFilter.popCount_singleton _ o.bloomSeed).symm)
      exact ih ((keeps_account given).meet account none e.2)

theorem account_spreadTurns (h : Heap) (exports : Exports) (o : BuildOptions) :
    Account h (some o.opaqueClass) (spreadTurns h exports o).walk.marks
      (spreadTurns h exports o).record := by
  have full : BloomFilter.sticky.Seeded := .inr (by decide)
  have bare : BloomFilter.empty.Seeded := .inl (by decide)
  have first : Account h (some o.opaqueClass) (stickyTurns h o).walk.marks (stickyTurns h o).record :=
    (keeps_account full).run (account_withRoom h.capacity) h.rootIds (64 * h.capacity)
  exact (keeps_account bare).turns (account_recordExports first exports.liveObjects) _

end Passes

end FilterTable

namespace EdgeGraph

/-- The walk from the roots for the exact graph, turn by turn. -/
def rootTurns (h : Heap) (o : BuildOptions) : RecordedWalk Survey :=
  RecordedWalk.run (Survey.visitor h {}) (some o.opaqueClass) h.rootIds h.capacity
    (Walk.start o.queueCapacity { marks := .withRoom h.capacity })

/-- The exact graph when the walks from `earlier` are over. -/
def draft (h : Heap) (imports : Imports) (o : BuildOptions) (earlier : List (ExportKey × ObjectId)) :
    Draft :=
  earlier.foldl (Draft.addExport h o.opaqueClass (rootWalk h o).marks.marks (proxySlots h imports))
    { graph := { root := rootSlots h imports o }, queue := (rootWalk h o).queue }

/-- The walk from one more exported object, turn by turn. -/
def exportTurns (h : Heap) (imports : Imports) (o : BuildOptions)
    (earlier : List (ExportKey × ObjectId)) (e : ExportKey × ObjectId) : RecordedWalk Survey :=
  RecordedWalk.run (Survey.visitor h (rootWalk h o).marks.marks) (some o.opaqueClass) [e.2] h.capacity
    { queue := (draft h imports o earlier).queue, marks := { marks := .withRoom h.capacity } }

variable {h : Heap} {imports : Imports} {o : BuildOptions}

theorem draft_concat (earlier : List (ExportKey × ObjectId)) (e : ExportKey × ObjectId) :
    draft h imports o (earlier ++ [e]) =
      (draft h imports o earlier).addExport h o.opaqueClass (rootWalk h o).marks.marks
        (proxySlots h imports) e := List.foldl_append

theorem toList_queue_draft (earlier : List (ExportKey × ObjectId)) :
    (draft h imports o earlier).queue.toList = [] := by
  induction earlier using List.reverseRecOn with
  | nil => exact Walk.toList_queue_drain _
  | append_singleton earlier e =>
      rw [draft_concat]
      exact Walk.toList_queue_drain _

/-- A walk from an exported object is over after as many turns as there are cells, and has queued no
object twice. -/
theorem exportTurns_once (h : Heap) (imports : Imports) (o : BuildOptions)
    (earlier : List (ExportKey × ObjectId)) (e : ExportKey × ObjectId) :
    (exportTurns h imports o earlier e).walk =
        Walk.run (Survey.visitor h (rootWalk h o).marks.marks) (some o.opaqueClass) [e.2]
          { queue := (draft h imports o earlier).queue
            marks := { marks := .withRoom h.capacity } } ∧
      ∀ x, Queueing.times (exportTurns h imports o earlier e).record x ≤ 1 :=
  Survey.run_once (toList_queue_draft earlier) [e.2]

theorem rootTurns_once (h : Heap) (o : BuildOptions) :
    (rootTurns h o).walk = rootWalk h o ∧ ∀ x, Queueing.times (rootTurns h o).record x ≤ 1 :=
  Survey.run_once (Ring.toList_withCapacity o.queueCapacity) h.rootIds

/-- Both graphs are built in finitely many turns, whatever the heap, the tables and the options. The
exact one takes one walk from the roots and one from each exported object, which end after as many turns
as the heap has cells and queue no object twice. The approximate one takes two passes of 64 turns for
each cell at the most; in both together every queueing is paid for by new bits of a filter, and no
object is queued more than 60 times. -/
theorem turns_suffice (h : Heap) (exports : Exports) (imports : Imports) (o : BuildOptions) :
    ((rootTurns h o).walk = rootWalk h o ∧ (rootTurns h o).walk.queue.toList = [] ∧
      ∀ x, Queueing.times (rootTurns h o).record x ≤ 1) ∧
    (∀ earlier e, let r := exportTurns h imports o earlier e
      draft h imports o (earlier ++ [e]) =
        { graph := (draft h imports o earlier).graph.insert e.1
            (r.walk.marks.found.filterMap (proxySlots h imports).find?)
          queue := r.walk.queue } ∧
      r.walk.queue.toList = [] ∧ ∀ x, Queueing.times r.record x ≤ 1) ∧
    (exact h exports imports o).answer = (draft h imports o exports.liveObjects).graph ∧
    (let first := FilterTable.stickyTurns h o
      let last := FilterTable.spreadTurns h exports o
      first.walk.queue.toList = [] ∧ last.walk = FilterTable.spread h exports o ∧
      last.walk.queue.toList = [] ∧ FilterTable.Paid last.record ∧
      ∀ x, Queueing.times last.record x ≤ 60) := by
  refine ⟨?_, fun earlier e => ?_, rfl, ?_⟩
  · obtain ⟨walk, single⟩ := rootTurns_once h o
    refine ⟨walk, ?_, single⟩
    rw [walk]
    exact Walk.toList_queue_drain _
  · obtain ⟨walk, single⟩ := exportTurns_once h imports o earlier e
    refine ⟨?_, ?_, single⟩
    · rw [walk, draft_concat]
      rfl
    · rw [walk]
      exact Walk.toList_queue_drain _
  · have account := FilterTable.account_spreadTurns h exports o
    refine ⟨?_, FilterTable.walk_spreadTurns h exports o, ?_, account.paid, account.times_le⟩
    · rw [FilterTable.walk_stickyTurns]
      exact Walk.toList_queue_drain _
    · rw [FilterTable.walk_spreadTurns]
      exact Walk.toList_queue_drain _

end EdgeGraph

end TwinHeap
