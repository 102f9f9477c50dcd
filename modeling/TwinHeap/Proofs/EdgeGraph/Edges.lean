import TwinHeap.EdgeGraph
import TwinHeap.Heap.Path
import TwinHeap.Proofs.Table.ExportSlots
import TwinHeap.Proofs.Table.ImportSlots

/-! What a graph says of the heap that it was built from. A builder goes through the exported slots
and enters the successors of each of them. -/
namespace TwinHeap.EdgeGraph

variable {g f : EdgeGraph} {k i : ExportKey} {j : ImportKey} {js : List ImportKey}

theorem successors?_insert (g : EdgeGraph) (k i : ExportKey) (js : List ImportKey) :
    (g.insert k js).successors? i =
      if k = i ∧ js.isEmpty = false then some js else g.successors? i := by
  unfold insert
  cases empty : js.isEmpty with
  | true => simp
  | false => simp [successors?]

theorem root_insert (g : EdgeGraph) (k : ExportKey) (js : List ImportKey) :
    (g.insert k js).root = g.root := by
  unfold insert
  split <;> rfl

theorem mem_edges : (k, js) ∈ g.edges.entries ↔ g.successors? k = some js :=
  Assoc.find?_eq_some_iff.symm

theorem mem_keys : k ∈ g.edges.keys ↔ ∃ js, g.successors? k = some js := by
  constructor
  · intro member
    obtain ⟨e, listed, rfl⟩ := List.mem_map.1 member
    exact ⟨e.2, mem_edges.1 listed⟩
  · rintro ⟨js, found⟩
    exact List.mem_map.2 ⟨(k, js), mem_edges.2 found, rfl⟩

section Covers

/-- The graph has an edge from an exported slot to an imported one. -/
def Joins (g : EdgeGraph) (k : ExportKey) (j : ImportKey) : Prop :=
  ∃ js, g.successors? k = some js ∧ j ∈ js

/-- Every root and every edge of `f` is one of `g`. -/
structure Includes (g f : EdgeGraph) : Prop where
  root : ∀ j ∈ f.root, j ∈ g.root
  edge : ∀ k j, f.Joins k j → g.Joins k j

theorem Joins.mem_keys (joins : g.Joins k j) : k ∈ g.edges.keys := by
  obtain ⟨js, found, -⟩ := joins
  exact EdgeGraph.mem_keys.2 ⟨js, found⟩

/-- The test looks up one recorded slot after the other. -/
theorem covers_iff_entries : g.covers f = true ↔ (∀ j ∈ f.root, j ∈ g.root) ∧
    ∀ k js, f.successors? k = some js → ∃ is, g.successors? k = some is ∧ ∀ j ∈ js, j ∈ is := by
  rw [covers, Bool.and_eq_true, List.all_eq_true, List.all_eq_true]
  apply and_congr
  · simp only [List.contains_iff_mem]
  · constructor
    · intro all k js found
      have entry := all (k, js) (mem_edges.2 found)
      dsimp only at entry
      cases known : g.successors? k with
      | none =>
          rw [known] at entry
          cases entry
      | some is =>
          rw [known, List.all_eq_true] at entry
          exact ⟨is, rfl, fun j member => List.contains_iff_mem.1 (entry j member)⟩
    · intro all e listed
      obtain ⟨is, known, sub⟩ := all e.1 e.2 (mem_edges.1 listed)
      rw [known, List.all_eq_true]
      intro j member
      exact List.contains_iff_mem.2 (sub j member)

/-- Roots, edges and recorded slots are compared, each as a set. -/
theorem covers_iff_keys : g.covers f = true ↔
    g.Includes f ∧ ∀ k ∈ f.edges.keys, k ∈ g.edges.keys := by
  rw [covers_iff_entries]
  constructor
  · rintro ⟨root, entries⟩
    refine ⟨⟨root, ?_⟩, ?_⟩
    · rintro k j ⟨js, found, member⟩
      obtain ⟨is, known, sub⟩ := entries k js found
      exact ⟨is, known, sub j member⟩
    · intro k member
      obtain ⟨js, found⟩ := mem_keys.1 member
      obtain ⟨is, known, -⟩ := entries k js found
      exact mem_keys.2 ⟨is, known⟩
  · rintro ⟨includes, keys⟩
    refine ⟨includes.root, fun k js found => ?_⟩
    obtain ⟨is, known⟩ := mem_keys.1 (keys k (mem_keys.2 ⟨js, found⟩))
    refine ⟨is, known, fun j member => ?_⟩
    obtain ⟨is', known', listed⟩ := includes.edge k j ⟨js, found, member⟩
    rw [known] at known'
    cases known'
    exact listed

end Covers

section Entered

variable {S : ExportKey → List ImportKey → Prop} {A : ExportKey → ImportKey → Prop}
variable {root : List ImportKey} {ks : List ExportKey}

/-- The slots in `ks` have been gone through in their order. Each had a list with `S`, which is
recorded if there is something in it. -/
structure Entered (S : ExportKey → List ImportKey → Prop) (root : List ImportKey)
    (ks : List ExportKey) (g : EdgeGraph) : Prop where
  root : g.root = root
  keys : g.edges.keys.Sublist ks
  recorded : ∀ k js, g.successors? k = some js → js ≠ [] ∧ S k js
  absent : ∀ k ∈ ks, g.successors? k = none → S k []

theorem entered_start (root : List ImportKey) : Entered S root [] { root } where
  root := rfl
  keys := List.Sublist.slnil
  recorded := fun _ _ found => nomatch found
  absent := fun _ member => nomatch member

theorem Entered.insert (entered : Entered S root ks g) (shape : S k js) :
    Entered S root (ks ++ [k]) (g.insert k js) where
  root := (root_insert g k js).trans entered.root
  keys := by
    have old := entered.keys.trans (List.sublist_append_left ks [k])
    unfold EdgeGraph.insert
    split
    · exact old
    · rw [Assoc.keys_insert]
      split
      · exact old
      · exact entered.keys.append (List.Sublist.refl [k])
  recorded := fun i is found => by
    rw [successors?_insert] at found
    split at found
    · rename_i here
      cases found
      obtain ⟨rfl, full⟩ := here
      refine ⟨?_, shape⟩
      intro none
      rw [none] at full
      cases full
    · exact entered.recorded i is found
  absent := fun i member none => by
    rw [successors?_insert] at none
    split at none
    · cases none
    · rename_i elsewhere
      rcases List.mem_append.1 member with old | last
      · exact entered.absent i old none
      · cases List.mem_singleton.1 last
        cases js with
        | nil => exact shape
        | cons j js => exact (elsewhere ⟨rfl, rfl⟩).elim

/-- A builder that enters the successors of one slot at each step. `Inv` is what its other state
keeps to. -/
theorem entered_foldl {σ : Type} (graph : σ → EdgeGraph) (step : σ → ExportKey × ObjectId → σ)
    (Inv : σ → Prop) {l : List (ExportKey × ObjectId)}
    (steps : ∀ d, ∀ e ∈ l, Inv d → Inv (step d e) ∧
      ∃ js, graph (step d e) = (graph d).insert e.1 js ∧ S e.1 js)
    {d : σ} (inv : Inv d) (entered : Entered S root ks (graph d)) :
    Entered S root (ks ++ l.map Prod.fst) (graph (l.foldl step d)) := by
  induction l generalizing d ks with
  | nil =>
      rw [List.map_nil, List.append_nil]
      exact entered
  | cons e l ih =>
      obtain ⟨next, js, same, shape⟩ := steps d e List.mem_cons_self inv
      have now : Entered S root (ks ++ [e.1]) (graph (step d e)) := same ▸ entered.insert shape
      have later := ih (fun d x member => steps d x (List.mem_cons_of_mem e member)) next now
      rwa [List.append_assoc] at later

/-- The successors of the slots in `ks` are as `A` has them. No other slot has any. -/
structure Lists (A : ExportKey → ImportKey → Prop) (ks : List ExportKey) (g : EdgeGraph) : Prop where
  sound : ∀ k js, g.successors? k = some js → k ∈ ks ∧ ∀ j ∈ js, A k j
  complete : ∀ k j, k ∈ ks → A k j → ∃ js, g.successors? k = some js ∧ j ∈ js

theorem Entered.mem_ks (entered : Entered S root ks g) (found : g.successors? k = some js) :
    k ∈ ks :=
  entered.keys.subset (mem_keys.2 ⟨js, found⟩)

theorem Entered.lists (entered : Entered S root ks g)
    (members : ∀ k js, S k js → ∀ j, j ∈ js ↔ A k j) : Lists A ks g where
  sound := fun k js found => by
    refine ⟨entered.mem_ks found, fun j member => ?_⟩
    exact (members k js (entered.recorded k js found).2 j).1 member
  complete := fun k j member holds => by
    cases found : g.successors? k with
    | none => exact nomatch (members k [] (entered.absent k member found) j).2 holds
    | some js => exact ⟨js, rfl, (members k js (entered.recorded k js found).2 j).2 holds⟩

end Entered

section Shows

open Rows (Ascending)

variable {R R' : ImportKey → Prop} {B B' : ExportKey → ImportKey → Prop}

/-- A graph whose root is the slots in `R`, and whose successors are the pairs in `B`. Nothing is
listed twice, and a slot without successors is not recorded. -/
structure Shows (R : ImportKey → Prop) (B : ExportKey → ImportKey → Prop) (g : EdgeGraph) :
    Prop where
  root : ∀ j, j ∈ g.root ↔ R j
  root_ascending : Ascending g.root
  keys : ∀ k, k ∈ g.edges.keys ↔ ∃ j, B k j
  keys_ascending : Ascending g.edges.keys
  successors : ∀ k js, g.successors? k = some js → js.Nodup ∧ ∀ j, j ∈ js ↔ B k j

/-- A pair is listed exactly if it is in `B`. -/
theorem Shows.listed (mine : g.Shows R B) : g.Joins k j ↔ B k j := by
  constructor
  · rintro ⟨js, found, member⟩
    exact ((mine.successors k js found).2 j).1 member
  · intro holds
    obtain ⟨js, found⟩ := mem_keys.1 ((mine.keys k).2 ⟨j, holds⟩)
    exact ⟨js, found, ((mine.successors k js found).2 j).2 holds⟩

theorem Entered.shows {S : ExportKey → List ImportKey → Prop} {root : List ImportKey}
    {ks : List ExportKey} (entered : Entered S root ks g) (roots : ∀ j, j ∈ root ↔ R j)
    (root_ascending : Ascending root) (ks_ascending : Ascending ks)
    (inside : ∀ k j, B k j → k ∈ ks)
    (shape : ∀ k ∈ ks, ∀ js, S k js → js.Nodup ∧ ∀ j, j ∈ js ↔ B k j) : g.Shows R B where
  root := fun j => entered.root ▸ roots j
  root_ascending := entered.root ▸ root_ascending
  keys := fun k => by
    constructor
    · intro member
      obtain ⟨js, found⟩ := mem_keys.1 member
      obtain ⟨full, holds⟩ := entered.recorded k js found
      obtain ⟨j, first⟩ := List.exists_mem_of_ne_nil js full
      exact ⟨j, ((shape k (entered.mem_ks found) js holds).2 j).1 first⟩
    · rintro ⟨j, holds⟩
      have member := inside k j holds
      cases found : g.successors? k with
      | none => exact nomatch ((shape k member [] (entered.absent k member found)).2 j).2 holds
      | some js => exact mem_keys.2 ⟨js, found⟩
  keys_ascending := ks_ascending.sublist entered.keys
  successors := fun k js found =>
    shape k (entered.mem_ks found) js (entered.recorded k js found).2

/-- One graph covers another if it shows no less. -/
theorem Shows.covers_iff {g' : EdgeGraph} (mine : g.Shows R B) (theirs : g'.Shows R' B') :
    g.covers g' = true ↔ (∀ j, R' j → R j) ∧ ∀ k j, B' k j → B k j := by
  rw [covers_iff_keys]
  constructor
  · rintro ⟨includes, -⟩
    refine ⟨fun j rooted => ?_, fun k j holds => ?_⟩
    · exact (mine.root j).1 (includes.root j ((theirs.root j).2 rooted))
    · exact mine.listed.1 (includes.edge k j (theirs.listed.2 holds))
  · rintro ⟨roots, edges⟩
    refine ⟨⟨fun j member => ?_, fun k j joins => ?_⟩, fun k member => ?_⟩
    · exact (mine.root j).2 (roots j ((theirs.root j).1 member))
    · exact mine.listed.2 (edges k j (theirs.listed.1 joins))
    · obtain ⟨j, holds⟩ := (theirs.keys k).1 member
      exact (mine.keys k).2 ⟨j, edges k j holds⟩

end Shows

section Meaning

variable {h : Heap} {exports : Exports} {imports : Imports} {c : ObjectClass}

/-- A graph speaks of exported objects and of live proxies only. -/
structure Named (h : Heap) (exports : Exports) (imports : Imports) (g : EdgeGraph) : Prop where
  root : ∀ j ∈ g.root, ∃ p, imports.proxy? h j = some p
  edge : ∀ k js, g.successors? k = some js →
    (∃ o, exports.entry? k = some (.live o)) ∧ ∀ j ∈ js, ∃ p, imports.proxy? h j = some p

/-- A graph misses no proxy that an exported object or a root reaches. -/
structure Covering (c : ObjectClass) (h : Heap) (exports : Exports) (imports : Imports)
    (g : EdgeGraph) : Prop where
  root : ∀ j p, imports.proxy? h j = some p → h.Rooted (some c) p → j ∈ g.root
  edge : ∀ k o j p, exports.entry? k = some (.live o) → imports.proxy? h j = some p →
    h.Path (some c) o p → j ∈ g.root ∨ ∃ js, g.successors? k = some js ∧ j ∈ js

/-- A graph lists no proxy where it is not reached. -/
structure Faithful (c : ObjectClass) (h : Heap) (exports : Exports) (imports : Imports)
    (g : EdgeGraph) : Prop where
  root : ∀ j ∈ g.root, ∃ p, imports.proxy? h j = some p ∧ h.Rooted (some c) p
  edge : ∀ k js, g.successors? k = some js → ∀ j ∈ js,
    ∃ o p, exports.entry? k = some (.live o) ∧ imports.proxy? h j = some p ∧
      h.Path (some c) o p

end Meaning

end TwinHeap.EdgeGraph
