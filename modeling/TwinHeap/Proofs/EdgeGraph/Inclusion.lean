import TwinHeap.Proofs.EdgeGraph.Edges
import TwinHeap.Proofs.EdgeGraph.Written

/-! When one graph covers another. Covering compares roots, edges and recorded slots. A graph that was
put together slot by slot records no slot without successors, and is covered as soon as its roots and
edges are there; a graph that was read from a text can record such slots, and they have to be recorded
on the other side too. -/
namespace TwinHeap.EdgeGraph

variable {f g h : EdgeGraph} {k : ExportKey} {j : ImportKey}

/-- The slot is recorded, but without successors. -/
def Bare (g : EdgeGraph) (k : ExportKey) : Prop := g.successors? k = some []

/-- Two graphs that differ only in the order and the repetition of what they list. -/
structure Alike (g h : EdgeGraph) : Prop where
  root : ∀ j, j ∈ g.root ↔ j ∈ h.root
  keys : ∀ k, k ∈ g.edges.keys ↔ k ∈ h.edges.keys
  edge : ∀ k j, g.Joins k j ↔ h.Joins k j

section Sets

theorem mem_keys_iff : k ∈ g.edges.keys ↔ g.Bare k ∨ ∃ j, g.Joins k j := by
  rw [EdgeGraph.mem_keys]
  constructor
  · rintro ⟨js, found⟩
    cases js with
    | nil => exact .inl found
    | cons j js => exact .inr ⟨j, _, found, List.mem_cons_self⟩
  · rintro (bare | ⟨j, js, found, -⟩)
    · exact ⟨[], bare⟩
    · exact ⟨js, found⟩

/-- A slot with successors is recorded wherever its edges are, so that only the others count. -/
theorem covers_iff_bare : g.covers h = true ↔
    g.Includes h ∧ ∀ k, h.Bare k → k ∈ g.edges.keys := by
  rw [covers_iff_keys]
  apply and_congr_right
  intro includes
  constructor
  · intro keys k bare
    exact keys k (mem_keys_iff.2 (.inl bare))
  · intro bares k member
    rcases mem_keys_iff.1 member with bare | ⟨j, joins⟩
    · exact bares k bare
    · exact (includes.edge k j joins).mem_keys

theorem covers_self (g : EdgeGraph) : g.covers g = true :=
  covers_iff_keys.2 ⟨⟨fun _ => id, fun _ _ => id⟩, fun _ => id⟩

theorem covers_trans (first : g.covers h = true) (next : h.covers f = true) :
    g.covers f = true := by
  obtain ⟨includes, keys⟩ := covers_iff_keys.1 first
  obtain ⟨includes', keys'⟩ := covers_iff_keys.1 next
  refine covers_iff_keys.2 ⟨⟨?_, ?_⟩, ?_⟩
  · exact fun j member => includes.root j (includes'.root j member)
  · exact fun k j joins => includes.edge k j (includes'.edge k j joins)
  · exact fun k member => keys k (keys' k member)

theorem Alike.covers (alike : g.Alike h) : g.covers h = true :=
  covers_iff_keys.2 ⟨⟨fun j => (alike.root j).2, fun k j => (alike.edge k j).2⟩,
    fun k => (alike.keys k).2⟩

theorem Alike.symm (alike : g.Alike h) : h.Alike g where
  root := fun j => (alike.root j).symm
  keys := fun k => (alike.keys k).symm
  edge := fun k j => (alike.edge k j).symm

theorem covers_congr {g' h' : EdgeGraph} (mine : g.Alike g') (theirs : h.Alike h') :
    g.covers h = g'.covers h' := by
  apply Bool.eq_iff_iff.2
  constructor
  · intro covered
    exact covers_trans mine.symm.covers (covers_trans covered theirs.covers)
  · intro covered
    exact covers_trans mine.covers (covers_trans covered theirs.symm.covers)

end Sets

section Assembled

/-- The graph with a given root into which successors have been entered slot by slot. -/
def assembled (root : List ImportKey) (calls : List (ExportKey × List ImportKey)) : EdgeGraph :=
  calls.foldl (fun g e => g.insert e.1 e.2) { root }

theorem not_bare_insert (none : ¬ g.Bare k) (i : ExportKey) (js : List ImportKey) :
    ¬ (g.insert i js).Bare k := by
  intro bare
  rw [Bare, successors?_insert] at bare
  split at bare
  · rename_i here
    cases bare
    cases here.2
  · exact none bare

theorem not_bare_assembled (root : List ImportKey) (calls : List (ExportKey × List ImportKey))
    (k : ExportKey) : ¬ (assembled root calls).Bare k := by
  have kept : ∀ g : EdgeGraph, ¬ g.Bare k →
      ¬ (calls.foldl (fun g e => g.insert e.1 e.2) g).Bare k := by
    induction calls with
    | nil => exact fun _ none => none
    | cons e calls ih => exact fun g none => ih (g.insert e.1 e.2) (not_bare_insert none e.1 e.2)
  exact kept { root } nofun

/-- Covering a graph that was put together slot by slot is inclusion. -/
theorem covers_assembled (g : EdgeGraph) (root : List ImportKey)
    (calls : List (ExportKey × List ImportKey)) :
    g.covers (assembled root calls) = true ↔ g.Includes (assembled root calls) := by
  rw [covers_iff_bare]
  exact and_iff_left fun k bare => (not_bare_assembled root calls k bare).elim

end Assembled

section Texts

variable {text text' : String} {before after : List (List Char × List ImportKey)}

/-- The members of a text that is read are admitted and denote the graph. -/
theorem denotes_of_document {ms : List (List Char × List ImportKey)} (document : Document text.toList ms)
    (read : ofText text = .ok h) : Admitted ms ∧ Denotes ms h := by
  obtain ⟨ns, document', admitted, denotes⟩ := ofText_eq_ok.1 read
  rw [Document.unique document document']
  exact ⟨admitted, denotes⟩

/-- One more member with a name of its own leaves the members admitted. -/
theorem Admitted.member (admitted : Admitted (before ++ after)) (fits : k.number < slotLimit)
    (fresh : Nat.toDigits 10 k.number ∉ (before ++ after).map Prod.fst) (js : List ImportKey) :
    Admitted (before ++ slotMember (k, js) :: after) := by
  have sub : ∀ m ∈ before ++ after, m ∈ before ++ slotMember (k, js) :: after := by
    intro m member
    rcases List.mem_append.1 member with early | late
    · exact List.mem_append_left _ early
    · exact List.mem_append_right _ (List.mem_cons_of_mem _ late)
  refine ⟨⟨?_, ?_⟩, ?_⟩
  · have distinct := admitted.distinct
    have swap : ((slotMember (k, js) :: (before ++ after)).map Prod.fst).Perm
        ((before ++ slotMember (k, js) :: after).map Prod.fst) := List.perm_middle.symm.map Prod.fst
    exact swap.nodup_iff.1 (List.nodup_cons.2 ⟨fresh, distinct⟩)
  · intro m member other
    rcases List.mem_append.1 member with early | late
    · exact admitted.numbered m (List.mem_append_left after early) other
    · rcases List.mem_cons.1 late with rfl | late
      · exact ⟨k.number, fits, rfl⟩
      · exact admitted.numbered m (List.mem_append_right before late) other
  · obtain ⟨m, member, name⟩ := List.mem_map.1 admitted.rooted
    exact List.mem_map.2 ⟨m, sub m member, name⟩

/-- A text with one more member for a slot that is not recorded yet is read as a graph with this slot
besides. -/
theorem ofText_member {js : List ImportKey} (document : Document text.toList (before ++ after))
    (read : ofText text = .ok h)
    (document' : Document text'.toList (before ++ slotMember (k, js) :: after))
    (fits : k.number < slotLimit) (fresh : k ∉ h.edges.keys) :
    ∃ h', ofText text' = .ok h' ∧ h'.root = h.root ∧ ∀ i is, h'.successors? i = some is ↔
      (i = k ∧ is = js) ∨ h.successors? i = some is := by
  obtain ⟨admitted, denotes⟩ := denotes_of_document document read
  have unnamed : Nat.toDigits 10 k.number ∉ (before ++ after).map Prod.fst := by
    intro named
    obtain ⟨⟨name, is⟩, member, rfl⟩ := List.mem_map.1 named
    exact fresh (EdgeGraph.mem_keys.2 ⟨is, denotes.successors?_eq_some.2 member⟩)
  have admitted' := admitted.member fits unnamed js
  obtain ⟨last, h', entered, finished⟩ := admitted'.exists_finish
  have denotes' : Denotes (before ++ slotMember (k, js) :: after) h' :=
    ((taken_nil.enterAll entered).finish finished).2
  have mem_iff : ∀ m, m ∈ before ++ slotMember (k, js) :: after ↔
      m = slotMember (k, js) ∨ m ∈ before ++ after := by
    intro m
    rw [List.mem_append, List.mem_cons, List.mem_append, or_left_comm]
  refine ⟨h', ofText_eq_ok.2 ⟨_, document', admitted', denotes'⟩, ?_, ?_⟩
  · have listed := (mem_iff _).2 (.inr denotes.root)
    exact (denotes'.root_eq admitted'.toWellNamed listed).symm
  · intro i is
    rw [denotes'.successors?_eq_some, denotes.successors?_eq_some, mem_iff]
    apply or_congr _ Iff.rfl
    constructor
    · intro same
      cases slotMember_inj (i, is) (k, js) same
      exact ⟨rfl, rfl⟩
    · rintro ⟨rfl, rfl⟩
      rfl

/-- One more slot without successors is one more slot that has to be recorded. -/
theorem covers_of_bare {h' : EdgeGraph} (root : h'.root = h.root)
    (entries : ∀ i is, h'.successors? i = some is ↔ (i = k ∧ is = []) ∨ h.successors? i = some is) :
    g.covers h' = true ↔ g.covers h = true ∧ k ∈ g.edges.keys := by
  have recorded : k ∈ g.edges.keys ↔ ∃ is, g.successors? k = some is ∧ ∀ j ∈ [], j ∈ is := by
    rw [EdgeGraph.mem_keys]
    simp
  rw [covers_iff_entries, covers_iff_entries, root, and_assoc]
  apply and_congr_right
  intro _
  rw [recorded]
  constructor
  · intro all
    exact ⟨fun i is found => all i is ((entries i is).2 (.inr found)),
      all k [] ((entries k []).2 (.inl ⟨rfl, rfl⟩))⟩
  · rintro ⟨all, here⟩ i is found
    rcases (entries i is).1 found with ⟨rfl, rfl⟩ | old
    · exact here
    · exact all i is old

end Texts

/-- Covering is inclusion of roots and edges, and of the slots that are recorded without successors.
Of graphs that were put together slot by slot there are none of these. Covering is reflexive and
transitive, and order and repetition do not matter. A text that names one more slot without successors
is covered if the other graph has that slot, and not otherwise. -/
theorem covers_exact (g h : EdgeGraph) :
    (g.covers h = true ↔ g.Includes h ∧ ∀ k, h.Bare k → k ∈ g.edges.keys) ∧
    (∀ root calls, g.covers (assembled root calls) = true ↔ g.Includes (assembled root calls)) ∧
    g.covers g = true ∧
    (∀ f, g.covers h = true → h.covers f = true → g.covers f = true) ∧
    (∀ g' h', g.Alike g' → h.Alike h' → g.covers h = g'.covers h') ∧
    ∀ text text' before after k, Document text.toList (before ++ after) → ofText text = .ok h →
      Document text'.toList (before ++ slotMember (k, []) :: after) → k.number < slotLimit →
      k ∉ h.edges.keys →
      ∃ h', ofText text' = .ok h' ∧
        (g.covers h' = true ↔ g.covers h = true ∧ k ∈ g.edges.keys) := by
  refine ⟨covers_iff_bare, covers_assembled g, covers_self g, fun _ => covers_trans,
    fun _ _ => covers_congr, ?_⟩
  intro text text' before after k document read document' fits fresh
  obtain ⟨h', read', root, entries⟩ := ofText_member document read document' fits fresh
  exact ⟨h', read', covers_of_bare root entries⟩

/-- A slot with successors and a slot without any. -/
def listedOnce : EdgeGraph where
  root := [⟨1⟩, ⟨2⟩]
  edges := ⟨[(⟨0⟩, [⟨3⟩, ⟨5⟩]), (⟨4⟩, [])], by decide⟩

/-- The same in another order and with repetitions. -/
def listedTwice : EdgeGraph where
  root := [⟨2⟩, ⟨1⟩, ⟨1⟩]
  edges := ⟨[(⟨4⟩, []), (⟨0⟩, [⟨5⟩, ⟨3⟩, ⟨3⟩])], by decide⟩

theorem listedOnce_alike : listedOnce.Alike listedTwice where
  root := fun j => by
    simp [listedOnce, listedTwice, or_comm]
  keys := fun k => by
    simp [listedOnce, listedTwice, Assoc.keys, or_comm]
  edge := fun k j => by
    simp [Joins, ← mem_edges, listedOnce, listedTwice, or_and_right, exists_or, and_assoc, or_comm]

/-- A slot without successors and nothing else. -/
def bareSlot : EdgeGraph where
  edges := ⟨[(⟨4⟩, [])], by decide⟩

theorem covers_exact_relisted :
    listedOnce.Alike listedTwice ∧ ({} : EdgeGraph).Alike {} ∧
    listedOnce.covers bareSlot = true ∧ bareSlot.covers {} = true ∧ listedOnce.covers {} = true ∧
    listedOnce.covers {} = listedTwice.covers {} ∧
    Document (toText {}).toList ([(rootName, [])] ++ []) ∧ ofText (toText {}) = .ok {} ∧
    Document bareSlot.toText.toList ([(rootName, [])] ++ slotMember (⟨4⟩, []) :: []) ∧
    ∃ h', ofText bareSlot.toText = .ok h' ∧
      (listedOnce.covers h' = true ↔ listedOnce.covers {} = true ∧ ⟨4⟩ ∈ listedOnce.edges.keys) := by
  have none : Fitting {} := by decide
  have one : bareSlot.Fitting := by decide
  have alike : ({} : EdgeGraph).Alike {} := ⟨fun _ => Iff.rfl, fun _ => Iff.rfl, fun _ _ => Iff.rfl⟩
  have document : Document (toText {}).toList ([(rootName, [])] ++ []) := by
    rw [toText, String.toList_ofList]
    exact document_toChars none
  have document' : Document bareSlot.toText.toList
      ([(rootName, [])] ++ slotMember (⟨4⟩, []) :: []) := by
    rw [toText, String.toList_ofList]
    exact document_toChars one
  obtain ⟨-, -, -, through, -, -⟩ := covers_exact listedOnce bareSlot
  obtain ⟨-, -, -, -, congr, texts⟩ := covers_exact listedOnce {}
  have first : listedOnce.covers bareSlot = true := by decide
  have next : bareSlot.covers {} = true := by decide
  exact ⟨listedOnce_alike, alike, first, next, through {} first next,
    congr listedTwice {} listedOnce_alike alike, document, ofText_toText none, document',
    texts _ _ _ _ ⟨4⟩ document (ofText_toText none) document' (by decide) (by decide)⟩

/-- A slot that is named in a text without successors is missed by a graph that has every root and
every edge of the text. -/
theorem bare_slot_not_covered :
    ofText "\x7b\"root\":[]\x7d" = .ok {} ∧
    ofText "\x7b\"root\":[],\"4\":[]\x7d" = .ok bareSlot ∧
      Includes {} bareSlot ∧ covers {} {} = true ∧ covers {} bareSlot = false := by
  have none : Fitting {} := by decide
  have one : bareSlot.Fitting := by decide
  have text : toText {} = "\x7b\"root\":[]\x7d" := rfl
  have text' : bareSlot.toText = "\x7b\"root\":[],\"4\":[]\x7d" := rfl
  refine ⟨text ▸ ofText_toText none, text' ▸ ofText_toText one, ⟨nofun, ?_⟩, rfl, rfl⟩
  rintro k j ⟨js, found, member⟩
  cases List.mem_singleton.1 (mem_edges.2 found)
  cases member

end TwinHeap.EdgeGraph
