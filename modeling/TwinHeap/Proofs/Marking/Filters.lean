import Mathlib.Data.List.Perm.Subperm
import TwinHeap.Proofs.Marking.Positions

/-! Filters are ordered by their bits, and merging into a table only ever adds to it. -/
namespace TwinHeap

namespace BloomFilter

variable {f g k : BloomFilter}

theorem includes_iff :
    f.includes g = true ↔ ∀ i, g.testBit i = true → f.testBit i = true := by
  rw [includes, beq_iff_eq]
  constructor
  · intro same i set
    have union : f.union g = f := congrArg BloomFilter.mk same
    have bit := testBit_union f g i
    rwa [union, set, Bool.or_true] at bit
  · intro sub
    have union : f.union g = f := by
      apply ext_testBit
      intro i _
      rw [testBit_union]
      cases set : g.testBit i with
      | false => exact Bool.or_false _
      | true => rw [Bool.or_true, sub i set]
    exact congrArg bits union

theorem includes_refl (f : BloomFilter) : f.includes f = true :=
  includes_iff.2 fun _ set => set

theorem includes_trans (first : f.includes g = true) (next : g.includes k = true) :
    f.includes k = true :=
  includes_iff.2 fun i set => includes_iff.1 first i (includes_iff.1 next i set)

theorem includes_union_left (f g : BloomFilter) : (f.union g).includes f = true :=
  includes_iff.2 fun i set => by rw [testBit_union, set, Bool.true_or]

theorem includes_union_right (f g : BloomFilter) : (f.union g).includes g = true :=
  includes_iff.2 fun i set => by rw [testBit_union, set, Bool.or_true]

theorem includes_empty (f : BloomFilter) : f.includes .empty = true := by
  apply includes_iff.2
  intro i set
  rw [testBit_empty] at set
  cases set

theorem isSticky_iff : f.isSticky = true ↔ f = .sticky := by
  constructor
  · intro all
    rw [isSticky, beq_iff_eq] at all
    exact congrArg BloomFilter.mk all
  · rintro rfl
    rfl

theorem testBit_sticky {i : Nat} (below : i < 64) : sticky.testBit i = true := by
  have every : ∀ i, i < 64 → sticky.testBit i = true := by decide
  exact every i below

theorem isSticky_of_includes (all : f.includes .sticky = true) : f.isSticky = true := by
  apply isSticky_iff.2
  apply ext_testBit
  intro i below
  have set := testBit_sticky below
  rw [set, includes_iff.1 all i set]

/-- What all filters of a list have together. -/
def unions (l : List BloomFilter) : BloomFilter := l.foldr union empty

theorem testBit_unions {l : List BloomFilter} {i : Nat} :
    (unions l).testBit i = true ↔ ∃ f ∈ l, f.testBit i = true := by
  induction l with
  | nil =>
      rw [unions, List.foldr_nil, testBit_empty]
      constructor
      · intro set
        cases set
      · rintro ⟨f, member, -⟩
        cases member
  | cons g l ih =>
      rw [unions, List.foldr_cons, testBit_union, Bool.or_eq_true, List.exists_mem_cons_iff]
      exact or_congr Iff.rfl ih

/-- The first bit that is drawn for an element is set. -/
theorem exists_testBit_singleton (x seed : UInt64) : ∃ i, (singleton x seed).testBit i = true :=
  ⟨(x ^^^ seed).toNat % width, testBit_singleton.2 List.mem_cons_self⟩

/-- A filter has no more bits than a list that names all of them. -/
theorem popCount_le_length {l : List Nat} (named : ∀ i, f.testBit i = true → i ∈ l) :
    f.popCount ≤ l.length := by
  rw [popCount, bitCount, List.countP_eq_length_filter]
  apply List.Subperm.length_le
  apply List.subperm_of_subset (List.nodup_range.filter _)
  intro i member
  exact named i (List.mem_filter.1 member).2

theorem popCount_le (f : BloomFilter) : f.popCount ≤ width :=
  Nat.le_trans List.countP_le_length (Nat.le_of_eq List.length_range)

theorem popCount_mono (sub : f.includes g = true) : g.popCount ≤ f.popCount :=
  List.countP_mono_left fun i _ set => includes_iff.1 sub i set

theorem popCount_lt (sub : f.includes g = true) {i : Nat} (set : f.testBit i = true)
    (clear : g.testBit i = false) : g.popCount < f.popCount :=
  countP_lt_countP (fun i _ set => includes_iff.1 sub i set)
    (List.mem_range.2 (lt_of_testBit set)) set clear

/-- Together, elements have at most as many bits as they draw. -/
theorem popCount_unions_singleton_le (l : List UInt64) (seed : UInt64) :
    (unions (l.map fun x => singleton x seed)).popCount ≤ hashes * l.length := by
  let drawn := l.flatMap fun x => positions x seed
  have total : drawn.length = hashes * l.length := by
    simp [drawn, List.length_flatMap, length_positions, Nat.mul_comm]
  rw [← total]
  apply popCount_le_length
  intro i set
  obtain ⟨f, listed, bit⟩ := testBit_unions.1 set
  obtain ⟨x, member, rfl⟩ := List.mem_map.1 listed
  exact List.mem_flatMap.2 ⟨x, member, testBit_singleton.1 bit⟩

/-- A filter that has an element is not empty. -/
theorem isEmpty_of_includes {x seed : UInt64} (member : f.includes (singleton x seed) = true) :
    f.isEmpty = false := by
  obtain ⟨i, first⟩ := exists_testBit_singleton x seed
  have set := includes_iff.1 member i first
  cases empty : f.isEmpty with
  | false => rfl
  | true =>
      have zero : f.bits = 0 := by simpa only [isEmpty, beq_iff_eq] using empty
      rw [testBit, zero, UInt64.toNat_zero, Nat.zero_testBit] at set
      cases set

section Elements

variable {x seed : UInt64}

theorem contains_iff : f.contains x seed = true ↔ ∀ i ∈ positions x seed, f.testBit i = true := by
  rw [contains, includes_iff]
  simp only [testBit_singleton]

/-- Inserts several elements. -/
def insertAll (f : BloomFilter) (seed : UInt64) (xs : List UInt64) : BloomFilter :=
  xs.foldl (fun f x => f.insert x seed) f

/-- A bit is an old one or a bit of an element that was inserted. -/
theorem testBit_insertAll {xs : List UInt64} {i : Nat} :
    (f.insertAll seed xs).testBit i = true ↔
      f.testBit i = true ∨ ∃ x ∈ xs, i ∈ positions x seed := by
  induction xs generalizing f with
  | nil =>
      constructor
      · exact .inl
      · intro either
        rcases either with old | ⟨x, member, -⟩
        · exact old
        · cases member
  | cons x xs ih =>
      have next := ih (f := f.insert x seed)
      rw [testBit_insert, or_assoc] at next
      rw [List.exists_mem_cons_iff]
      exact next

/-- Every element has five bits, which are distinct numbers below 64; they are its draws after the
passes that lift the later ones past the earlier. Inserting the element sets these bits and no others.
Whatever two filters began with, their union has every element that was inserted into one of them with
the seed of both. -/
theorem bits_of_elements (x seed : UInt64) :
    positions x seed = (List.range 5).reverse.foldl liftPast (draws 5 64 (x ^^^ seed)) ∧
    (positions x seed).length = 5 ∧ (positions x seed).Nodup ∧
    (∀ p ∈ positions x seed, p < 64) ∧
    (∀ i, (singleton x seed).testBit i = true ↔ i ∈ positions x seed) ∧
    (singleton x seed).popCount = 5 ∧
    (∀ f : BloomFilter, f.insert x seed = f.union (singleton x seed)) ∧
    ∀ (f g : BloomFilter) (xs ys : List UInt64), x ∈ xs ++ ys →
      ((f.insertAll seed xs).union (g.insertAll seed ys)).contains x seed = true := by
  refine ⟨?_, length_positions x seed, nodup_positions x seed, fun _ => lt_of_mem_positions,
    fun _ => testBit_singleton, popCount_singleton x seed, fun f => insert_eq_union f x seed, ?_⟩
  · have passes := spread_eq_foldl (draws 5 64 (x ^^^ seed))
    rw [length_draws] at passes
    exact passes
  · intro f g xs ys inserted
    apply contains_iff.2
    intro i bit
    rw [testBit_union, Bool.or_eq_true, testBit_insertAll, testBit_insertAll]
    rcases List.mem_append.1 inserted with left | right
    · exact .inl (.inr ⟨x, left, bit⟩)
    · exact .inr (.inr ⟨x, right, bit⟩)

theorem bits_of_elements_inserted :
    4 ∈ positions 3 7 ∧ 4 < 64 ∧ (3 : UInt64) ∈ [1, 2] ++ [3] ∧
      ((empty.insertAll 7 [1, 2]).union (empty.insertAll 7 [3])).contains 3 7 = true := by
  obtain ⟨-, -, -, below, -, -, -, inserted⟩ := bits_of_elements 3 7
  have first : 4 ∈ positions 3 7 := List.mem_cons_self
  have listed : (3 : UInt64) ∈ [1, 2] ++ [3] := by decide
  exact ⟨first, below 4 first, listed, inserted empty empty [1, 2] [3] listed⟩

end Elements

end BloomFilter

namespace FilterTable

variable {t : FilterTable} {f g : BloomFilter} {slot i : Nat}

theorem get_withRoom (slots slot : Nat) : (withRoom slots).get slot = .empty := by
  unfold get withRoom
  rw [Array.getElem?_replicate]
  split <;> rfl

theorem includes_get_merge (t : FilterTable) (slot i : Nat) (f : BloomFilter) :
    ((t.merge slot f).2.get i).includes (t.get i) = true := by
  rw [get_merge]
  split
  · rename_i same
    exact same ▸ BloomFilter.includes_union_left _ f
  · exact BloomFilter.includes_refl _

theorem includes_merged (t : FilterTable) (slot : Nat) (f : BloomFilter) :
    ((t.merge slot f).2.get slot).includes f = true := by
  rw [get_merge, if_pos rfl]
  exact BloomFilter.includes_union_right _ f

/-- A filter that has changed has one more bit. -/
theorem popCount_lt_of_changed (changed : (t.merge slot f).1 = true) :
    (t.get slot).popCount < ((t.merge slot f).2.get slot).popCount := by
  have gained : ¬ (t.get slot).includes ((t.get slot).union f) = true := by
    intro known
    rw [merge, if_pos known] at changed
    cases changed
  obtain ⟨i, bit⟩ := not_forall.1 (mt BloomFilter.includes_iff.2 gained)
  obtain ⟨set, clear⟩ := Classical.not_imp.1 bit
  rw [get_merge, if_pos rfl]
  exact BloomFilter.popCount_lt (BloomFilter.includes_union_left _ f) set (Bool.not_eq_true _ ▸ clear)

theorem merge_of_unchanged (unchanged : (t.merge slot f).1 = false) : (t.merge slot f).2 = t := by
  unfold merge at unchanged ⊢
  dsimp only at unchanged ⊢
  split at unchanged
  · rename_i known
    rw [if_pos known]
  · cases unchanged

end FilterTable

end TwinHeap
