import TwinHeap.Marking.SlotSet

/-! Sets of numbers summed up in 64 bits. An element that was inserted is always found; one that was
not may be found too. The filter with all bits set contains everything and is called sticky. -/
namespace TwinHeap

structure BloomFilter where
  bits : UInt64 := 0
  deriving DecidableEq

namespace BloomFilter

def width : Nat := 64

/-- How many bits one element sets. -/
def hashes : Nat := 5

def empty : BloomFilter := ⟨0⟩
def sticky : BloomFilter := ⟨0xffffffffffffffff⟩

/-- The step between the seeds of two generations of filters. Filters of different seeds do not
belong together. -/
def nextSeed (seed : UInt64) : UInt64 :=
  let x := seed ^^^ (seed <<< 29)
  let x := x ^^^ (x >>> 27)
  x ^^^ (x <<< 37)

def scramble (x : UInt64) : UInt64 :=
  let x := x ^^^ (x <<< 12)
  let x := x ^^^ (x >>> 3)
  x ^^^ (x <<< 13)

/-- Draws one number below each of `range`, `range - 1`, and so on. -/
def draws : Nat → Nat → UInt64 → List Nat
  | 0, _, _ => []
  | count + 1, range, x => x.toNat % range :: draws count (range - 1) (scramble x)

/-- Turns draws from shrinking ranges into distinct numbers: each later one steps over the earlier. -/
def spread : List Nat → List Nat
  | [] => []
  | y :: ys => y :: (spread ys).map fun z => if y ≤ z then z + 1 else z

/-- The bits of an element. -/
def positions (x seed : UInt64) : List Nat := spread (draws hashes width (x ^^^ seed))

def insert (f : BloomFilter) (x seed : UInt64) : BloomFilter :=
  ⟨(positions x seed).foldl (fun w i => w ||| SlotSet.bit i) f.bits⟩

def singleton (x seed : UInt64) : BloomFilter := empty.insert x seed

def union (f g : BloomFilter) : BloomFilter := ⟨f.bits ||| g.bits⟩

/-- Whether every bit of `g` is set in `f`. -/
def includes (f g : BloomFilter) : Bool := f.bits ||| g.bits == f.bits

def contains (f : BloomFilter) (x seed : UInt64) : Bool := f.includes (singleton x seed)

def isEmpty (f : BloomFilter) : Bool := f.bits == 0

def isSticky (f : BloomFilter) : Bool := f.bits == sticky.bits

def popCount (f : BloomFilter) : Nat := bitCount f.bits

/-- All 64 binary digits. -/
def text (f : BloomFilter) : String :=
  String.ofList ((List.range width).map fun i =>
    if f.bits.toNat.testBit (width - 1 - i) then '1' else '0')

def testBit (f : BloomFilter) (i : Nat) : Bool := f.bits.toNat.testBit i

theorem testBit_union (f g : BloomFilter) (i : Nat) :
    (f.union g).testBit i = (f.testBit i || g.testBit i) := by
  simp [union, testBit]

theorem union_eq_of_includes {f g : BloomFilter} (h : f.includes (f.union g) = true) :
    f.union g = f := by
  obtain ⟨a⟩ := f
  obtain ⟨b⟩ := g
  simp only [includes, union, beq_iff_eq, ← UInt64.or_assoc, UInt64.or_self] at h
  simp only [union, h]

theorem lt_of_testBit {f : BloomFilter} {i : Nat} (set : f.testBit i = true) : i < 64 := by
  apply Nat.lt_of_not_le
  intro beyond
  have high : 2 ^ 64 ≤ 2 ^ i := Nat.pow_le_pow_right (by decide) beyond
  rw [testBit, Nat.testBit_lt_two_pow (Nat.lt_of_lt_of_le f.bits.toNat_lt high)] at set
  cases set

theorem ext_testBit {f g : BloomFilter} (h : ∀ i, i < 64 → f.testBit i = g.testBit i) : f = g := by
  have same : f.bits.toNat = g.bits.toNat := by
    apply Nat.eq_of_testBit_eq
    intro i
    by_cases hi : i < 64
    · exact h i hi
    · have hf : f.testBit i = false := Bool.eq_false_iff.2 fun set => hi (lt_of_testBit set)
      have hg : g.testBit i = false := Bool.eq_false_iff.2 fun set => hi (lt_of_testBit set)
      exact hf.trans hg.symm
  exact congrArg mk (UInt64.toNat_inj.1 same)

end BloomFilter

/-- One filter for each slot; slots beyond the end have the empty one. -/
structure FilterTable where
  filters : Array BloomFilter := #[]

namespace FilterTable

def withRoom (slots : Nat) : FilterTable := ⟨Array.replicate slots .empty⟩

def get (t : FilterTable) (slot : Nat) : BloomFilter := t.filters[slot]?.getD .empty

/-- Adds the bits of `f` to a slot and tells whether it gained any. -/
def merge (t : FilterTable) (slot : Nat) (f : BloomFilter) : Bool × FilterTable :=
  let old := t.get slot
  let new := old.union f
  if old.includes new then (false, t)
  else
    let filters :=
      if slot < t.filters.size then t.filters
      else t.filters ++ Array.replicate (slot + 1 - t.filters.size) .empty
    (true, ⟨filters.setIfInBounds slot new⟩)

/-- How many bits of the first `n` slots are clear. -/
def clearBits (t : FilterTable) (n : Nat) : Nat :=
  (List.range (64 * n)).countP fun k => !(t.get (k / 64)).testBit (k % 64)

theorem get_merge (t : FilterTable) (slot i : Nat) (f : BloomFilter) :
    (t.merge slot f).2.get i = if slot = i then (t.get slot).union f else t.get i := by
  unfold merge
  by_cases h : (t.get slot).includes ((t.get slot).union f)
  · simp only [h, if_true]
    split
    · rename_i e
      rw [BloomFilter.union_eq_of_includes h, e]
    · rfl
  · simp only [h, Bool.false_eq_true, if_false]
    have grown : ∀ filters : Array BloomFilter, slot < filters.size →
        (⟨filters.setIfInBounds slot ((t.get slot).union f)⟩ : FilterTable).get i =
          if slot = i then (t.get slot).union f else (⟨filters⟩ : FilterTable).get i := by
      intro filters hs
      by_cases e : slot = i
      · subst e; simp [get, hs]
      · simp [get, e]
    by_cases hs : slot < t.filters.size
    · simp only [hs, if_true]
      exact grown _ hs
    · simp only [hs, if_false]
      rw [grown _ (by simp only [Array.size_append, Array.size_replicate]; omega)]
      congr 1
      by_cases hi : i < t.filters.size
      · simp [get, Array.getElem?_append, hi]
      · have none : t.filters[i]? = none := Array.getElem?_eq_none (Nat.le_of_not_lt hi)
        simp only [get, Array.getElem?_append, hi, if_false, Array.getElem?_replicate, none,
          Option.getD_none]
        split <;> rfl

theorem clearBits_merge_le (t : FilterTable) (slot n : Nat) (f : BloomFilter) :
    (t.merge slot f).2.clearBits n ≤ t.clearBits n :=
  List.countP_mono_left fun k _ h => by
    simp only [get_merge] at h
    split at h
    · rename_i e
      simp only [BloomFilter.testBit_union, Bool.not_or, Bool.and_eq_true] at h
      rw [← e]
      exact h.1
    · exact h

theorem clearBits_merge_lt {t : FilterTable} {slot n : Nat} {f : BloomFilter} (below : slot < n)
    (gained : (t.merge slot f).1 = true) : (t.merge slot f).2.clearBits n < t.clearBits n := by
  have ne : (t.get slot).union f ≠ t.get slot := by
    intro e
    have inc : (t.get slot).includes ((t.get slot).union f) = true := by
      rw [e]
      simp [BloomFilter.includes]
    simp [merge, inc] at gained
  have : ∃ i, i < 64 ∧ ((t.get slot).union f).testBit i ≠ (t.get slot).testBit i := by
    apply Classical.byContradiction
    intro none
    exact ne (BloomFilter.ext_testBit fun i hi => Classical.byContradiction fun h =>
      none ⟨i, hi, h⟩)
  obtain ⟨i, hi, hd⟩ := this
  have hold : (t.get slot).testBit i = false := by
    rw [BloomFilter.testBit_union] at hd
    cases h : (t.get slot).testBit i
    · rfl
    · simp [h] at hd
  have hdiv : (64 * slot + i) / 64 = slot := by omega
  have hmod : (64 * slot + i) % 64 = i := by omega
  apply countP_lt_countP (a := 64 * slot + i)
  · intro k _ h
    simp only [get_merge] at h
    split at h
    · rename_i e
      simp only [BloomFilter.testBit_union, Bool.not_or, Bool.and_eq_true] at h
      rw [← e]
      exact h.1
    · exact h
  · exact List.mem_range.2 (by omega)
  · simp [hdiv, hmod, hold]
  · simp only [hdiv, hmod, get_merge, if_true]
    cases hn : ((t.get slot).union f).testBit i
    · rw [hn, hold] at hd; exact absurd rfl hd
    · rfl

end FilterTable

end TwinHeap
