import Mathlib.Data.List.Nodup
import TwinHeap.Marking.BloomFilter

/-! Which bits an element has. The draws come from ranges that shrink by one; stepping over the earlier
ones makes them distinct without leaving the first range, so that an element has as many bits as it
draws. -/
namespace TwinHeap.BloomFilter

variable {f : BloomFilter} {x seed : UInt64}

section Draws

/-- Each number is below a bound, which sinks by one from number to number. -/
def Shrinks : Nat → List Nat → Prop
  | _, [] => True
  | range, y :: ys => y < range ∧ Shrinks (range - 1) ys

theorem length_draws (count range : Nat) (x : UInt64) : (draws count range x).length = count := by
  induction count generalizing range x with
  | zero => rfl
  | succ count ih => rw [draws, List.length_cons, ih]

theorem shrinks_draws {count range : Nat} (enough : count ≤ range) (x : UInt64) :
    Shrinks range (draws count range x) := by
  induction count generalizing range x with
  | zero => trivial
  | succ count ih =>
      refine ⟨Nat.mod_lt _ (by omega), ?_⟩
      exact ih (by omega) (scramble x)

end Draws

section Spread

theorem length_spread (l : List Nat) : (spread l).length = l.length := by
  induction l with
  | nil => rfl
  | cons y l ih => rw [spread, List.length_cons, List.length_map, ih, List.length_cons]

theorem mem_spread_cons {y z : Nat} {ys : List Nat} :
    z ∈ spread (y :: ys) ↔ z = y ∨ ∃ w ∈ spread ys, (if y ≤ w then w + 1 else w) = z := by
  rw [spread, List.mem_cons, List.mem_map]

/-- A number that is stepped over is left out, and different ones stay different. -/
theorem nodup_spread (l : List Nat) : (spread l).Nodup := by
  induction l with
  | nil => exact List.nodup_nil
  | cons y ys ih =>
      rw [spread, List.nodup_cons, List.mem_map]
      constructor
      · intro taken
        obtain ⟨w, -, same⟩ := taken
        split at same <;> omega
      · apply ih.map
        intro v w same
        dsimp only at same
        split at same <;> split at same <;> omega

/-- Lifting uses up what the ranges have shrunk by. -/
theorem lt_of_mem_spread {range z : Nat} {l : List Nat} (shrinks : Shrinks range l)
    (member : z ∈ spread l) : z < range := by
  induction l generalizing range z with
  | nil => cases member
  | cons y ys ih =>
      obtain ⟨first, rest⟩ := shrinks
      rcases mem_spread_cons.1 member with same | ⟨w, earlier, lifted⟩
      · exact same ▸ first
      · have below : w < range - 1 := ih rest earlier
        split at lifted <;> omega

/-- One pass in place: the numbers after the `i`-th are lifted past it. -/
def liftPast (ys : List Nat) (i : Nat) : List Nat :=
  ys.mapIdx fun j z => if i < j ∧ ys[i]?.getD 0 ≤ z then z + 1 else z

theorem liftPast_zero (y : Nat) (ys : List Nat) :
    liftPast (y :: ys) 0 = y :: ys.map fun z => if y ≤ z then z + 1 else z := by
  rw [liftPast, List.mapIdx_cons]
  congr 1
  apply List.ext_getElem?
  intro n
  simp

theorem liftPast_succ (y : Nat) (ys : List Nat) (i : Nat) :
    liftPast (y :: ys) (i + 1) = y :: liftPast ys i := by
  simp [liftPast, List.mapIdx_cons]

theorem foldl_liftPast_succ (y : Nat) (ys turns : List Nat) :
    (turns.map Nat.succ).foldl liftPast (y :: ys) = y :: turns.foldl liftPast ys := by
  induction turns generalizing ys with
  | nil => rfl
  | cons i turns ih =>
      rw [List.map_cons, List.foldl_cons, Nat.succ_eq_add_one, liftPast_succ]
      exact ih (liftPast ys i)

/-- Spreading is done by passes in place, if the last number has its turn first. -/
theorem spread_eq_foldl (l : List Nat) :
    spread l = (List.range l.length).reverse.foldl liftPast l := by
  induction l with
  | nil => rfl
  | cons y ys ih =>
      rw [List.length_cons, List.range_succ_eq_map, List.reverse_cons, ← List.map_reverse,
        List.foldl_append, foldl_liftPast_succ, ← ih]
      exact (liftPast_zero y (spread ys)).symm

end Spread

section Bits

theorem length_positions (x seed : UInt64) : (positions x seed).length = hashes := by
  rw [positions, length_spread, length_draws]

theorem nodup_positions (x seed : UInt64) : (positions x seed).Nodup := nodup_spread _

theorem lt_of_mem_positions {p : Nat} (member : p ∈ positions x seed) : p < 64 :=
  lt_of_mem_spread (shrinks_draws (by decide) _) member

theorem testBit_empty (i : Nat) : empty.testBit i = false := Nat.zero_testBit i

theorem testBit_foldl_or_bit (l : List Nat) (w : UInt64) (i : Nat) :
    (l.foldl (fun w i => w ||| SlotSet.bit i) w).toNat.testBit i =
      (w.toNat.testBit i || l.any fun p => decide (p % 64 = i)) := by
  induction l generalizing w with
  | nil => exact (Bool.or_false _).symm
  | cons p l ih =>
      rw [List.foldl_cons, ih, SlotSet.testBit_or_bit, List.any_cons, Bool.or_assoc]

/-- No position is reduced when it becomes a bit. -/
theorem testBit_insert {i : Nat} :
    (f.insert x seed).testBit i = true ↔ f.testBit i = true ∨ i ∈ positions x seed := by
  rw [testBit, insert, testBit_foldl_or_bit, Bool.or_eq_true, List.any_eq_true]
  apply or_congr Iff.rfl
  constructor
  · intro drawn
    obtain ⟨p, member, same⟩ := drawn
    rw [decide_eq_true_eq, Nat.mod_eq_of_lt (lt_of_mem_positions member)] at same
    exact same ▸ member
  · intro member
    exact ⟨i, member, decide_eq_true (Nat.mod_eq_of_lt (lt_of_mem_positions member))⟩

theorem testBit_singleton {i : Nat} :
    (singleton x seed).testBit i = true ↔ i ∈ positions x seed := by
  rw [singleton, testBit_insert, testBit_empty]
  exact or_iff_right Bool.false_ne_true

theorem insert_eq_union (f : BloomFilter) (x seed : UInt64) :
    f.insert x seed = f.union (singleton x seed) := by
  apply ext_testBit
  intro i _
  rw [Bool.eq_iff_iff, testBit_insert, testBit_union, Bool.or_eq_true, testBit_singleton]

/-- A filter has as many bits as a list that names each of them once. -/
theorem popCount_eq_length {l : List Nat} (nodup : l.Nodup)
    (named : ∀ i, f.testBit i = true ↔ i ∈ l) : f.popCount = l.length := by
  rw [popCount, bitCount, List.countP_eq_length_filter]
  apply List.Perm.length_eq
  apply (List.perm_ext_iff_of_nodup (List.nodup_range.filter _) nodup).2
  intro i
  rw [List.mem_filter, List.mem_range, ← named]
  constructor
  · intro both
    exact both.2
  · intro set
    exact ⟨lt_of_testBit set, set⟩

theorem popCount_singleton (x seed : UInt64) : (singleton x seed).popCount = hashes :=
  (popCount_eq_length (nodup_positions x seed) fun _ => testBit_singleton).trans
    (length_positions x seed)

end Bits

end TwinHeap.BloomFilter
