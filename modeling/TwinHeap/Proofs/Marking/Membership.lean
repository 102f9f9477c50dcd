import Mathlib.Data.Nat.Count
import TwinHeap.Marking.SlotSet

/-! A slot set against a finite set of numbers. Its words are a way to write the set down: whatever is
marked, asked, cleared and counted, both answer alike, also for slots beyond the room that a slot set
was made with. -/
namespace TwinHeap

inductive SlotCall where
  | mark (slot : Nat)
  | ask (slot : Nat)
  | clear
  | count
  deriving DecidableEq

inductive SlotAnswer where
  | truth (b : Bool)
  | number (n : Nat)
  | done
  deriving DecidableEq

namespace SlotCall

/-- What a call answers on a finite set, and what it makes of it. A slot that is marked is new if it
was not in the set. -/
def enact (m : Finset Nat) : SlotCall → SlotAnswer × Finset Nat
  | .mark slot => (.truth (decide (slot ∉ m)), insert slot m)
  | .ask slot => (.truth (decide (slot ∈ m)), m)
  | .clear => (.done, ∅)
  | .count => (.number m.card, m)

/-- All answers of a run of calls, and what it leaves. -/
def run {σ : Type} (perform : σ → SlotCall → SlotAnswer × σ) : σ → List SlotCall → List SlotAnswer × σ
  | s, [] => ([], s)
  | s, call :: calls =>
    let first := perform s call
    let later := run perform first.2 calls
    (first.1 :: later.1, later.2)

end SlotCall

namespace SlotSet

variable {s : SlotSet}

/-- What a call answers on a slot set, and what it makes of it. -/
def perform (s : SlotSet) : SlotCall → SlotAnswer × SlotSet
  | .mark slot => (.truth (s.mark slot).1, (s.mark slot).2)
  | .ask slot => (.truth (s.contains slot), s)
  | .clear => (.done, s.clear)
  | .count => (.number s.size, s)

/-- The slots of a set. -/
def members (s : SlotSet) : Finset Nat :=
  (Finset.range (64 * s.words.size)).filter fun slot => s.contains slot = true

theorem lt_of_contains {slot : Nat} (member : s.contains slot = true) : slot < 64 * s.words.size := by
  unfold contains holds at member
  split at member
  · rename_i found
    have below := (Array.getElem?_eq_some_iff.1 found).1
    omega
  · cases member

theorem mem_members {slot : Nat} : slot ∈ s.members ↔ s.contains slot = true := by
  rw [members, Finset.mem_filter, Finset.mem_range]
  exact and_iff_right_of_imp lt_of_contains

section Size

/-- The first word has the first 64 slots. -/
theorem holds_first (w : UInt64) (l : List UInt64) {slot : Nat} (below : slot < 64) :
    holds (w :: l).toArray slot = w.toNat.testBit slot := by
  have here : slot / 64 = 0 := Nat.div_eq_of_lt below
  have first : (w :: l).toArray[slot / 64]? = some w := by
    rw [here]
    rfl
  have bits := and_bit w slot
  rw [Nat.mod_eq_of_lt below] at bits
  rw [holds, first]
  exact bits

/-- The later words have the slots from 64 on. -/
theorem holds_later (w : UInt64) (l : List UInt64) (slot : Nat) :
    holds (w :: l).toArray (64 + slot) = holds l.toArray slot := by
  have next : (64 + slot) / 64 = slot / 64 + 1 := by omega
  have same : bit (64 + slot) = bit slot := by rw [bit, bit, Nat.add_mod_left]
  have later : (w :: l).toArray[(64 + slot) / 64]? = l.toArray[slot / 64]? := by
    rw [next, List.getElem?_toArray, List.getElem?_toArray, List.getElem?_cons_succ]
  rw [holds, holds, later, same]

/-- Counting the bits word by word counts the slots. -/
theorem foldl_bitCount (l : List UInt64) (n : Nat) :
    l.foldl (fun n w => n + bitCount w) n =
      n + (List.range (64 * l.length)).countP (holds l.toArray) := by
  induction l generalizing n with
  | nil => rfl
  | cons w l ih =>
      have first : (List.range 64).countP (holds (w :: l).toArray) = bitCount w := by
        apply List.countP_congr
        intro slot member
        rw [holds_first w l (List.mem_range.1 member)]
      have later : (List.range (64 * l.length)).countP (holds (w :: l).toArray ∘ (64 + ·)) =
          (List.range (64 * l.length)).countP (holds l.toArray) := by
        apply List.countP_congr
        intro slot _
        rw [Function.comp_apply, holds_later]
      rw [List.foldl_cons, ih, List.length_cons, Nat.mul_succ, Nat.add_comm (64 * l.length),
        List.range_add, List.countP_append, List.countP_map, first, later, Nat.add_assoc]

theorem size_eq_card (s : SlotSet) : s.size = s.members.card := by
  have counted := Nat.count_eq_card_filter_range (fun slot => s.contains slot = true)
    (64 * s.words.size)
  rw [size, ← Array.foldl_toList, foldl_bitCount, Nat.zero_add, Array.toArray_toList, members, ← counted]
  apply List.countP_congr
  intro slot _
  exact decide_eq_true_iff.symm

end Size

section Calls

theorem members_withRoom (slots : Nat) : (withRoom slots).members = ∅ := by
  ext slot
  simp [mem_members]

theorem members_insert (s : SlotSet) (slot : Nat) : (s.insert slot).members = Insert.insert slot s.members := by
  ext other
  rw [mem_members, contains_insert, Bool.or_eq_true, decide_eq_true_eq, Finset.mem_insert, mem_members,
    eq_comm]

theorem members_clear (s : SlotSet) : s.clear.members = ∅ := by
  ext slot
  simp [mem_members]

theorem perform_enacts (s : SlotSet) (call : SlotCall) :
    (s.perform call).1 = (call.enact s.members).1 ∧
      (s.perform call).2.members = (call.enact s.members).2 := by
  cases call with
  | mark slot =>
      refine ⟨congrArg SlotAnswer.truth ?_, members_insert s slot⟩
      rw [Bool.eq_iff_iff, decide_eq_true_eq, mem_members, mark, Bool.not_eq_true', Bool.not_eq_true]
  | ask slot =>
      refine ⟨congrArg SlotAnswer.truth ?_, rfl⟩
      rw [Bool.eq_iff_iff, decide_eq_true_eq, mem_members]
  | clear => exact ⟨rfl, members_clear s⟩
  | count => exact ⟨congrArg SlotAnswer.number s.size_eq_card, rfl⟩

theorem run_enacts (s : SlotSet) (calls : List SlotCall) :
    (SlotCall.run perform s calls).1 = (SlotCall.run SlotCall.enact s.members calls).1 ∧
      (SlotCall.run perform s calls).2.members = (SlotCall.run SlotCall.enact s.members calls).2 := by
  induction calls generalizing s with
  | nil => exact ⟨rfl, rfl⟩
  | cons call calls ih =>
      obtain ⟨answer, members⟩ := perform_enacts s call
      obtain ⟨answers, last⟩ := ih (s.perform call).2
      rw [members] at answers last
      refine ⟨?_, last⟩
      rw [SlotCall.run, SlotCall.run, answer, answers]

end Calls

/-- Whatever room a slot set was made with, it answers every run of calls as a finite set does that is
empty at first. What the run leaves has the slots of that set and no others: a mark adds its slot only,
and is new if the slot was missing, clearing leaves nothing, and the size is the number of slots. -/
theorem answers_as_finset (slots : Nat) (calls : List SlotCall) :
    let left := SlotCall.run perform (withRoom slots) calls
    let m := (SlotCall.run SlotCall.enact ∅ calls).2
    left.1 = (SlotCall.run SlotCall.enact ∅ calls).1 ∧
    (∀ slot, left.2.contains slot = true ↔ slot ∈ m) ∧
    (∀ slot, ((left.2.mark slot).1 = true ↔ slot ∉ m) ∧
      ∀ other, (left.2.mark slot).2.contains other = true ↔ other = slot ∨ other ∈ m) ∧
    (∀ slot, left.2.clear.contains slot = false) ∧
    left.2.size = m.card := by
  intro left m
  obtain ⟨answers, last⟩ := run_enacts (withRoom slots) calls
  rw [members_withRoom] at answers last
  have contains_iff : ∀ slot, left.2.contains slot = true ↔ slot ∈ m := by
    intro slot
    rw [← mem_members, last]
  refine ⟨answers, contains_iff, fun slot => ⟨?_, fun other => ?_⟩, contains_clear left.2, ?_⟩
  · rw [mark, Bool.not_eq_true', ← contains_iff, Bool.not_eq_true]
  · rw [mark, contains_insert, Bool.or_eq_true, decide_eq_true_eq, contains_iff, eq_comm]
  · rw [size_eq_card, last]

/-- A mark beyond the room, a second one in a neighbouring bit, and a set that is used again. -/
example : (SlotCall.run perform (withRoom 0)
    [.ask 500, .mark 500, .mark 501, .mark 500, .count, .clear, .clear, .ask 501, .mark 501]).1 =
    [.truth false, .truth true, .truth true, .truth false, .number 2, .done, .done, .truth false,
      .truth true] := by
  decide +kernel

end SlotSet

end TwinHeap
