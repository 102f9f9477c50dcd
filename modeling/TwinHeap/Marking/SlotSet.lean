/-! Sets of slot numbers, one bit for each slot. -/
namespace TwinHeap

structure SlotSet where
  words : Array UInt64
  /-- Clearing an untouched set costs nothing. -/
  touched : Bool
  zero_of_untouched : touched = false → ∀ w ∈ words, w = 0

/-- How many bits of a word are set. -/
def bitCount (w : UInt64) : Nat := (List.range 64).countP fun i => w.toNat.testBit i

namespace SlotSet

/-- An empty set with room for the given number of slots. -/
def withRoom (slots : Nat) : SlotSet :=
  { words := Array.replicate ((slots + 63) / 64) 0
    touched := false
    zero_of_untouched := fun _ _ h => (Array.mem_replicate.1 h).2 }

instance : EmptyCollection SlotSet := ⟨withRoom 0⟩

def bit (slot : Nat) : UInt64 := 1 <<< UInt64.ofNat (slot % 64)

/-- Whether the bit of a slot is set. Bits beyond the words are not. -/
def holds (words : Array UInt64) (slot : Nat) : Bool :=
  match words[slot / 64]? with
  | some w => w &&& bit slot != 0
  | none => false

def contains (s : SlotSet) (slot : Nat) : Bool := holds s.words slot

/-- Sets with too few words grow. -/
def insert (s : SlotSet) (slot : Nat) : SlotSet :=
  let words :=
    if slot / 64 < s.words.size then s.words
    else s.words ++ Array.replicate (slot / 64 + 1 - s.words.size) 0
  { words := words.modify (slot / 64) fun w => w ||| bit slot
    touched := true
    zero_of_untouched := Bool.noConfusion }

/-- Adds a slot and tells whether it is new. -/
def mark (s : SlotSet) (slot : Nat) : Bool × SlotSet := (!s.contains slot, s.insert slot)

def clear (s : SlotSet) : SlotSet :=
  if s.touched then
    { words := s.words.map fun _ => 0
      touched := false
      zero_of_untouched := fun _ _ h =>
        have ⟨_, _, zero⟩ := Array.mem_map.1 h
        zero.symm }
  else s

def size (s : SlotSet) : Nat := s.words.foldl (fun n w => n + bitCount w) 0

theorem testBit_bit (slot i : Nat) :
    (bit slot).toNat.testBit i = decide (slot % 64 = i) := by
  have h : slot % 64 < 64 := Nat.mod_lt _ (by decide)
  have h2 : 2 ^ (slot % 64) < 2 ^ 64 := Nat.pow_lt_pow_right (by decide) h
  have h3 : slot % 64 % 2 ^ 64 % 64 = slot % 64 := by omega
  rw [bit, UInt64.toNat_shiftLeft]
  simp only [UInt64.toNat_ofNat', UInt64.toNat_one, h3, Nat.shiftLeft_eq, Nat.one_mul]
  rw [Nat.mod_eq_of_lt h2, Nat.testBit_two_pow]

theorem and_bit (w : UInt64) (slot : Nat) :
    (w &&& bit slot != 0) = w.toNat.testBit (slot % 64) := by
  have hz : (w &&& bit slot = 0) ↔ w.toNat.testBit (slot % 64) = false := by
    rw [← UInt64.toNat_inj, UInt64.toNat_and, UInt64.toNat_zero]
    constructor
    · intro h
      have := congrArg (fun n => n.testBit (slot % 64)) h
      simpa [Nat.testBit_and, testBit_bit] using this
    · intro h
      apply Nat.eq_of_testBit_eq
      intro i
      rw [Nat.testBit_and, testBit_bit, Nat.zero_testBit]
      by_cases hi : slot % 64 = i
      · subst hi; simp [h]
      · simp [hi]
  cases hb : w.toNat.testBit (slot % 64)
  · simp [hz.2 hb]
  · have : w &&& bit slot ≠ 0 := fun h => by simp [hz.1 h] at hb
    simp [this]

theorem testBit_or_bit (w : UInt64) (slot i : Nat) :
    (w ||| bit slot).toNat.testBit i = (w.toNat.testBit i || decide (slot % 64 = i)) := by
  rw [UInt64.toNat_or, Nat.testBit_or, testBit_bit]

theorem holds_modify {words : Array UInt64} {a : Nat} (ha : a / 64 < words.size) (b : Nat) :
    holds (words.modify (a / 64) fun w => w ||| bit a) b = (decide (a = b) || holds words b) := by
  unfold holds
  by_cases hw : a / 64 = b / 64
  · have hb : b / 64 < words.size := hw ▸ ha
    have hab : (a % 64 = b % 64) ↔ a = b := by omega
    simp only [hw, Array.getElem?_modify, if_true, Array.getElem?_eq_getElem hb, Option.map_some,
      and_bit, testBit_or_bit, hab]
    exact Bool.or_comm _ _
  · have hab : a ≠ b := fun h => hw (h ▸ rfl)
    simp [Array.getElem?_modify, hw, hab]

theorem holds_of_zero {words : Array UInt64} (h : ∀ w ∈ words, w = 0) (slot : Nat) :
    holds words slot = false := by
  unfold holds
  split
  · rename_i w hw
    simp [h w (Array.mem_of_getElem? hw)]
  · rfl

theorem holds_append_zeros (words : Array UInt64) (n slot : Nat) :
    holds (words ++ Array.replicate n 0) slot = holds words slot := by
  unfold holds
  rw [Array.getElem?_append]
  by_cases h : slot / 64 < words.size
  · rw [if_pos h]
  · rw [if_neg h, Array.getElem?_eq_none (Nat.le_of_not_lt h), Array.getElem?_replicate]
    split
    · rename_i hw
      split at hw
      · cases hw; simp
      · cases hw
    · rfl

@[simp] theorem contains_insert (s : SlotSet) (a b : Nat) :
    (s.insert a).contains b = (decide (a = b) || s.contains b) := by
  unfold insert contains
  by_cases h : a / 64 < s.words.size
  · simp only [h, if_true]
    exact holds_modify h b
  · simp only [h, if_false]
    rw [holds_modify, holds_append_zeros]
    simp only [Array.size_append, Array.size_replicate]
    omega

@[simp] theorem contains_withRoom (slots slot : Nat) : (withRoom slots).contains slot = false :=
  holds_of_zero ((withRoom slots).zero_of_untouched rfl) slot

@[simp] theorem contains_clear (s : SlotSet) (slot : Nat) : s.clear.contains slot = false := by
  apply holds_of_zero
  apply s.clear.zero_of_untouched
  unfold clear
  split
  · rfl
  · simp_all

/-- How many slots below `n` are missing. -/
def missing (s : SlotSet) (n : Nat) : Nat := (List.range n).countP fun i => !s.contains i

end SlotSet

/-- Counting strictly fewer: the smaller predicate misses something. -/
theorem countP_lt_countP {α : Type} {p q : α → Bool} {l : List α} (sub : ∀ x ∈ l, q x → p x)
    {a : α} (mem : a ∈ l) (hp : p a = true) (hq : q a = false) : l.countP q < l.countP p := by
  induction l with
  | nil => cases mem
  | cons b l ih =>
    have le : l.countP q ≤ l.countP p :=
      List.countP_mono_left fun x hx => sub x (List.mem_cons_of_mem _ hx)
    rcases List.mem_cons.1 mem with rfl | mem
    · simp only [List.countP_cons, hp, hq, if_true, Bool.false_eq_true, if_false]
      omega
    · have := ih (fun x hx => sub x (List.mem_cons_of_mem _ hx)) mem
      have hb : q b → p b := sub b (List.mem_cons_self ..)
      simp only [List.countP_cons]
      cases hqb : q b
      · simp only [Bool.false_eq_true, if_false]
        omega
      · simp only [hb hqb, if_true]
        omega

theorem SlotSet.missing_insert_le (s : SlotSet) (slot n : Nat) :
    (s.insert slot).missing n ≤ s.missing n :=
  List.countP_mono_left fun i _ h => by
    simp only [contains_insert, Bool.not_or, Bool.and_eq_true] at h
    exact h.2

theorem SlotSet.missing_insert_lt {s : SlotSet} {slot n : Nat} (below : slot < n)
    (new : s.contains slot = false) : (s.insert slot).missing n < s.missing n := by
  apply countP_lt_countP (a := slot)
  · intro i _ h
    simp only [contains_insert, Bool.not_or, Bool.and_eq_true] at h
    exact h.2
  · exact List.mem_range.2 below
  · simp [new]
  · simp

end TwinHeap
