import TwinHeap.Proofs.Json.Numerals

/-! The spellings of a name. Every character but the quote, the backslash and the control characters
may stand for itself, and every character may be escaped. -/
namespace TwinHeap.Json

def lowerDigits : List Char :=
  ['0', '1', '2', '3', '4', '5', '6', '7', '8', '9', 'a', 'b', 'c', 'd', 'e', 'f']

def upperDigits : List Char :=
  ['0', '1', '2', '3', '4', '5', '6', '7', '8', '9', 'A', 'B', 'C', 'D', 'E', 'F']

/-- `c` is the hexadecimal digit of `n`, in lower or in upper case. -/
def HexDigit (c : Char) (n : Nat) : Prop := lowerDigits[n]? = some c ∨ upperDigits[n]? = some c

/-- Four hexadecimal digits that denote `unit` stand before `rest`. -/
def CodeUnit (s : List Char) (unit : Nat) (rest : List Char) : Prop :=
  ∃ a b c d w x y z, s = a :: b :: c :: d :: rest ∧ HexDigit a w ∧ HexDigit b x ∧ HexDigit c y ∧
    HexDigit d z ∧ unit = ((w * 16 + x) * 16 + y) * 16 + z

/-- The first unit of a surrogate pair. -/
def HighHalf (unit : Nat) : Prop := 0xD800 ≤ unit ∧ unit ≤ 0xDBFF

/-- The second unit of a surrogate pair. -/
def LowHalf (unit : Nat) : Prop := 0xDC00 ≤ unit ∧ unit ≤ 0xDFFF

/-- The character beyond the 16-bit range that a surrogate pair denotes. -/
def paired (high low : Nat) : Char :=
  Char.ofNat (0x10000 + (high - 0xD800) * 0x400 + (low - 0xDC00))

/-- The characters that have an escape of their own. -/
def escapes : List (Char × Char) :=
  [('"', '"'), ('\\', '\\'), ('/', '/'), ('b', '\x08'), ('f', '\x0c'), ('n', '\n'), ('r', '\r'),
    ('t', '\t')]

/-- What stands between a backslash and `rest` denotes one character. -/
inductive Escape : List Char → Char → List Char → Prop
  | short {c e : Char} {rest : List Char} : (c, e) ∈ escapes → Escape (c :: rest) e rest
  | unit {s rest : List Char} {unit : Nat} : CodeUnit s unit rest → ¬ HighHalf unit →
      ¬ LowHalf unit → Escape ('u' :: s) (Char.ofNat unit) rest
  | pair {s t rest : List Char} {high low : Nat} : CodeUnit s high ('\\' :: 'u' :: t) →
      HighHalf high → CodeUnit t low rest → LowHalf low → Escape ('u' :: s) (paired high low) rest

/-- What stands between the opening quote and `rest` spells a name, the closing quote included. -/
inductive Spelled : List Char → List Char → List Char → Prop
  | close (rest : List Char) : Spelled ('"' :: rest) [] rest
  | plain {c : Char} {s name rest : List Char} : c ≠ '"' → c ≠ '\\' → 0x20 ≤ c.toNat →
      Spelled s name rest → Spelled (c :: s) (c :: name) rest
  | escape {s t name rest : List Char} {e : Char} : Escape s e t → Spelled t name rest →
      Spelled ('\\' :: s) (e :: name) rest

theorem hexValue?_eq_some {c : Char} {n : Nat} : hexValue? c = some n ↔ HexDigit c n := by
  have digits : ∀ n < 10, lowerDigits[n]? = some (Nat.digitChar n) := by decide
  have lower : ∀ n < 6, lowerDigits[n + 10]? = some (Char.ofNat (n + 97)) := by decide
  have upper : ∀ n < 6, upperDigits[n + 10]? = some (Char.ofNat (n + 65)) := by decide
  constructor
  · intro value
    unfold hexValue? at value
    split at value
    · rename_i digit
      cases value
      obtain ⟨small, same⟩ := digitChar_of_isDigit digit
      exact .inl ((digits _ small).trans (congrArg some same))
    · split at value
      · rename_i range
        cases value
        have low : 97 ≤ c.toNat := UInt32.le_iff_toNat_le.1 range.1
        have high : c.toNat ≤ 102 := UInt32.le_iff_toNat_le.1 range.2
        have letter : 'a'.toNat = 97 := rfl
        refine .inl ((lower _ (by omega)).trans (congrArg some ?_))
        rw [letter, Nat.sub_add_cancel low, Char.ofNat_toNat]
      · split at value
        · rename_i range
          cases value
          have low : 65 ≤ c.toNat := UInt32.le_iff_toNat_le.1 range.1
          have high : c.toNat ≤ 70 := UInt32.le_iff_toNat_le.1 range.2
          have letter : 'A'.toNat = 65 := rfl
          refine .inr ((upper _ (by omega)).trans (congrArg some ?_))
          rw [letter, Nat.sub_add_cancel low, Char.ofNat_toNat]
        · cases value
  · have read : ∀ n < 16, lowerDigits[n]?.bind hexValue? = some n ∧
        upperDigits[n]?.bind hexValue? = some n := by decide
    rintro (digit | digit)
    · have small : n < 16 := (List.getElem?_eq_some_iff.1 digit).1
      simpa only [digit, Option.bind_some] using (read n small).1
    · have small : n < 16 := (List.getElem?_eq_some_iff.1 digit).1
      simpa only [digit, Option.bind_some] using (read n small).2

theorem readUnit_eq_some {s rest : List Char} {unit : Nat} :
    readUnit s = some (unit, rest) ↔ CodeUnit s unit rest := by
  constructor
  · intro read
    unfold readUnit at read
    split at read
    · simp only [Option.bind_eq_bind, Option.bind_eq_some_iff, Option.some.injEq,
        Prod.mk.injEq, hexValue?_eq_some] at read
      obtain ⟨w, first, x, second, y, third, z, fourth, value, rfl⟩ := read
      exact ⟨_, _, _, _, w, x, y, z, rfl, first, second, third, fourth, value.symm⟩
    · cases read
  · rintro ⟨a, b, c, d, w, x, y, z, rfl, first, second, third, fourth, rfl⟩
    simp only [readUnit, hexValue?_eq_some.2 first, hexValue?_eq_some.2 second,
      hexValue?_eq_some.2 third, hexValue?_eq_some.2 fourth, Option.bind_eq_bind, Option.bind_some]

theorem simpleEscape?_eq_some {c e : Char} : simpleEscape? c = some e ↔ (c, e) ∈ escapes := by
  simp only [escapes, List.mem_cons, Prod.mk.injEq, List.not_mem_nil, or_false]
  constructor
  · intro short
    unfold simpleEscape? at short
    repeat' split at short
    all_goals simp_all [eq_comm]
  · rintro (⟨rfl, rfl⟩ | ⟨rfl, rfl⟩ | ⟨rfl, rfl⟩ | ⟨rfl, rfl⟩ | ⟨rfl, rfl⟩ | ⟨rfl, rfl⟩ |
      ⟨rfl, rfl⟩ | ⟨rfl, rfl⟩) <;> rfl

theorem readLowHalf_eq_some {s rest : List Char} {high : Nat} {e : Char} :
    readLowHalf high s = some (e, rest) ↔ ∃ t low, s = '\\' :: 'u' :: t ∧ CodeUnit t low rest ∧
      LowHalf low ∧ e = paired high low := by
  constructor
  · intro read
    unfold readLowHalf at read
    split at read
    · simp only [Option.bind_eq_bind, Option.bind_eq_some_iff] at read
      obtain ⟨⟨low, after⟩, unit, read⟩ := read
      split at read
      · rename_i half
        simp only [Option.some.injEq, Prod.mk.injEq] at read
        obtain ⟨value, rfl⟩ := read
        exact ⟨_, low, rfl, readUnit_eq_some.1 unit, half, value.symm⟩
      · cases read
    · cases read
  · rintro ⟨t, low, rfl, unit, half, value⟩
    simp only [readLowHalf, readUnit_eq_some.2 unit, Option.bind_eq_bind, Option.bind_some]
    exact (if_pos half).trans (by rw [value, paired])

theorem readEscape_eq_some {s rest : List Char} {e : Char} :
    readEscape s = some (e, rest) ↔ Escape s e rest := by
  constructor
  · intro read
    cases s with
    | nil => cases read
    | cons c r =>
        simp only [readEscape] at read
        split at read
        · rename_i letter
          subst letter
          split at read
          · cases read
          · rename_i unit after units
            have units := readUnit_eq_some.1 units
            split at read
            · cases read
            · rename_i notLow
              split at read
              · rename_i high
                obtain ⟨t, low, rfl, second, half, value⟩ := readLowHalf_eq_some.1 read
                exact value ▸ .pair units high second half
              · rename_i notHigh
                cases read
                exact .unit units notHigh notLow
        · obtain ⟨e', short, same⟩ := Option.map_eq_some_iff.1 read
          cases same
          exact .short (simpleEscape?_eq_some.1 short)
  · intro escape
    cases escape with
    | @short c _ _ member =>
        have letter : c ≠ 'u' := by
          rintro rfl
          simp [escapes] at member
        simp only [readEscape, if_neg letter, simpleEscape?_eq_some.2 member, Option.map_some]
    | unit units notHigh notLow =>
        simp only [readEscape, if_true, readUnit_eq_some.2 units]
        exact (if_neg notLow).trans (if_neg notHigh)
    | @pair _ _ _ high low units half second half' =>
        have notLow : ¬ (0xDC00 ≤ high ∧ high ≤ 0xDFFF) := by
          intro low
          have := half.2
          omega
        simp only [readEscape, if_true, readUnit_eq_some.2 units]
        refine (if_neg notLow).trans ((if_pos half).trans ?_)
        exact readLowHalf_eq_some.2 ⟨_, low, rfl, second, half', rfl⟩

theorem readText_eq_some {s name rest : List Char} :
    readText s = some (name, rest) ↔ Spelled s name rest := by
  constructor
  · intro read
    fun_induction readText s generalizing name with
    | case1 => cases read
    | case2 r =>
        cases read
        exact .close _
    | case3 => cases read
    | case4 r e after escape _ ih =>
        obtain ⟨⟨later, tail⟩, text, same⟩ := Option.map_eq_some_iff.1 read
        cases same
        exact .escape (readEscape_eq_some.1 escape) (ih text)
    | case5 => cases read
    | case6 c r quote slash visible ih =>
        obtain ⟨⟨later, tail⟩, text, same⟩ := Option.map_eq_some_iff.1 read
        cases same
        exact .plain quote slash (Nat.not_lt.1 visible) (ih text)
  · intro spelled
    induction spelled with
    | close rest =>
        rw [readText]
        simp
    | plain quote slash visible _ ih =>
        rw [readText]
        simp [quote, slash, Nat.not_lt.2 visible, ih]
    | escape escape _ ih =>
        rw [readText]
        have read := readEscape_eq_some.2 escape
        simp only [show ('\\' : Char) ≠ '"' by decide, if_false, if_true]
        split
        · rename_i none
          rw [read] at none
          cases none
        · rename_i same
          rw [read] at same
          cases same
          simp only [ih, Option.map_some]

/-- A scan begins with a name exactly if the text does, blank space apart. -/
theorem scan_text_iff {s name : List Char} {ts : List Token} : scan s = .text name :: ts ↔
    ∃ t rest, Blanks s ('"' :: t) ∧ Spelled t name rest ∧ scan rest = ts := by
  constructor
  · intro scanned
    obtain ⟨c, r, rest, blanks, read, later⟩ := scan_eq_cons scanned (by simp)
    rcases readToken_eq_some read with ⟨mark, -⟩ | ⟨rfl, text, spelled, same⟩ | ⟨-, number⟩ |
      ⟨-, number⟩ | null | ⟨b, bool⟩
    · exact absurd (punctuation?_eq_some.1 mark) (by simp [marks])
    · cases same
      exact ⟨r, rest, blanks, readText_eq_some.1 spelled, later⟩
    · obtain ⟨l, -, same⟩ := readNumber_eq_some number
      cases same
    · obtain ⟨l, -, same⟩ := readNumber_eq_some number
      cases same
    · cases null
    · cases bool
  · rintro ⟨t, rest, blanks, spelled, rfl⟩
    have mark : punctuation? '"' = none := by decide
    rw [scan_blanks blanks]
    apply scan_token (by decide)
    simp only [readToken, mark, if_true, readText_eq_some.2 spelled, Option.map_some]

end TwinHeap.Json
