import Mathlib.Data.List.Induction
import TwinHeap.Rows
import TwinHeap.Proofs.Json.Scanning

/-! Slot numbers in a text. They are read from their plain decimal form and from no other: a leading
zero, a sign, a point or an exponent makes another number of it, or none. -/
namespace TwinHeap.Json

/-- What may follow a number in a text: nothing that would make it longer. -/
def Ends (rest : List Char) : Prop :=
  ∀ c r, rest = c :: r → c.isDigit = false ∧ c ≠ '.' ∧ c ≠ 'e' ∧ c ≠ 'E'

theorem ends_cons {c : Char} {rest : List Char}
    (ends : c.isDigit = false ∧ c ≠ '.' ∧ c ≠ 'e' ∧ c ≠ 'E') : Ends (c :: rest) := by
  rintro d r same
  cases same
  exact ends

theorem digitRun_of_ends {digits rest : List Char} (all : ∀ c ∈ digits, c.isDigit = true)
    (ends : Ends rest) : digitRun (digits ++ rest) = (digits, rest) := by
  induction digits with
  | nil =>
      cases rest with
      | nil => rfl
      | cons c r => simp [digitRun, (ends c r rfl).1]
  | cons c digits ih =>
      have first := all c List.mem_cons_self
      have later := ih fun x member => all x (List.mem_cons_of_mem c member)
      simp [digitRun, first, later]

theorem isDigit_of_mem_digits {n : Nat} : ∀ c ∈ Nat.toDigits 10 n, c.isDigit = true :=
  fun _ member => Nat.isDigit_of_mem_toDigits (by decide) (by decide) member

/-- Plain decimal has no leading zero. -/
theorem digits_ne_zero_cons (n : Nat) (d : Char) (r : List Char) :
    Nat.toDigits 10 n ≠ '0' :: d :: r := by
  induction n using Nat.strongRecOn generalizing d r with
  | _ n ih =>
    intro e
    rcases Nat.lt_or_ge n 10 with small | large
    · rw [Nat.toDigits_of_lt_base small] at e
      have length := congrArg List.length e
      simp at length
    · rw [Nat.toDigits_of_base_le (by decide) large] at e
      cases front : Nat.toDigits 10 (n / 10) with
      | nil => exact Nat.toDigits_ne_nil front
      | cons c front' =>
          rw [front] at e
          cases front' with
          | nil =>
              injection e with head
              have value := Nat.ofDigitChars_ten_toDigits (n := n / 10)
              rw [front, head] at value
              have zero : n / 10 = 0 := by rw [← value]; rfl
              omega
          | cons d' front'' =>
              injection e with head
              exact ih (n / 10) (Nat.div_lt_self (by omega) (by decide)) d' front''
                (front.trans (head ▸ rfl))

theorem le_ofDigitChars (digits : List Char) (n : Nat) : n ≤ Nat.ofDigitChars 10 digits n := by
  rw [Nat.ofDigitChars_eq_ofDigitChars_zero]
  have one := Nat.pow_pos (n := digits.length) (show 0 < 10 by decide)
  have := Nat.le_mul_of_pos_left n one
  omega

theorem fitDigits_of_lt {n : Nat} {digits : List Char}
    (bound : Nat.ofDigitChars 10 digits n < UInt64.size) :
    fitDigits n digits = (Nat.ofDigitChars 10 digits n, []) := by
  induction digits generalizing n with
  | nil => rfl
  | cons c digits ih =>
      rw [Nat.ofDigitChars_cons] at bound ⊢
      have here := Nat.lt_of_le_of_lt (le_ofDigitChars digits _) bound
      simp only [fitDigits]
      rw [if_pos here]
      exact ih bound

theorem readLiteral_digits (n : Nat) {rest : List Char} (ends : Ends rest) :
    readLiteral (Nat.toDigits 10 n ++ rest) = some ({ whole := Nat.toDigits 10 n }, rest) := by
  have run : digitRun (Nat.toDigits 10 n ++ rest) = (Nat.toDigits 10 n, rest) :=
    digitRun_of_ends isDigit_of_mem_digits ends
  have plain : withPower { whole := Nat.toDigits 10 n } rest =
      some ({ whole := Nat.toDigits 10 n }, rest) := by
    cases rest with
    | nil => rfl
    | cons c r =>
        obtain ⟨-, -, small, capital⟩ := ends c r rfl
        simp [withPower, small, capital]
  unfold readLiteral
  rw [run]
  split
  · rename_i empty
    exact (Nat.toDigits_ne_nil (congrArg Prod.fst empty)).elim
  · rename_i zero
    exact (digits_ne_zero_cons n _ _ (congrArg Prod.fst zero)).elim
  · rename_i whole r _ _ same
    cases same
    exact ((ends '.' r rfl).2.1 rfl).elim
  · rename_i same
    cases same
    exact plain

theorem isTooLarge_digits {n : Nat} (bound : n < slotLimit) :
    ({ whole := Nat.toDigits 10 n } : Literal).isTooLarge = false := by
  have limit : slotLimit < UInt64.size := by decide
  have value : Nat.ofDigitChars 10 (Nat.toDigits 10 n) 0 = n := Nat.ofDigitChars_ten_toDigits
  have fits : fitDigits 0 (Nat.toDigits 10 n) = _ :=
    fitDigits_of_lt (value.symm ▸ Nat.lt_trans bound limit)
  rw [value] at fits
  have scaled : ({ whole := Nat.toDigits 10 n } : Literal).scaled = (n, 0) := by
    simp only [Literal.scaled, fits]
    rfl
  unfold Literal.isTooLarge
  rw [scaled]
  dsimp only
  have mantissa : toMantissa n = n := by
    have small : n < 2 * Text.leadingBit :=
      Nat.lt_trans bound (by decide)
    simp only [toMantissa, if_pos small]
  have one : toMantissa (Text.pow10 0) = 1 := by decide
  have small : n < Text.pow2 1024 - Text.pow2 970 := Nat.lt_trans bound (by decide +kernel)
  split
  · rfl
  · rw [if_neg (by decide), mantissa, one, Nat.mul_one]
    exact decide_eq_false (Nat.not_le_of_lt small)

theorem readNumber_digits {n : Nat} (bound : n < slotLimit) {rest : List Char} (ends : Ends rest) :
    readNumber false (Nat.toDigits 10 n ++ rest) = some (.number (some n), rest) := by
  unfold readNumber
  rw [readLiteral_digits n ends]
  dsimp only
  have value : natural (Nat.toDigits 10 n) = n := Nat.ofDigitChars_ten_toDigits
  have limit : n < UInt64.size := Nat.lt_trans bound (by decide)
  rw [isTooLarge_digits bound]
  simp only [Bool.false_eq_true, if_false, Literal.integer?, value, limit, if_true]

/-- No punctuation, quote, sign or blank is a digit. -/
theorem readToken_of_isDigit {c : Char} (digit : c.isDigit = true) (r : List Char) :
    isBlank c = false ∧ readToken c r = readNumber false (c :: r) := by
  have other : ∀ d : Char, d.isDigit = false → c ≠ d := by
    rintro d no rfl
    rw [digit] at no
    cases no
  have blank : isBlank c = false := by
    simp [isBlank, other ' ' rfl, other '\t' rfl, other '\n' rfl, other '\r' rfl]
  have mark : punctuation? c = none := by
    simp [punctuation?, other '\x7b' rfl, other '\x7d' rfl, other '[' rfl, other ']' rfl,
      other ',' rfl, other ':' rfl]
  refine ⟨blank, ?_⟩
  simp only [readToken, mark, other '"' rfl, other '-' rfl, if_false, digit, if_true]

theorem scan_digits {n : Nat} (bound : n < slotLimit) {rest : List Char} (ends : Ends rest) :
    scan (Nat.toDigits 10 n ++ rest) = .number (some n) :: scan rest := by
  have read := readNumber_digits bound ends
  cases digits : Nat.toDigits 10 n with
  | nil => exact (Nat.toDigits_ne_nil digits).elim
  | cons c r =>
      have digit := isDigit_of_mem_digits c (digits ▸ List.mem_cons_self)
      obtain ⟨solid, token⟩ := readToken_of_isDigit digit (r ++ rest)
      rw [digits] at read
      exact scan_token solid (token.trans read)

theorem isDigit_of_mem_digitRun {s : List Char} : ∀ c ∈ (digitRun s).1, c.isDigit = true := by
  induction s with
  | nil => exact fun _ member => nomatch member
  | cons d r ih =>
      intro c member
      by_cases digit : d.isDigit
      · simp only [digitRun, digit, if_true, List.mem_cons] at member
        rcases member with rfl | later
        · exact digit
        · exact ih c later
      · simp [digitRun, digit] at member

/-- A digit is determined by its value. -/
theorem digitChar_of_isDigit {c : Char} (digit : c.isDigit = true) :
    c.toNat - '0'.toNat < 10 ∧ Nat.digitChar (c.toNat - '0'.toNat) = c := by
  simp only [Char.isDigit, Bool.and_eq_true, decide_eq_true_eq] at digit
  have low : 48 ≤ c.toNat := UInt32.le_iff_toNat_le.1 digit.1
  have high : c.toNat ≤ 57 := UInt32.le_iff_toNat_le.1 digit.2
  have zero : '0'.toNat = 48 := rfl
  have small : c.toNat - '0'.toNat < 10 := by omega
  refine ⟨small, Char.toNat_inj.1 ?_⟩
  rw [Nat.toNat_digitChar_of_lt_ten small]
  omega

/-- Digits without a leading zero are the plain decimal form of their value. -/
theorem toDigits_natural {digits : List Char} (all : ∀ c ∈ digits, c.isDigit = true)
    (some : digits ≠ []) (plain : ∀ d r, digits ≠ '0' :: d :: r) :
    Nat.toDigits 10 (natural digits) = digits := by
  induction digits using List.reverseRecOn with
  | nil => exact (some rfl).elim
  | append_singleton front c ih =>
      obtain ⟨small, same⟩ := digitChar_of_isDigit (all c (by simp))
      have value : natural (front ++ [c]) = 10 * natural front + (c.toNat - '0'.toNat) := by
        rw [natural, Nat.ofDigitChars_append, Nat.ofDigitChars_cons, Nat.ofDigitChars_nil]
        rfl
      cases first : front with
      | nil =>
          subst first
          rw [value, show natural [] = 0 from rfl, Nat.mul_zero, Nat.zero_add,
            Nat.toDigits_of_lt_base small, same]
          rfl
      | cons d r =>
          rw [← first]
          have digits := ih (fun x member => all x (List.mem_append_left _ member))
            (first ▸ List.cons_ne_nil d r)
            (by
              rintro e r' zero
              exact plain e (r' ++ [c]) (by rw [zero]; rfl))
          have positive : 0 < natural front := by
            refine Nat.pos_of_ne_zero fun zero => ?_
            rw [zero, Nat.toDigits_zero] at digits
            exact plain c [] (by rw [← digits]; rfl)
          rw [value, ← Nat.toDigits_append_toDigits (by decide) positive small, digits,
            Nat.toDigits_of_lt_base small, same]

theorem withPower_whole {l m : Literal} {s rest : List Char}
    (read : withPower l s = some (m, rest)) (whole : m.power = none) : m = l ∧ rest = s := by
  cases s with
  | nil =>
      cases read
      exact ⟨rfl, rfl⟩
  | cons c r =>
      simp only [withPower] at read
      split at read
      · obtain ⟨⟨p, after⟩, -, same⟩ := Option.map_eq_some_iff.1 read
        cases same
        cases whole
      · cases read
        exact ⟨rfl, rfl⟩

/-- A literal without point and exponent is the plain decimal form of a number. -/
theorem readLiteral_whole {s rest whole : List Char}
    (read : readLiteral s = some (⟨whole, none, none⟩, rest)) :
    s = Nat.toDigits 10 (natural whole) ++ rest := by
  have split := digitRun_append s
  have all := isDigit_of_mem_digitRun (s := s)
  unfold readLiteral at read
  split at read
  · cases read
  · cases read
  · split at read
    · cases read
    · obtain ⟨same, -⟩ := withPower_whole read rfl
      cases same
  · rename_i digits after filled plain _ run
    obtain ⟨same, rfl⟩ := withPower_whole read rfl
    cases same
    rw [run] at split all
    rw [toDigits_natural all filled plain, split]

/-- A number that is not negative is read from nothing but its plain decimal form. -/
theorem readToken_eq_number {c : Char} {r rest : List Char} {n : Nat}
    (read : readToken c r = some (.number (some n), rest)) :
    c :: r = Nat.toDigits 10 n ++ rest := by
  rcases readToken_eq_some read with ⟨mark, -⟩ | ⟨-, name, -, text⟩ | ⟨-, number⟩ |
    ⟨-, number⟩ | null | ⟨b, bool⟩
  · exact absurd (punctuation?_eq_some.1 mark) (by simp [marks])
  · cases text
  · obtain ⟨l, -, same⟩ := readNumber_eq_some number
    injection same with same
    unfold Literal.integer? at same
    split at same
    · dsimp only at same
      simp only [if_true] at same
      split at same
      · cases same
      · injection same with same
        omega
    · cases same
  · obtain ⟨l, literal, same⟩ := readNumber_eq_some number
    injection same with same
    unfold Literal.integer? at same
    split at same
    · rename_i whole
      dsimp only at same
      simp only [Bool.false_eq_true, if_false] at same
      split at same
      · injection same with same
        cases Int.ofNat.inj same
        exact readLiteral_whole literal
      · cases same
    · cases same
  · cases null
  · cases bool

theorem scan_eq_number {s : List Char} {n : Nat} {ts : List Token}
    (scanned : scan s = .number (some n) :: ts) :
    ∃ rest, Blanks s (Nat.toDigits 10 n ++ rest) ∧ scan rest = ts := by
  obtain ⟨c, r, rest, blanks, read, later⟩ := scan_eq_cons scanned (by simp)
  exact ⟨rest, readToken_eq_number read ▸ blanks, later⟩

theorem ends_of_mark {c : Char} {t : Token} (mark : punctuation? c = some t) (rest : List Char) :
    Ends (c :: rest) := by
  have ending : ∀ p ∈ marks,
      p.1.isDigit = false ∧ p.1 ≠ '.' ∧ p.1 ≠ 'e' ∧ p.1 ≠ 'E' := by decide
  exact ends_cons (ending _ (punctuation?_eq_some.1 mark))

/-- Blank space ends a number. -/
theorem ends_of_blanks {s t : List Char} (blanks : Blanks s t) (ends : Ends t) : Ends s := by
  have blank : ∀ c ∈ [' ', '\t', '\n', '\r'],
      c.isDigit = false ∧ c ≠ '.' ∧ c ≠ 'e' ∧ c ≠ 'E' := by
    intro c member
    simp only [List.mem_cons, List.not_mem_nil, or_false] at member
    rcases member with rfl | rfl | rfl | rfl <;> decide
  cases blanks with
  | none => exact ends
  | more member _ => exact ends_cons (blank _ member)

end TwinHeap.Json
