import TwinHeap.Json.Number

/-! The lexical units of a JSON text, read from left to right. The first fault ends the sequence, so
that a reader meets it only after everything that stands before it. -/
namespace TwinHeap.Json

inductive Token where
  | openBrace
  | closeBrace
  | openBracket
  | closeBracket
  | comma
  | colon
  | text (s : List Char)
  /-- `none` is a number that is not a 64-bit integer. -/
  | number (n : Option Int)
  | null
  | bool (b : Bool)
  /-- No lexical unit starts here, or the one that starts is malformed. -/
  | bad
  deriving DecidableEq

/-- Whether a value begins with this unit. -/
def Token.opensValue : Token → Bool
  | .openBrace | .openBracket | .text _ | .number _ | .null | .bool _ => true
  | _ => false

def isBlank (c : Char) : Bool := c == ' ' || c == '\t' || c == '\n' || c == '\r'

def hexValue? (c : Char) : Option Nat :=
  if c.isDigit then some (c.toNat - '0'.toNat)
  else if 'a' ≤ c ∧ c ≤ 'f' then some (c.toNat - 'a'.toNat + 10)
  else if 'A' ≤ c ∧ c ≤ 'F' then some (c.toNat - 'A'.toNat + 10)
  else none

/-- Four hexadecimal digits. -/
def readUnit : List Char → Option (Nat × List Char)
  | a :: b :: c :: d :: r => do
    let a ← hexValue? a
    let b ← hexValue? b
    let c ← hexValue? c
    let d ← hexValue? d
    some (((a * 16 + b) * 16 + c) * 16 + d, r)
  | _ => none

def simpleEscape? (c : Char) : Option Char :=
  if c = '"' then some '"'
  else if c = '\\' then some '\\'
  else if c = '/' then some '/'
  else if c = 'b' then some '\x08'
  else if c = 'f' then some '\x0c'
  else if c = 'n' then some '\n'
  else if c = 'r' then some '\r'
  else if c = 't' then some '\t'
  else none

/-- Reads the second half of a surrogate pair whose first half is `high`. -/
def readLowHalf (high : Nat) : List Char → Option (Char × List Char)
  | '\\' :: 'u' :: r => do
    let (low, r) ← readUnit r
    if 0xDC00 ≤ low ∧ low ≤ 0xDFFF then
      some (Char.ofNat (0x10000 + (high - 0xD800) * 0x400 + (low - 0xDC00)), r)
    else none
  | _ => none

/-- Reads what follows a backslash. A surrogate is accepted only as half of a pair. -/
def readEscape : List Char → Option (Char × List Char)
  | [] => none
  | c :: r =>
    if c = 'u' then
      match readUnit r with
      | none => none
      | some (unit, r) =>
        if 0xDC00 ≤ unit ∧ unit ≤ 0xDFFF then none
        else if 0xD800 ≤ unit ∧ unit ≤ 0xDBFF then readLowHalf unit r
        else some (Char.ofNat unit, r)
    else (simpleEscape? c).map fun e => (e, r)

theorem readUnit_length {s r : List Char} {n : Nat} (h : readUnit s = some (n, r)) :
    r.length < s.length := by
  unfold readUnit at h
  split at h
  · simp only [Option.bind_eq_bind, Option.bind_eq_some_iff, Option.some.injEq,
      Prod.mk.injEq] at h
    obtain ⟨_, _, _, _, _, _, _, _, _, rfl⟩ := h
    simp only [List.length_cons]
    omega
  · cases h

theorem readLowHalf_length {s r : List Char} {high : Nat} {c : Char}
    (h : readLowHalf high s = some (c, r)) : r.length < s.length := by
  unfold readLowHalf at h
  split at h
  · simp only [Option.bind_eq_bind, Option.bind_eq_some_iff] at h
    obtain ⟨⟨low, t⟩, hu, h⟩ := h
    have := readUnit_length hu
    split at h
    · simp only [Option.some.injEq, Prod.mk.injEq] at h
      rw [← h.2]
      simp only [List.length_cons]
      omega
    · cases h
  · cases h

theorem readEscape_length {s r : List Char} {c : Char} (h : readEscape s = some (c, r)) :
    r.length < s.length := by
  cases s with
  | nil => cases h
  | cons d t =>
    simp only [readEscape] at h
    split at h
    · split at h
      · cases h
      · rename_i hu
        have hu := readUnit_length hu
        split at h
        · cases h
        · split at h
          · have := readLowHalf_length h
            simp only [List.length_cons]
            omega
          · simp only [Option.some.injEq, Prod.mk.injEq] at h
            rw [← h.2]
            simp only [List.length_cons]
            omega
    · simp only [Option.map_eq_some_iff, Prod.mk.injEq] at h
      obtain ⟨_, _, _, rfl⟩ := h
      simp

/-- Reads up to the closing quote. Control characters have to be escaped. -/
def readText (s : List Char) : Option (List Char × List Char) :=
  match s with
  | [] => none
  | c :: r =>
    if c = '"' then some ([], r)
    else if c = '\\' then
      match _h : readEscape r with
      | none => none
      | some (e, r) => (readText r).map fun (t, rest) => (e :: t, rest)
    else if c.toNat < 0x20 then none
    else (readText r).map fun (t, rest) => (c :: t, rest)
termination_by s.length
decreasing_by
  · have := readEscape_length _h
    simp only [List.length_cons]
    omega
  · simp

theorem readText_length {s t rest : List Char} (h : readText s = some (t, rest)) :
    rest.length < s.length := by
  fun_induction readText s generalizing t with
  | case1 => cases h
  | case2 => cases h; simp
  | case3 => cases h
  | case4 r e r' hr _ ih =>
    obtain ⟨⟨u, v⟩, hu, heq⟩ := Option.map_eq_some_iff.1 h
    cases heq
    have := ih hu
    have := readEscape_length hr
    simp only [List.length_cons]
    omega
  | case5 => cases h
  | case6 c r _ _ _ ih =>
    obtain ⟨⟨u, v⟩, hu, heq⟩ := Option.map_eq_some_iff.1 h
    cases heq
    have := ih hu
    simp only [List.length_cons]
    omega

/-- Reads a number whose sign has been read. -/
def readNumber (negative : Bool) (s : List Char) : Option (Token × List Char) :=
  match readLiteral s with
  | none => none
  | some (l, rest) => if l.isTooLarge then none else some (.number (l.integer? negative), rest)

theorem readNumber_length {s rest : List Char} {negative : Bool} {t : Token}
    (h : readNumber negative s = some (t, rest)) : rest.length < s.length := by
  unfold readNumber at h
  split at h
  · cases h
  · rename_i hl
    split at h
    · cases h
    · cases h
      exact readLiteral_length hl

/-- What follows `word` in `s`, if `s` begins with it. -/
def after? : List Char → List Char → Option (List Char)
  | [], s => some s
  | _ :: _, [] => none
  | w :: word, c :: s => if w = c then after? word s else none

theorem after?_length {word s rest : List Char} (h : after? word s = some rest) :
    rest.length ≤ s.length := by
  induction word generalizing s with
  | nil => cases h; exact Nat.le_refl _
  | cons w word ih =>
    cases s with
    | nil => cases h
    | cons c s =>
      simp only [after?] at h
      split at h
      · exact Nat.le_succ_of_le (ih h)
      · cases h

def punctuation? (c : Char) : Option Token :=
  if c = '\x7b' then some .openBrace
  else if c = '\x7d' then some .closeBrace
  else if c = '[' then some .openBracket
  else if c = ']' then some .closeBracket
  else if c = ',' then some .comma
  else if c = ':' then some .colon
  else none

/-- The unit spelled by a word that begins with `c`, and the letters that have to follow. -/
def word? (c : Char) : Option (Token × List Char) :=
  if c = 'n' then some (.null, ['u', 'l', 'l'])
  else if c = 't' then some (.bool true, ['r', 'u', 'e'])
  else if c = 'f' then some (.bool false, ['a', 'l', 's', 'e'])
  else none

/-- The unit that begins with `c` and goes on in `r`. -/
def readToken (c : Char) (r : List Char) : Option (Token × List Char) :=
  match punctuation? c with
  | some t => some (t, r)
  | none =>
    if c = '"' then (readText r).map fun (t, rest) => (.text t, rest)
    else if c = '-' then readNumber true r
    else if c.isDigit then readNumber false (c :: r)
    else
      match word? c with
      | some (t, letters) => (after? letters r).map fun rest => (t, rest)
      | none => none

theorem readToken_length {c : Char} {r rest : List Char} {t : Token}
    (h : readToken c r = some (t, rest)) : rest.length ≤ r.length := by
  unfold readToken at h
  split at h
  · cases h
    exact Nat.le_refl _
  · split at h
    · obtain ⟨⟨_, _⟩, hu, heq⟩ := Option.map_eq_some_iff.1 h
      cases heq
      exact Nat.le_of_lt (readText_length hu)
    · split at h
      · exact Nat.le_of_lt (readNumber_length h)
      · split at h
        · exact Nat.le_of_lt_succ (readNumber_length h)
        · split at h
          · obtain ⟨_, hu, heq⟩ := Option.map_eq_some_iff.1 h
            cases heq
            exact after?_length hu
          · cases h

def scan (s : List Char) : List Token :=
  match s with
  | [] => []
  | c :: r =>
    if isBlank c then scan r
    else
      match _h : readToken c r with
      | none => [.bad]
      | some (t, rest) => t :: scan rest
termination_by s.length
decreasing_by
  · simp
  · have := readToken_length _h
    simp only [List.length_cons]
    omega

end TwinHeap.Json
