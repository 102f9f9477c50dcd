import TwinHeap.Text.Decimal

/-! Number literals: which texts are literals, which of them are integers of 64 bits, which are too
large for a floating-point number, and which number the others are read as. -/
namespace TwinHeap.Json

/-- The longest run of decimal digits at the front, and what follows. -/
def digitRun : List Char → List Char × List Char
  | [] => ([], [])
  | c :: r => if c.isDigit then (c :: (digitRun r).1, (digitRun r).2) else ([], c :: r)

theorem digitRun_append (s : List Char) : (digitRun s).1 ++ (digitRun s).2 = s := by
  induction s with
  | nil => rfl
  | cons c r ih => by_cases h : c.isDigit <;> simp [digitRun, h, ih]

theorem digitRun_length {s a b : List Char} (h : digitRun s = (a, b)) :
    a.length + b.length = s.length := by
  have := congrArg List.length (digitRun_append s)
  rw [List.length_append, h] at this
  exact this

def natural (digits : List Char) : Nat := Nat.ofDigitChars 10 digits 0

/-- A literal without its sign. An absent point or exponent is `none`. -/
structure Literal where
  whole : List Char
  fraction : Option (List Char) := none
  power : Option Int := none

/-- Reads `e`, an optional sign and digits. -/
def readPower : List Char → Option (Int × List Char)
  | '+' :: r => unsignedPower r
  | '-' :: r => (unsignedPower r).map fun (p, r) => (-p, r)
  | r => unsignedPower r
where
  unsignedPower (r : List Char) : Option (Int × List Char) :=
    match digitRun r with
    | ([], _) => none
    | (digits, rest) => some (natural digits, rest)

/-- Reads an optional exponent. -/
def withPower (l : Literal) : List Char → Option (Literal × List Char)
  | [] => some (l, [])
  | c :: r =>
    if c = 'e' ∨ c = 'E' then (readPower r).map fun (p, rest) => ({ l with power := some p }, rest)
    else some (l, c :: r)

/-- A leading zero stands alone, and a point has digits on both sides. -/
def readLiteral (s : List Char) : Option (Literal × List Char) :=
  match digitRun s with
  | ([], _) => none
  | ('0' :: _ :: _, _) => none
  | (whole, '.' :: r) =>
    match digitRun r with
    | ([], _) => none
    | (fraction, rest) => withPower { whole, fraction := some fraction } rest
  | (whole, rest) => withPower { whole } rest

theorem readPower_length {s rest : List Char} {p : Int} (h : readPower s = some (p, rest)) :
    rest.length ≤ s.length := by
  have base : ∀ {r rest : List Char} {p : Int},
      readPower.unsignedPower r = some (p, rest) → rest.length ≤ r.length := by
    intro r rest p h
    unfold readPower.unsignedPower at h
    split at h
    · cases h
    · rename_i e
      cases h
      have := digitRun_length e
      omega
  unfold readPower at h
  split at h
  · exact Nat.le_succ_of_le (base h)
  · simp only [Option.map_eq_some_iff] at h
    obtain ⟨⟨q, r'⟩, hq, he⟩ := h
    cases he
    exact Nat.le_succ_of_le (base hq)
  · exact base h

theorem withPower_length {l m : Literal} {s rest : List Char}
    (h : withPower l s = some (m, rest)) : rest.length ≤ s.length := by
  cases s with
  | nil => cases h; exact Nat.le_refl _
  | cons c r =>
    simp only [withPower] at h
    split at h
    · simp only [Option.map_eq_some_iff] at h
      obtain ⟨⟨q, r'⟩, hq, he⟩ := h
      cases he
      exact Nat.le_succ_of_le (readPower_length hq)
    · cases h; exact Nat.le_refl _

theorem readLiteral_length {s rest : List Char} {l : Literal}
    (h : readLiteral s = some (l, rest)) : rest.length < s.length := by
  have nonempty : ∀ {d : List Char}, (d = [] → False) → 0 < d.length := fun hd =>
    List.length_pos_iff.2 hd
  unfold readLiteral at h
  split at h
  · cases h
  · cases h
  · rename_i hne _ e
    have he := digitRun_length e
    have hw := nonempty hne
    simp only [List.length_cons] at he
    split at h
    · cases h
    · rename_i e'
      have he' := digitRun_length e'
      have := withPower_length h
      omega
  · rename_i hne _ _ e
    have he := digitRun_length e
    have hw := nonempty hne
    have := withPower_length h
    omega

/-- The digits that fit into 64 bits, and how many are left over. -/
def fitDigits (n : Nat) : List Char → Nat × List Char
  | [] => (n, [])
  | c :: r =>
    let m := 10 * n + (c.toNat - '0'.toNat)
    if m < UInt64.size then fitDigits m r else (n, c :: r)

/-- `n` rounded to the 53 bits of a floating-point mantissa. -/
def toMantissa (n : Nat) : Nat :=
  if n < 2 * Text.leadingBit then n
  else
    let unit := Text.pow2 (Nat.log2 n - 52)
    Text.roundEven n unit * unit

/-- The leading digits, as many as fit into 64 bits, and the power of ten they are scaled by. Of the
digits that do not fit, those before the point raise the power and those after it are dropped. -/
def Literal.scaled (l : Literal) : Nat × Int :=
  let (head, dropped) := fitDigits 0 l.whole
  let fraction := l.fraction.getD []
  let (digits, rest) := fitDigits head fraction
  (digits,
    (dropped.length : Int) - ((fraction.length : Int) - rest.length) + l.power.getD 0)

/-- Whether the literal is read as an infinity: its digits are rounded, and so are the power of ten
and the product. -/
def Literal.isTooLarge (l : Literal) : Bool :=
  let (digits, power) := l.scaled
  if digits = 0 ∨ power < 0 then false
  else if 308 < power then true
  else decide (Text.pow2 1024 - Text.pow2 970 ≤ toMantissa digits * toMantissa (Text.pow10 power))

/-- The power of ten as a floating-point number. -/
def floatPow10 (e : Int) : Float := .ofScientific 1 false e.toNat

/-- The floating-point number a literal is read as, unless it is too large. The digits are rounded,
then scaled, so the result may differ in its last bit from the number nearest to the literal. The
highest power of ten there is has exponent 308, and below it the digits are divided twice: 64 bits
of them leave nothing when divided a third time. Zero keeps its sign. -/
def Literal.toFloat? (l : Literal) (negative : Bool) : Option Float :=
  if l.isTooLarge then none
  else
    let (digits, power) := l.scaled
    let x := (UInt64.ofNat digits).toFloat
    let magnitude :=
      if digits = 0 ∨ power < -616 then 0.0
      else if 0 ≤ power then x * floatPow10 power
      else if -308 ≤ power then x / floatPow10 (-power)
      else x / floatPow10 308 / floatPow10 (-power - 308)
    some (if negative then -magnitude else magnitude)

/-- The integer a literal denotes, if it is written as one and fits: below `2 ^ 64`, or with a sign
between `-2 ^ 63` and `-1`. -/
def Literal.integer? (l : Literal) (negative : Bool) : Option Int :=
  match l with
  | ⟨whole, none, none⟩ =>
    let n := natural whole
    if negative then if n = 0 ∨ UInt64.size / 2 < n then none else some (-n)
    else if n < UInt64.size then some n else none
  | _ => none

end TwinHeap.Json
