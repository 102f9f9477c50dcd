/-! Floating-point numbers in decimal: the fewest digits that read back, and a fixed number of
places. Both work on the exact value `mantissa * 2 ^ exponent` with whole numbers. -/
namespace TwinHeap.Text

/-- A finite magnitude as stored: `mantissa * 2 ^ exponent`. -/
structure Binary where
  mantissa : Nat
  exponent : Int
  deriving DecidableEq

inductive Decoded where
  | nan
  | infinite (negative : Bool)
  | finite (negative : Bool) (magnitude : Binary)
  deriving DecidableEq

/-- The leading bit of a mantissa, which is not stored. -/
def leadingBit : Nat := Nat.pow 2 52

/-- Reads the three fields of a 64-bit floating-point word. -/
def Decoded.ofBits (bits : Nat) : Decoded :=
  let negative := decide (2048 * leadingBit ≤ bits)
  let exponent : Nat := bits / leadingBit % 2048
  let fraction := bits % leadingBit
  if exponent = 2047 then
    if fraction = 0 then .infinite negative else .nan
  else if exponent = 0 then .finite negative ⟨fraction, -1074⟩
  else .finite negative ⟨fraction + leadingBit, (exponent : Int) - 1075⟩

def decode (x : Float) : Decoded := .ofBits x.toBits.toNat

/-- The nearest whole number to `num / den`; a tie goes to the even neighbour. -/
def roundEven (num den : Nat) : Nat :=
  let q := num / den
  let r := num % den
  if 2 * r < den then q
  else if den < 2 * r then q + 1
  else if q % 2 = 0 then q else q + 1

def pow2 (e : Int) : Nat := Nat.pow 2 e.toNat
def pow10 (e : Int) : Nat := Nat.pow 10 e.toNat

/-- A decimal `digits * 10 ^ exponent`. -/
structure Decimal where
  digits : Nat
  exponent : Int
  deriving DecidableEq

namespace Binary

/-- The value over `10 ^ k` as a fraction `(num, den)`. -/
def fraction (b : Binary) (k : Int) : Nat × Nat :=
  (b.mantissa * pow2 b.exponent * pow10 (-k), pow2 (-b.exponent) * pow10 k)

/-- Half the distance to the neighbour above, and to the neighbour below, in units of
`2 ^ (exponent - 2)`. The lower gap is smaller where the exponent changes. -/
def halfGaps (b : Binary) : Nat × Nat :=
  (2, if b.mantissa = leadingBit ∧ -1074 < b.exponent then 1 else 2)

/-- Whether `n * 10 ^ k` is nearer to this value than to any other stored one. The ends of the
interval belong to it when the mantissa is even. -/
def readsBack (b : Binary) (n : Nat) (k : Int) : Bool :=
  let e := b.exponent - 2
  let left := n * pow10 k * pow2 (-e)
  let unit := pow2 e * pow10 (-k)
  let (up, down) := b.halfGaps
  let low := (4 * b.mantissa - down) * unit
  let high := (4 * b.mantissa + up) * unit
  if b.mantissa % 2 = 0 then decide (low ≤ left ∧ left ≤ high)
  else decide (low < left ∧ left < high)

/-- The number of decimal digits before the point, or minus the zeros after it: the least `k` with
value below `10 ^ k`. -/
def magnitude (b : Binary) : Int :=
  let guess : Int := ((Nat.log2 b.mantissa : Int) + b.exponent) * 30103 / 100000
  let reaches (k : Int) : Bool := let (num, den) := b.fraction k; decide (den ≤ num)
  if reaches (guess + 1) then guess + 2 else if reaches guess then guess + 1 else guess

/-- The neighbour of the value on the grid of `count` digits that reads back, the nearer one if
both do. -/
def onGrid? (b : Binary) (count : Nat) : Option Decimal :=
  let k := b.magnitude - count
  let (num, den) := b.fraction k
  let below := num / den
  let nearest := roundEven num den
  let other := if nearest = below then below + 1 else below
  if b.readsBack nearest k then some ⟨nearest, k⟩
  else if b.readsBack other k then some ⟨other, k⟩
  else none

/-- Seventeen digits always read back. A neighbour ends in a zero only when it is the next power of
ten, and then one zero is all it has too many. -/
def shortest (b : Binary) : Decimal :=
  match (List.range 17).findSome? fun n => b.onGrid? (n + 1) with
  | some d => if d.digits % 10 = 0 then ⟨d.digits / 10, d.exponent + 1⟩ else d
  | none => ⟨0, 0⟩

end Binary

/-- How a number is laid out: positional from `10 ^ low` up to below `10 ^ high`, in powers of ten
elsewhere. -/
structure Layout where
  low : Int
  high : Int

/-- The layout of numbers in JSON. -/
def jsonLayout : Layout := ⟨-5, 16⟩

def zeros (n : Int) : String := "".pushn '0' n.toNat

/-- A whole number keeps one zero after the point, a power of ten carries its sign. -/
def Decimal.text (d : Decimal) (layout : Layout) : String :=
  let digits := toString d.digits
  let count : Int := digits.length
  let point := count + d.exponent
  if layout.low < point ∧ point ≤ layout.high then
    if 0 ≤ d.exponent then digits ++ zeros d.exponent ++ ".0"
    else if 0 < point then
      String.ofList (digits.toList.take point.toNat) ++ "." ++
        String.ofList (digits.toList.drop point.toNat)
    else "0." ++ zeros (-point) ++ digits
  else
    let power := point - 1
    let head := String.ofList (digits.toList.take 1)
    let tail := String.ofList (digits.toList.drop 1)
    let point := if tail.isEmpty then "" else "."
    let sign := if power < 0 then "-" else "+"
    head ++ point ++ tail ++ "e" ++ sign ++ toString power.natAbs

def signed (negative : Bool) (text : String) : String := if negative then "-" ++ text else text

/-- JSON has no spelling for what is not finite; it is written as `null`. -/
def floatJson (x : Float) : String :=
  match decode x with
  | .nan | .infinite _ => "null"
  | .finite negative b =>
    signed negative <|
      if b.mantissa = 0 then "0.0" else b.shortest.text jsonLayout

/-- Two places after the point, rounded from the exact value. A negative number that rounds to
zero keeps its sign. -/
def floatFixed2 (x : Float) : String :=
  match decode x with
  | .nan => "NaN"
  | .infinite negative => signed negative "inf"
  | .finite negative b =>
    let (num, den) := b.fraction (-2)
    let hundredths := roundEven num den
    let cents := hundredths % 100
    signed negative
      (toString (hundredths / 100) ++ "." ++ (if cents < 10 then "0" else "") ++ toString cents)

end TwinHeap.Text
