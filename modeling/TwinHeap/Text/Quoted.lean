import TwinHeap.Text.Unprintable

/-! Texts between double quotes, in the form that JSON reads and in a form made for the eye. -/
namespace TwinHeap.Text

/-- `n` in lower-case hexadecimal, without leading zeros. -/
def hexDigits (n : Nat) : List Char := Nat.toDigits 16 n

/-- The last four hexadecimal digits of `n`. -/
def hexQuad (n : Nat) : List Char :=
  [n / 4096 % 16, n / 256 % 16, n / 16 % 16, n % 16].map Nat.digitChar

def escapeJson (c : Char) : List Char :=
  if c = '"' then ['\\', '"']
  else if c = '\\' then ['\\', '\\']
  else if c = '\n' then ['\\', 'n']
  else if c = '\t' then ['\\', 't']
  else if c = '\r' then ['\\', 'r']
  else if c = '\x08' then ['\\', 'b']
  else if c = '\x0c' then ['\\', 'f']
  else if c.toNat < 0x20 then '\\' :: 'u' :: hexQuad c.toNat
  else [c]

def quoteJsonChars (s : List Char) : List Char := '"' :: (s.flatMap escapeJson ++ ['"'])

def quoteJson (s : String) : String := String.ofList (quoteJsonChars s.toList)

/-- An apostrophe needs no escape between double quotes. -/
def escapeVisible (c : Char) : List Char :=
  if c = '"' then ['\\', '"']
  else if c = '\\' then ['\\', '\\']
  else if c = '\n' then ['\\', 'n']
  else if c = '\t' then ['\\', 't']
  else if c = '\r' then ['\\', 'r']
  else if c = '\x00' then ['\\', '0']
  else if isUnprintable c then '\\' :: 'u' :: '\x7b' :: (hexDigits c.toNat ++ ['\x7d'])
  else [c]

def quoteVisible (s : String) : String :=
  String.ofList ('"' :: (s.toList.flatMap escapeVisible ++ ['"']))

end TwinHeap.Text
