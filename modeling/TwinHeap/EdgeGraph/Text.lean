import TwinHeap.EdgeGraph
import TwinHeap.Fault
import TwinHeap.Json.Token
import TwinHeap.Rows

/-! The written form of an edge graph: a JSON object with the member `root` and one member for each
exported slot, named by its number in plain decimal. -/
namespace TwinHeap

/-- The fault of a text in which `t` stands where another kind of value should begin. -/
def Json.Token.misfit (t : Json.Token) : TextFault :=
  if t.opensValue then .mismatch else .malformed

namespace EdgeGraph

open Json (Token)

def rootName : List Char := ['r', 'o', 'o', 't']

/-- Items with commas between them. -/
def joinComma : List (List Char) → List Char
  | [] => []
  | [a] => a
  | a :: rest => a ++ ',' :: joinComma rest

def listChars (slots : List ImportKey) : List Char :=
  '[' :: (joinComma (slots.map fun j => Nat.toDigits 10 j.number) ++ [']'])

def memberChars (name : List Char) (slots : List ImportKey) : List Char :=
  Text.quoteJsonChars name ++ ':' :: listChars slots

def toChars (g : EdgeGraph) : List Char :=
  let members := g.edges.entries.map fun e => memberChars (Nat.toDigits 10 e.1.number) e.2
  '\x7b' :: (joinComma (memberChars rootName g.root :: members) ++ ['\x7d'])

def toText (g : EdgeGraph) : String := String.ofList g.toChars

/-- A slot number in the only spelling it has as a name. -/
def slotKey? (name : List Char) : Option ExportKey :=
  let n := Nat.ofDigitChars 10 name 0
  if n < slotLimit ∧ name = Nat.toDigits 10 n then some ⟨n⟩ else none

/-- A slot number in a list. -/
def slotOfToken : Token → Except TextFault ImportKey
  | .number (some n) =>
    if 0 ≤ n ∧ n < slotLimit then .ok ⟨n.toNat⟩ else .error .mismatch
  | t => .error t.misfit

/-- Reads on after an element of a list. -/
def readMoreSlots : List Token → Except TextFault (List ImportKey × List Token)
  | .closeBracket :: rest => .ok ([], rest)
  | .comma :: t :: rest => do
    let k ← slotOfToken t
    let (ks, rest) ← readMoreSlots rest
    .ok (k :: ks, rest)
  | _ => .error .malformed

/-- Reads a list of slot numbers. -/
def readSlots : List Token → Except TextFault (List ImportKey × List Token)
  | .openBracket :: .closeBracket :: rest => .ok ([], rest)
  | .openBracket :: t :: rest => do
    let k ← slotOfToken t
    let (ks, rest) ← readMoreSlots rest
    .ok (k :: ks, rest)
  | [.openBracket] => .error .malformed
  | t :: _ => .error t.misfit
  | [] => .error .malformed

theorem readMoreSlots_length {s rest : List Token} {ks : List ImportKey}
    (h : readMoreSlots s = .ok (ks, rest)) : rest.length < s.length := by
  fun_induction readMoreSlots s generalizing ks with
  | case1 => cases h; simp
  | case2 t r ih =>
    cases hk : slotOfToken t with
    | error => rw [hk] at h; cases h
    | ok k =>
      cases hr : readMoreSlots r with
      | error => rw [hk, hr] at h; cases h
      | ok p =>
        rw [hk, hr] at h
        cases h
        have := ih hr
        simp only [List.length_cons]
        omega
  | case3 => cases h

theorem readSlots_length {s rest : List Token} {ks : List ImportKey}
    (h : readSlots s = .ok (ks, rest)) : rest.length < s.length := by
  unfold readSlots at h
  split at h
  · cases h
    simp only [List.length_cons]
    omega
  · rename_i t r _
    cases hk : slotOfToken t with
    | error => rw [hk] at h; cases h
    | ok k =>
      cases hr : readMoreSlots r with
      | error => rw [hk, hr] at h; cases h
      | ok p =>
        rw [hk, hr] at h
        cases h
        have := readMoreSlots_length hr
        simp only [List.length_cons]
        omega
  · cases h
  · cases h
  · cases h

/-- What has been read of an object. -/
structure Members where
  root : Option (List ImportKey) := none
  edges : Assoc ExportKey (List ImportKey) := {}

/-- The part of an object's text between a name and its colon says where the value goes: `none` is
the root. Names are judged before anything that follows them. -/
def Members.place (m : Members) (name : List Char) : Except TextFault (Option ExportKey) :=
  if name = rootName then
    if m.root.isSome then .error .repeatedRoot else .ok none
  else
    match slotKey? name with
    | some k => .ok (some k)
    | none => .error (.slotKey name)

/-- A repeated slot is noticed once its value has been read. -/
def Members.add (m : Members) (slots : List ImportKey) : Option ExportKey → Except TextFault Members
  | none => .ok { m with root := some slots }
  | some k =>
    if m.edges.contains k then .error (.repeatedKey k)
    else .ok { m with edges := m.edges.insert k slots }

def Members.finish (m : Members) : Except TextFault EdgeGraph :=
  match m.root with
  | some root => .ok { root, edges := m.edges }
  | none => .error .missingRoot

/-- Reads members up to the closing brace, starting with a name. -/
def readMembers (m : Members) (s : List Token) : Except TextFault (EdgeGraph × List Token) :=
  match s with
  | .text name :: s =>
    match m.place name with
    | .error f => .error f
    | .ok place =>
      match s with
      | .colon :: s =>
        match _h : readSlots s with
        | .error f => .error f
        | .ok (slots, s) =>
          match m.add slots place with
          | .error f => .error f
          | .ok m =>
            match s with
            | .comma :: s => readMembers m s
            | .closeBrace :: s => m.finish.map fun g => (g, s)
            | _ => .error .malformed
      | _ => .error .malformed
  | _ => .error .malformed
termination_by s.length
decreasing_by
  have := readSlots_length _h
  simp only [List.length_cons] at this ⊢
  omega

/-- Nothing may follow the closing brace. -/
def ofTokens (s : List Token) : Except TextFault EdgeGraph :=
  let read :=
    match s with
    | .openBrace :: .closeBrace :: s => (Members.finish {}).map fun g => (g, s)
    | .openBrace :: s => readMembers {} s
    | t :: _ => .error t.misfit
    | [] => .error .malformed
  match read with
  | .error f => .error f
  | .ok (g, []) => .ok g
  | .ok _ => .error .malformed

def ofText (text : String) : Except TextFault EdgeGraph := ofTokens (Json.scan text.toList)

end EdgeGraph

end TwinHeap
