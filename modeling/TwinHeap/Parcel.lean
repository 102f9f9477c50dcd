import TwinHeap.EdgeGraph.Text

/-! Values on their way across the bridge, and their written form. -/
namespace TwinHeap

/-- A reference travels as a slot number, from the point of view of the sender. -/
inductive Parcel where
  | nil
  | int (n : Int64)
  /-- A slot of the sender: the receiver gets a proxy. -/
  | exported (slot : ExportKey)
  /-- A slot of the receiver, coming home. -/
  | returned (slot : ImportKey)
  deriving DecidableEq

namespace Parcel

open Json (Token)

inductive Form where
  | nil
  | int
  | exported
  | returned
  deriving DecidableEq

def Form.ofName? (name : List Char) : Option Form :=
  if name = ['N', 'i', 'l'] then some .nil
  else if name = ['I', 'n', 't'] then some .int
  else if name = ['E', 'x', 'p', 'o', 'r', 't', 'e', 'd'] then some .exported
  else if name = ['R', 'e', 't', 'u', 'r', 'n', 'e', 'd'] then some .returned
  else none

def toText : Parcel → String
  | .nil => "\"Nil\""
  | .int n => "\x7b\"Int\":" ++ toString n.toInt ++ "\x7d"
  | .exported slot => "\x7b\"Exported\":" ++ toString slot.number ++ "\x7d"
  | .returned slot => "\x7b\"Returned\":" ++ toString slot.number ++ "\x7d"

/-- The content that a form asks for. -/
def Form.content (f : Form) (t : Token) : Except TextFault Parcel :=
  match f, t with
  | .nil, .null => .ok .nil
  | .int, .number (some n) =>
    if Int64.minValue.toInt ≤ n ∧ n ≤ Int64.maxValue.toInt then .ok (.int (Int64.ofInt n))
    else .error .mismatch
  | .exported, t => (EdgeGraph.slotOfToken t).map fun j => .exported j.across
  | .returned, t => (EdgeGraph.slotOfToken t).map .returned
  | _, t => .error t.misfit

/-- A parcel without content is written as its name alone, others as an object of one member; the
former may be written in the long form too. An unknown name is noticed at once; what is not a name
at all is malformed, as in any object. -/
def ofTokens : List Token → Except TextFault Parcel
  | .text name :: rest =>
    match Form.ofName? name with
    | some .nil => if rest.isEmpty then .ok .nil else .error .malformed
    | _ => .error .mismatch
  | .openBrace :: .text name :: rest =>
    match Form.ofName? name with
    | none => .error .mismatch
    | some form =>
      match rest with
      | .colon :: t :: rest =>
        match form.content t, rest with
        | .error f, _ => .error f
        | .ok p, [.closeBrace] => .ok p
        | .ok _, _ => .error .malformed
      | _ => .error .malformed
  | _ => .error .malformed

def ofText (text : String) : Except TextFault Parcel := ofTokens (Json.scan text.toList)

end Parcel

end TwinHeap
