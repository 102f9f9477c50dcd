import TwinHeap.Object
import TwinHeap.Text.Quoted

/-! What can go wrong, as causes. The wording of each cause is in its `message`. -/
namespace TwinHeap

/-- Why a text is not the written form of a value. -/
inductive TextFault where
  /-- The text is not JSON. -/
  | malformed
  /-- The text is JSON of another shape. -/
  | mismatch
  | slotKey (key : List Char)
  | repeatedKey (key : ExportKey)
  | missingRoot
  | repeatedRoot
  deriving DecidableEq

namespace TextFault

/-- Only the faults of an edge graph itself have words of their own. -/
def detail? : TextFault → Option String
  | .malformed | .mismatch => none
  | .slotKey key => some s!"invalid slot key {Text.quoteVisible (String.ofList key)}"
  | .repeatedKey key => some s!"duplicate slot key {key.number}"
  | .missingRoot => some "missing field `root`"
  | .repeatedRoot => some "duplicate field `root`"

def message : TextFault → String
  | .malformed => "not a JSON text"
  | f => f.detail?.getD "unexpected kind of value"

end TextFault

/-- Why an edge graph does not fit the tables it is meant for. Sizes are numbers of slots. -/
inductive GraphFault where
  | root (slot : ImportKey) (size : Nat)
  | key (slot : ExportKey) (size : Nat)
  | successor (slot : ImportKey) (of : ExportKey) (size : Nat)
  | other (text : String)
  deriving DecidableEq

def GraphFault.message : GraphFault → String
  | .root slot size => s!"root slot {slot.number} out of range ({size})"
  | .key slot size => s!"key {slot.number} out of range ({size})"
  | .successor slot of size => s!"successor {slot.number} of {of.number} out of range ({size})"
  | .other text => text

/-- Why an object cannot be used as asked. `side` is the name of the side that was asked. -/
inductive HandleFault where
  | dead (id : ObjectId)
  | notPlain (id : ObjectId)
  | noField (id : ObjectId) (field : Nat)
  | deadShare (side : String) (id : ObjectId)
  | notProxy (side : String) (id : ObjectId)
  | notLive (side : String) (slot : ExportKey)
  | other (text : String)
  deriving DecidableEq

def HandleFault.message : HandleFault → String
  | .dead id => s!"{id.text} is dead"
  | .notPlain id => s!"{id.text} is not a plain object"
  | .noField id field => s!"{id.text} has no field {field}"
  | .deadShare side id => s!"{side}: cannot export dead {id.text}"
  | .notProxy side id => s!"{side}: {id.text} is not a proxy"
  | .notLive side slot => s!"{side}: export slot {slot.number} is not live"
  | .other text => text

inductive SettingsFault where
  | graphMode (text : String)
  | queueCapacity (detail : String)
  | threshold (detail : String)
  deriving DecidableEq

def SettingsFault.message : SettingsFault → String
  | .graphMode text => s!"Invalid graph mode: {text}"
  | .queueCapacity detail => s!"Invalid queue capacity: {detail}"
  | .threshold detail => s!"Invalid threshold: {detail}"

inductive Fault where
  /-- A slot that a repair record still names holds another object. -/
  | brokenSlot (number : Nat)
  | graph (cause : GraphFault)
  | text (cause : TextFault)
  | exhausted (resource : String)
  | handle (cause : HandleFault)
  | configuration (detail : String)
  /-- A number too large for a slot. -/
  | slotNumber (n : Nat)
  /-- A position outside its list. -/
  | outOfBounds (position size : Nat)
  /-- An array of more items than can be addressed. -/
  | oversized (count : Nat)
  deriving DecidableEq

namespace Fault

def settings (f : SettingsFault) : Fault := .configuration f.message

def message : Fault → String
  | .brokenSlot number => s!"broken export index: {number}"
  | .graph cause => s!"invalid edge graph: {cause.message}"
  | .text cause => s!"edge graph serialization failed: {cause.message}"
  | .exhausted resource => s!"Resource exhausted: {resource}"
  | .handle cause => s!"invalid handle: {cause.message}"
  | .configuration detail => s!"Configuration error: {detail}"
  | .slotNumber n => s!"Index {n} exceeds u32::MAX"
  | .outOfBounds position size => s!"index {position} out of bounds ({size})"
  | .oversized count => s!"capacity overflow ({count})"

/-- Whether the same request can succeed later. -/
def isRecoverable : Fault → Bool
  | .exhausted _ | .graph _ => true
  | _ => false

/-- Whether an invariant of the tables is broken. -/
def isBug : Fault → Bool
  | .brokenSlot _ => true
  | _ => false

/-- Whether the request stops where it stands, leaving half of its work done. -/
def isFatal : Fault → Bool
  | .slotNumber _ | .outOfBounds _ _ | .oversized _ => true
  | _ => false

end Fault

end TwinHeap
