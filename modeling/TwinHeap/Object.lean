/-! Objects, the values they hold and the names by which they are addressed. -/
namespace TwinHeap

/-- A name for one allocation: the arena slot it took and that slot's generation at the time.
A name outlives its object and then names nothing, until the generation has gone all the way round. -/
structure ObjectId where
  slot : Nat
  generation : UInt32
  deriving DecidableEq, Inhabited

def ObjectId.text (id : ObjectId) : String :=
  s!"#{id.slot}.{id.generation.toNat}"

/-- Any class can be chosen as the opaque one, so classes are numbers and not a closed list. -/
structure ObjectClass where
  number : UInt32
  deriving DecidableEq

namespace ObjectClass

def ordinary : ObjectClass := ⟨0⟩
def hidden : ObjectClass := ⟨1⟩
def weakRef : ObjectClass := ⟨2⟩
def proxy : ObjectClass := ⟨3⟩

/-- The first number that the library leaves to its users. -/
def firstUser : UInt32 := 16

def user (n : UInt32) : ObjectClass := ⟨firstUser + n⟩

end ObjectClass

inductive Value where
  | nil
  | int (n : Int64)
  | ref (object : ObjectId)
  deriving DecidableEq

def Value.object? : Value → Option ObjectId
  | .ref o => some o
  | _ => none

/-- A slot has one number on both sides of the bridge. An `ExportKey` reads it in the table of the
side that owns the object, an `ImportKey` in the table of the side that holds a proxy. -/
structure ExportKey where
  number : Nat
  deriving DecidableEq

@[inherit_doc ExportKey]
structure ImportKey where
  number : Nat
  deriving DecidableEq

/-- The same slot as the other side numbers it. -/
def ExportKey.across (k : ExportKey) : ImportKey := ⟨k.number⟩

@[inherit_doc ExportKey.across]
def ImportKey.across (k : ImportKey) : ExportKey := ⟨k.number⟩

@[simp] theorem ExportKey.across_across (k : ExportKey) : k.across.across = k := rfl

@[simp] theorem ImportKey.across_across (k : ImportKey) : k.across.across = k := rfl

/-- The slots a proxy answers for while they are detached, each with the object it held.
The two lists are read pairwise; every listed object is held strongly, paired or not. -/
structure RepairRecord where
  keys : List ExportKey := []
  objects : List ObjectId := []
  deriving DecidableEq

namespace RepairRecord

def entries (r : RepairRecord) : List (ExportKey × ObjectId) := r.keys.zip r.objects

def push (r : RepairRecord) (k : ExportKey) (o : ObjectId) : RepairRecord :=
  { keys := r.keys ++ [k], objects := r.objects ++ [o] }

end RepairRecord

structure Proxy where
  /-- The slot of the represented object in its owner's table. -/
  key : ImportKey
  record : Option RepairRecord := none
  deriving DecidableEq

inductive Body where
  | plain (fields : List Value)
  | weak (target : ObjectId)
  | proxy (proxy : Proxy)
  deriving DecidableEq

structure Object where
  cls : ObjectClass
  body : Body
  deriving DecidableEq

namespace Object

def plain (c : ObjectClass) (fields : List Value) : Object := ⟨c, .plain fields⟩
def weak (target : ObjectId) : Object := ⟨.weakRef, .weak target⟩
def proxy (k : ImportKey) : Object := ⟨.proxy, .proxy { key := k }⟩

def fields? (o : Object) : Option (List Value) :=
  match o.body with
  | .plain fields => some fields
  | _ => none

def proxy? (o : Object) : Option Proxy :=
  match o.body with
  | .proxy p => some p
  | _ => none

def weakTarget? (o : Object) : Option ObjectId :=
  match o.body with
  | .weak t => some t
  | _ => none

/-- The objects this one keeps alive. The target of a weak reference is not among them. -/
def children (o : Object) : List ObjectId :=
  match o.body with
  | .plain fields => fields.filterMap Value.object?
  | .weak _ => []
  | .proxy p => (p.record.map RepairRecord.objects).getD []

end Object

end TwinHeap
