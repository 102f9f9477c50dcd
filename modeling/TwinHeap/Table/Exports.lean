import TwinHeap.Assoc
import TwinHeap.Event
import TwinHeap.Rows

/-! The export table: the objects of one side that the other side can address by slot. -/
namespace TwinHeap

/-- The content of an export slot. A detached slot has lost its object to the collection manager but
keeps its number, so that the object can come back to it. -/
inductive ExportEntry where
  | free
  | detached
  | live (id : ObjectId)
  deriving DecidableEq

structure Exports where
  rows : Rows ExportKey ExportEntry := {}
  /-- The slot of each object in a live slot. -/
  places : Assoc ObjectId ExportKey := {}
  /-- Slots ready for reuse, the next one first. -/
  free : List ExportKey := []
  /-- Slots that were released while detached, the latest first. A repair record may still name
  them, so they are not reused before the next repair. -/
  quarantine : List ExportKey := []
  /-- The objects severed by the last unlinking with the slots they lost. -/
  unlinked : Option (Assoc ObjectId ExportKey) := none
  /-- Whether severed objects are looked for when they are exported again. -/
  overridden : Bool := false
  deriving DecidableEq

namespace Exports

def size (t : Exports) : Nat := t.rows.size

def entry? (t : Exports) (k : ExportKey) : Option ExportEntry := t.rows.get? k

def object? (t : Exports) (k : ExportKey) : Option ObjectId :=
  match t.entry? k with
  | some (.live id) => some id
  | _ => none

def keyOf? (t : Exports) (id : ObjectId) : Option ExportKey := t.places.find? id

def liveObjects (t : Exports) : List (ExportKey × ObjectId) :=
  t.rows.entries.filterMap fun (k, e) =>
    match e with
    | .live id => some (k, id)
    | _ => none

def detachedKeys (t : Exports) : List ExportKey :=
  t.rows.entries.filterMap fun (k, e) => if e = .detached then some k else none

def liveCount (t : Exports) : Nat := t.places.size

def unlinkedCount (t : Exports) : Nat := (t.unlinked.map Assoc.size).getD 0

/-- Puts an object into a slot, which is made if it does not exist. -/
def restore (t : Exports) (k : ExportKey) (id : ObjectId) : Exports :=
  { t with
    rows := (t.rows.reach k fun _ => .free).set k (.live id)
    places := t.places.insert id k }

/-- Severs a live slot; the answer is the object it held. -/
def detach (t : Exports) (k : ExportKey) : Option ObjectId × Exports :=
  match t.object? k with
  | none => (none, t)
  | some id => (some id, { t with rows := t.rows.set k .detached, places := t.places.erase id })

/-- Gives a slot up when the other side has dropped its proxy; the answer is the object it held. -/
def release (t : Exports) (k : ExportKey) : Option ObjectId × Exports :=
  match t.entry? k with
  | some (.live id) =>
    (some id,
      { t with rows := t.rows.set k .free, places := t.places.erase id, free := k :: t.free })
  | some .detached =>
    (none, { t with rows := t.rows.set k .free, quarantine := k :: t.quarantine })
  | _ => (none, t)

/-- Gives `id` the slot back that the last unlinking took from it. The note of the unlinking is
spent even if the slot has gone to another object since. -/
def regain (t : Exports) (id : ObjectId) : Outcome Exports (Option ExportKey) :=
  match t.unlinked.bind fun m => m.find? id with
  | none => { state := t, answer := none }
  | some k =>
    let spent : Exports := { t with unlinked := t.unlinked.map fun m => m.erase id }
    match t.entry? k with
    | some .detached =>
      { state := spent.restore k id, answer := some k, notices := [.reExported id k] }
    | some (.live other) => { state := spent, answer := if other = id then some k else none }
    | _ => { state := spent, answer := none }

/-- Gives `id` a slot of its own: a free one, or a new one. -/
def assign (t : Exports) (id : ObjectId) : Outcome Exports (Except Fault ExportKey) :=
  match t.free with
  | k :: free =>
    { state :=
        { t with rows := t.rows.set k (.live id), places := t.places.insert id k, free }
      answer := .ok k }
  | [] =>
    if t.size < slotLimit then
      let k := t.rows.nextKey
      { state := { t with rows := t.rows.push (.live id), places := t.places.insert id k }
        answer := .ok k }
    else { state := t, answer := .error (.slotNumber t.size) }

/-- The slot by which the other side addresses `id`. -/
def share (t : Exports) (id : ObjectId) : Outcome Exports (Except Fault ExportKey) :=
  let regained := if t.overridden then t.regain id else { state := t, answer := none }
  match regained.answer with
  | some k => { state := regained.state, answer := .ok k, notices := regained.notices }
  | none =>
    match regained.state.keyOf? id with
    | some k => { state := regained.state, answer := .ok k }
    | none => regained.state.assign id

/-- Gives the detached slot `k` the object back that the last unlinking took from it. -/
def reinstate (t : Exports) (k : ExportKey) : Outcome Exports (Option ObjectId) :=
  if t.entry? k = some .detached then
    match t.unlinked.bind fun m => m.keyOf? k with
    | none => { state := t, answer := none }
    | some id =>
      let spent : Exports := { t with unlinked := t.unlinked.map fun m => m.erase id }
      { state := spent.restore k id
        answer := some id
        notices := [.cameHome k id] }
  else { state := t, answer := none }

def setUnlinked (t : Exports) (pairs : List (ObjectId × ExportKey)) : Exports :=
  { t with unlinked := some (.ofList pairs) }

/-- Forgets the last unlinking and frees the quarantined slots. -/
def finishRepair (t : Exports) : Exports :=
  { t with unlinked := none, free := t.quarantine ++ t.free, quarantine := [] }

def override (t : Exports) : Exports := { t with overridden := true }

end Exports

end TwinHeap
