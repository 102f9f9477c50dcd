import TwinHeap.Event
import TwinHeap.Rows

/-! The arena of one side: objects in numbered cells, and the set of roots. -/
namespace TwinHeap

structure Cell where
  /-- Counts the objects this cell has lost. -/
  generation : UInt32 := 0
  occupant : Option Object := none
  deriving DecidableEq

/-- Names the entry of a root, not the object. -/
structure RootHandle where
  number : Nat
  deriving DecidableEq

structure Heap where
  cells : Array Cell := #[]
  /-- Empty cells, the next one to be used first. -/
  free : List Nat := []
  roots : Array (Option ObjectId) := #[]
  /-- Entries of removed roots, the next one to be used first. -/
  freeRoots : List Nat := []
  /-- How many cells are occupied. -/
  live : Nat := 0
  deriving DecidableEq

namespace Heap

/-- The number of cells ever used. -/
def capacity (h : Heap) : Nat := h.cells.size

/-- There is a cell for another object, or a number for a new cell. -/
def hasRoom (h : Heap) : Bool := !h.free.isEmpty || decide (h.cells.size < slotLimit)

/-- An empty cell is used before a new one is added. -/
def place (h : Heap) (o : Object) : ObjectId × Heap :=
  match h.free with
  | slot :: free =>
    let generation := (h.cells[slot]?.map Cell.generation).getD 0
    (⟨slot, generation⟩,
      { h with
        cells := h.cells.modify slot fun c => { c with occupant := some o }
        free
        live := h.live + 1 })
  | [] =>
    (⟨h.cells.size, 0⟩,
      { h with cells := h.cells.push { occupant := some o }, live := h.live + 1 })

def noRoom : Fault := .exhausted "heap slot numbers"

/-- Fails when all the cells that can be numbered are in use. -/
def alloc (h : Heap) (o : Object) : Outcome Heap (Except Fault ObjectId) :=
  if h.hasRoom then
    let (id, h) := h.place o
    { state := h, answer := .ok id }
  else { state := h, answer := .error noRoom }

def get? (h : Heap) (id : ObjectId) : Option Object :=
  match h.cells[id.slot]? with
  | some c => if c.generation = id.generation then c.occupant else none
  | none => none

def isAlive (h : Heap) (id : ObjectId) : Bool := (h.get? id).isSome

def classOf? (h : Heap) (id : ObjectId) : Option ObjectClass := (h.get? id).map Object.cls

def field? (h : Heap) (id : ObjectId) (n : Nat) : Option Value :=
  ((h.get? id).bind Object.fields?).bind fun fields => fields[n]?

def proxy? (h : Heap) (id : ObjectId) : Option Proxy := (h.get? id).bind Object.proxy?

/-- The referent of a weak reference, while both are alive. -/
def weakTarget? (h : Heap) (id : ObjectId) : Option ObjectId :=
  ((h.get? id).bind Object.weakTarget?).filter h.isAlive

/-- The strong references out of `id`, dead ones included. -/
def children (h : Heap) (id : ObjectId) : List ObjectId :=
  ((h.get? id).map Object.children).getD []

/-- Changes what a cell holds, whatever its generation. -/
def put (h : Heap) (slot : Nat) (o : Object) : Heap :=
  { h with cells := h.cells.modify slot fun c => { c with occupant := some o } }

/-- The fields of a live plain object. -/
def plainFields (h : Heap) (id : ObjectId) : Except Fault (ObjectClass × List Value) :=
  match h.get? id with
  | none => .error (.handle (.dead id))
  | some o =>
    match o.fields? with
    | none => .error (.handle (.notPlain id))
    | some fields => .ok (o.cls, fields)

def setField (h : Heap) (id : ObjectId) (n : Nat) (v : Value) : Except Fault Heap :=
  match h.plainFields id with
  | .error f => .error f
  | .ok (c, fields) =>
    if n < fields.length then .ok (h.put id.slot (.plain c (fields.set n v)))
    else .error (.handle (.noField id n))

def pushField (h : Heap) (id : ObjectId) (v : Value) : Except Fault Heap :=
  match h.plainFields id with
  | .error f => .error f
  | .ok (c, fields) => .ok (h.put id.slot (.plain c (fields ++ [v])))

/-- Replaces the record of a live proxy; other objects stay as they are. -/
def setRecord (h : Heap) (id : ObjectId) (record : Option RepairRecord) : Heap :=
  match h.get? id with
  | some ⟨c, .proxy p⟩ => h.put id.slot ⟨c, .proxy { p with record }⟩
  | _ => h

def addRoot (h : Heap) (id : ObjectId) : RootHandle × Heap :=
  match h.freeRoots with
  | n :: freeRoots => (⟨n⟩, { h with roots := h.roots.setIfInBounds n (some id), freeRoots })
  | [] => (⟨h.roots.size⟩, { h with roots := h.roots.push (some id) })

/-- A handle that was never given out changes nothing. -/
def setRoot (h : Heap) (r : RootHandle) (id : Option ObjectId) : Heap :=
  { h with roots := h.roots.setIfInBounds r.number id }

/-- Removing a root twice frees its entry once, unless the entry was filled in between. -/
def removeRoot (h : Heap) (r : RootHandle) : Heap :=
  match h.roots[r.number]? with
  | none => h
  | some entry =>
    let cleared := { h with roots := h.roots.setIfInBounds r.number none }
    if entry.isSome || !h.freeRoots.contains r.number then
      { cleared with freeRoots := r.number :: h.freeRoots }
    else cleared

/-- The roots in the order of their handles. -/
def rootIds (h : Heap) : List ObjectId := h.roots.toList.filterMap id

theorem isAlive_slot {h : Heap} {id : ObjectId} (alive : h.isAlive id = true) :
    id.slot < h.capacity := by
  unfold isAlive get? at alive
  split at alive
  · rename_i hc
    exact (Array.getElem?_eq_some_iff.1 hc).1
  · cases alive

end Heap

end TwinHeap
