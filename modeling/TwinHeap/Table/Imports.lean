import TwinHeap.Heap

/-! The import table: the proxies of one side for objects of the other. It does not keep them
alive. -/
namespace TwinHeap

inductive ImportEntry where
  | empty
  /-- A number that stands for no object. -/
  | reserved (n : Int64)
  | weak (proxy : ObjectId)
  deriving DecidableEq

structure Imports where
  rows : Rows ImportKey ImportEntry := {}
  deriving DecidableEq

namespace Imports

def size (t : Imports) : Nat := t.rows.size

def entry? (t : Imports) (k : ImportKey) : Option ImportEntry := t.rows.get? k

/-- The proxy in a slot, while it is alive. -/
def proxy? (t : Imports) (h : Heap) (k : ImportKey) : Option ObjectId :=
  match t.entry? k with
  | some (.weak p) => if h.isAlive p then some p else none
  | _ => none

/-- The proxy for a slot of the other side, made if there is none. The slot exists afterwards, also if
there is no room for a proxy. -/
def proxyFor (t : Imports) (h : Heap) (k : ImportKey) :
    Outcome (Heap × Imports) (Except Fault ObjectId) :=
  match t.proxy? h k with
  | some p => { state := (h, t), answer := .ok p }
  | none =>
    let rows := t.rows.reach k fun _ => .empty
    let made := h.alloc (.proxy k)
    match made.answer with
    | .error f => { state := (made.state, { rows }), answer := .error f }
    | .ok p =>
      { state := (made.state, { rows := rows.set k (.weak p) })
        answer := .ok p
        notices := [.imported k p] }

def reserve (t : Imports) (k : ImportKey) (n : Int64) : Imports :=
  { rows := (t.rows.reach k fun _ => .empty).set k (.reserved n) }

def liveProxies (t : Imports) (h : Heap) : List (ImportKey × ObjectId) :=
  t.rows.entries.filterMap fun (k, e) =>
    match e with
    | .weak p => if h.isAlive p then some (k, p) else none
    | _ => none

/-- The slots whose proxy has been collected. -/
def deadKeys (t : Imports) (h : Heap) : List ImportKey :=
  t.rows.entries.filterMap fun (k, e) =>
    match e with
    | .weak p => if h.isAlive p then none else some k
    | _ => none

/-- Empties the slots whose proxy has been collected and names them. -/
def scavenge (t : Imports) (h : Heap) : List ImportKey × Imports :=
  let dead := t.deadKeys h
  (dead, { rows := dead.foldl (fun rows k => rows.set k .empty) t.rows })

end Imports

end TwinHeap
