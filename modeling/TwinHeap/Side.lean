import TwinHeap.EdgeGraph.Approximate
import TwinHeap.Heap.Collect
import TwinHeap.Parcel

/-! One side of a bridge: a heap with its two tables, and the repair of slots that the collection
manager has severed. -/
namespace TwinHeap

structure Side where
  name : String
  heap : Heap := {}
  exports : Exports := {}
  imports : Imports := {}
  deriving DecidableEq

/-- Slots to be restored, and the proxies whose records ask for it. -/
structure RepairPlan where
  restores : Assoc ExportKey ObjectId := {}
  proxies : List ObjectId := []

namespace RepairPlan

/-- Plans one entry of a record against the tables. An entry for a slot that holds its object again,
or that has been released, asks for nothing. -/
def addEntry (exports : Exports) (plan : RepairPlan) (e : ExportKey × ObjectId) :
    Except Fault RepairPlan :=
  match exports.entry? e.1 with
  | some .detached =>
    match plan.restores.find? e.1 with
    | some planned =>
      if planned = e.2 then .ok plan else .error (.brokenSlot e.1.number)
    | none => .ok { plan with restores := plan.restores.insert e.1 e.2 }
  | some (.live current) =>
    if current = e.2 then .ok plan else .error (.brokenSlot e.1.number)
  | _ => .ok plan

def addProxy (h : Heap) (exports : Exports) (plan : RepairPlan) (p : ObjectId) :
    Except Fault RepairPlan :=
  match (h.proxy? p).bind Proxy.record with
  | none => .ok plan
  | some r => r.entries.foldlM (addEntry exports) { plan with proxies := plan.proxies ++ [p] }

end RepairPlan

namespace Side

def share (s : Side) (id : ObjectId) : Outcome Side (Except Fault ExportKey) :=
  if s.heap.isAlive id then (s.exports.share id).into fun exports => { s with exports }
  else { state := s, answer := .error (.handle (.deadShare s.name id)) }

def proxyFor (s : Side) (k : ImportKey) : Outcome Side (Except Fault ObjectId) :=
  (s.imports.proxyFor s.heap k).into fun (heap, imports) => { s with heap, imports }

def liveProxies (s : Side) : List ObjectId := (s.imports.liveProxies s.heap).map Prod.snd

/-- The slot that a live proxy stands for. -/
def remoteKey? (s : Side) (id : ObjectId) : Option ImportKey := (s.heap.proxy? id).map Proxy.key

def deadKeys (s : Side) : List ImportKey := s.imports.deadKeys s.heap

def scavenge (s : Side) : List ImportKey × Side :=
  let (dead, imports) := s.imports.scavenge s.heap
  (dead, { s with imports })

/-- Releases slots that the other side no longer needs; the answer counts those that were in use
before. -/
def release (s : Side) (keys : List ExportKey) : Outcome Side Nat :=
  let used := keys.countP fun k => match s.exports.entry? k with
    | some .free | none => false
    | _ => true
  { state := { s with exports := keys.foldl (fun t k => (t.release k).2) s.exports }
    answer := used
    notices := [.released s.name used] }

/-- Runs the native collector; exported objects are roots. -/
def nativeCollect (s : Side) : Outcome Side Sweep :=
  (s.heap.collect (s.exports.liveObjects.map Prod.snd)).into fun heap => { s with heap }

def buildGraph (s : Side) (mode : GraphMode) (o : BuildOptions) :
    Noted (Except Fault EdgeGraph) :=
  EdgeGraph.build mode s.heap s.exports s.imports o

/-- Plans the repair that the records of some proxies ask for. -/
def planRepair (s : Side) (proxies : List ObjectId) : Except Fault RepairPlan :=
  proxies.foldlM (RepairPlan.addProxy s.heap s.exports) {}

/-- Carries a plan out; the answer counts the restored slots. -/
def commitRepair (s : Side) (plan : RepairPlan) : Outcome Side Nat :=
  { state :=
      { s with
        exports := plan.restores.entries.foldl (fun t e => t.restore e.1 e.2) s.exports
        heap := plan.proxies.foldl (fun h p => h.setRecord p none) s.heap }
    answer := plan.restores.size
    notices := plan.restores.entries.map fun e => .repaired s.name e.1 e.2 }

/-- Applies the record of one proxy. -/
def repairProxy (s : Side) (p : ObjectId) : Outcome Side (Except Fault Nat) :=
  match s.planRepair [p] with
  | .error f => { state := s, answer := .error f }
  | .ok plan =>
    let r := s.commitRepair plan
    { state := r.state, answer := .ok r.answer, notices := r.notices }

def finishRepair (s : Side) : Side := { s with exports := s.exports.finishRepair }

/-- Applies the records of all live proxies and forgets the last unlinking. -/
def repairAll (s : Side) : Outcome Side (Except Fault Nat) :=
  match s.planRepair s.liveProxies with
  | .error f => { state := s, answer := .error f }
  | .ok plan =>
    let r := s.commitRepair plan
    { state := r.state.finishRepair, answer := .ok r.answer, notices := r.notices }

/-- Hands a proxy back to the owner of its object. The record of the proxy is applied first. -/
def handBack (s : Side) (p : ObjectId) : Outcome Side (Except Fault ImportKey) :=
  match s.remoteKey? p with
  | none => { state := s, answer := .error (.handle (.notProxy s.name p)) }
  | some k =>
    let r := s.repairProxy p
    { state := r.state, answer := r.answer.map fun _ => k, notices := r.notices }

/-- Turns a value into a parcel. -/
def encode (s : Side) : Value → Outcome Side (Except Fault Parcel)
  | .nil => { state := s, answer := .ok .nil }
  | .int n => { state := s, answer := .ok (.int n) }
  | .ref id =>
    if (s.heap.proxy? id).isSome then
      let r := s.handBack id
      { state := r.state, answer := r.answer.map .returned, notices := r.notices }
    else
      let r := s.share id
      { state := r.state, answer := r.answer.map .exported, notices := r.notices }

/-- Makes a slot that comes home usable: if it is detached, by the last unlinking or else by
applying all records. -/
def recover (s : Side) (k : ExportKey) : Outcome Side (Except Fault Unit) :=
  if s.exports.entry? k = some .detached then
    let r := s.exports.reinstate k
    match r.answer with
    | some _ => { state := { s with exports := r.state }, answer := .ok (), notices := r.notices }
    | none =>
      let r := s.repairAll
      { state := r.state, answer := r.answer.map fun _ => (), notices := r.notices }
  else { state := s, answer := .ok () }

/-- Turns a parcel into a value. -/
def decode (s : Side) : Parcel → Outcome Side (Except Fault Value)
  | .nil => { state := s, answer := .ok .nil }
  | .int n => { state := s, answer := .ok (.int n) }
  | .exported k =>
    let r := s.proxyFor k.across
    { state := r.state, answer := r.answer.map .ref, notices := r.notices }
  | .returned k =>
    let r := s.recover k.across
    let answer :=
      match r.answer with
      | .error f => .error f
      | .ok _ =>
        match r.state.exports.object? k.across with
        | some id => .ok (.ref id)
        | none => .error (.handle (.notLive s.name k.across))
    { state := r.state, answer, notices := r.notices }

end Side

end TwinHeap
