import TwinHeap.Side

/-! The collection manager of the side that receives an edge graph. It severs the exported slots that
the other side's roots do not reach, and leaves with the proxies what they need for a repair.

Everything is planned on the tables as they are before any of them changes. -/
namespace TwinHeap

inductive Phase where
  | repair
  | rootMark
  | livenessCheck
  | unlink
  | installOverrides
  | nativeGc
  deriving DecidableEq

def Phase.name : Phase → String
  | .repair => "repair"
  | .rootMark => "root_mark"
  | .livenessCheck => "liveness_check"
  | .unlink => "unlink"
  | .installOverrides => "install_overrides"
  | .nativeGc => "native_gc"

/-- What one run of the manager did. -/
structure ManagerReport where
  roots : Nat
  /-- Proxies that received a record. -/
  records : Nat
  unlinked : Nat
  repaired : Nat
  /-- Whether this run made the table look for severed objects. -/
  overridden : Bool := false
  native : Option Sweep := none
  /-- In the order in which they were run. -/
  phases : List Phase
  deriving DecidableEq

/-- An edge graph in the numbering of the side that received it. -/
structure IncomingGraph where
  roots : List ExportKey
  edges : List (ImportKey × List ExportKey)

namespace IncomingGraph

def checkEntry (exportSize importSize : Nat) (e : ExportKey × List ImportKey) :
    Except GraphFault Unit :=
  if e.1.number < importSize then
    match e.2.find? fun j => decide (exportSize ≤ j.number) with
    | some j => .error (.successor j e.1 exportSize)
    | none => .ok ()
  else .error (.key e.1 importSize)

/-- The first slot that the tables do not have is the fault. -/
def check (g : EdgeGraph) (exportSize importSize : Nat) : Except GraphFault Unit :=
  match g.root.find? fun j => decide (exportSize ≤ j.number) with
  | some j => .error (.root j exportSize)
  | none => g.edges.entries.forM (checkEntry exportSize importSize)

def ofGraph (g : EdgeGraph) (s : Side) : Except Fault IncomingGraph :=
  match check g s.exports.size s.imports.size with
  | .error f => .error (.graph f)
  | .ok _ =>
    .ok
      { roots := g.root.map ImportKey.across
        edges := g.edges.entries.map fun e => (e.1.across, e.2.map ImportKey.across) }

end IncomingGraph

/-- The changes that a run of the manager is going to make. -/
structure CollectionPlan where
  repair : RepairPlan
  records : List (ObjectId × RepairRecord)
  unlink : List (ExportKey × ObjectId)

namespace CollectionPlan

/-- The object of a slot once `repair` has been carried out. -/
def repaired? (s : Side) (repair : RepairPlan) (k : ExportKey) : Option ObjectId :=
  match s.exports.object? k with
  | some id => some id
  | none => repair.restores.find? k

/-- The record that keeps `keys` for a proxy, with the slots that have an object. -/
def recordOf (s : Side) (repair : RepairPlan) (keys : List ExportKey) : RepairRecord :=
  keys.foldl (fun r k =>
    match repaired? s repair k with
    | some id => r.push k id
    | none => r) {}

/-- Plans on top of `repair`: a record for each live proxy with successors, and the severing of each
slot with an object that is not a root. -/
def of (s : Side) (g : IncomingGraph) (repair : RepairPlan) : CollectionPlan :=
  let rootMarks := g.roots.foldl (fun m k => m.insert k.number) (SlotSet.withRoom s.exports.size)
  { repair
    records := g.edges.filterMap fun (k, successors) =>
      match s.imports.proxy? s.heap k with
      | none => none
      | some p =>
        let r := recordOf s repair successors
        if r.keys.isEmpty then none else some (p, r)
    unlink := s.exports.rows.keys.filterMap fun k =>
      if rootMarks.contains k.number then none else (repaired? s repair k).map fun id => (k, id) }

end CollectionPlan

namespace RepairRecord

/-- Notes one more slot, or another object for a slot that is listed already. A slot that is listed
without an object has no place for one. -/
def note (r : RepairRecord) (k : ExportKey) (id : ObjectId) : Except Fault RepairRecord :=
  match r.keys.findIdx? fun j => decide (j = k) with
  | none => .ok (r.push k id)
  | some n =>
    if n < r.objects.length then .ok { r with objects := r.objects.set n id }
    else .error (.outOfBounds n r.objects.length)

/-- Notes the entries of a record one by one, as far as possible. -/
def merge (r : RepairRecord) : List (ExportKey × ObjectId) → RepairRecord × Except Fault Unit
  | [] => (r, .ok ())
  | e :: rest =>
    match r.note e.1 e.2 with
    | .error f => (r, .error f)
    | .ok r => r.merge rest

end RepairRecord

namespace Side

/-- Attaches a record to a proxy, next to what its record says already. -/
def attachRecord (s : Side) (p : ObjectId) (r : RepairRecord) : Outcome Side (Except Fault Unit) :=
  match s.heap.proxy? p with
  | none => { state := s, answer := .ok () }
  | some proxy =>
    match proxy.record with
    | none => { state := { s with heap := s.heap.setRecord p (some r) }, answer := .ok () }
    | some old =>
      let (merged, answer) := old.merge r.entries
      { state := { s with heap := s.heap.setRecord p (some merged) }, answer }

def attachRecords (s : Side) : List (ObjectId × RepairRecord) → Outcome Side (Except Fault Unit)
  | [] => { state := s, answer := .ok () }
  | (p, r) :: rest =>
    let attached := s.attachRecord p r
    match attached.answer with
    | .error f => { state := attached.state, answer := .error f }
    | .ok _ => attached.state.attachRecords rest

/-- Severs the planned slots and remembers what they held. -/
def unlink (s : Side) (slots : List (ExportKey × ObjectId)) : Outcome Side Unit :=
  let exports := slots.foldl (fun t e => (t.detach e.1).2) s.exports
  { state := { s with exports := exports.setUnlinked (slots.map fun e => (e.2, e.1)) }
    answer := ()
    notices := slots.map fun e => .unlinked s.name e.1 e.2 }

end Side

structure Manager where
  /-- Runs that were completed. -/
  cycles : Nat := 0
  deriving DecidableEq

namespace Manager

/-- Attaches the planned records and severs the planned slots. -/
def sever (s : Side) (plan : CollectionPlan) : Outcome Side (Except Fault Unit) :=
  let attached := s.attachRecords plan.records
  match attached.answer with
  | .error f => { state := attached.state, answer := .error f }
  | .ok _ =>
    let r := attached.state.unlink plan.unlink
    { state := r.state, answer := .ok (), notices := r.notices }

/-- Counts a run and closes it. -/
def finish (m : Manager) (s : Side) (report : ManagerReport) (notices : List Notice) :
    Outcome (Manager × Side) (Except Fault ManagerReport) :=
  let cycles := m.cycles + 1
  let closing : Notice :=
    .managed s.name cycles report.roots report.records report.unlinked report.repaired
  { state := ({ cycles }, s), answer := .ok report, notices := notices ++ [closing] }

/-- Carries a plan out, repair first. -/
def carryOut (m : Manager) (s : Side) (g : IncomingGraph) (plan : CollectionPlan) :
    Outcome (Manager × Side) (Except Fault ManagerReport) :=
  let repaired := s.commitRepair plan.repair
  let severed := sever repaired.state.finishRepair plan
  let notices := repaired.notices ++ severed.notices
  match severed.answer with
  | .error f => { state := (m, severed.state), answer := .error f, notices }
  | .ok _ =>
    let first := !severed.state.exports.overridden
    let s := { severed.state with exports := severed.state.exports.override }
    m.finish s
      { roots := g.roots.length
        records := plan.records.length
        unlinked := plan.unlink.length
        repaired := repaired.answer
        overridden := first
        phases := [.repair, .rootMark, .livenessCheck, .unlink, .installOverrides] }
      (notices ++ if first then [.overridden s.name] else [])

/-- Repairs what the surviving proxies ask for, then severs by the graph. -/
def collect (m : Manager) (s : Side) (g : EdgeGraph) :
    Outcome (Manager × Side) (Except Fault ManagerReport) :=
  match IncomingGraph.ofGraph g s with
  | .error f => { state := (m, s), answer := .error f }
  | .ok incoming =>
    match s.planRepair s.liveProxies with
    | .error f => { state := (m, s), answer := .error f }
    | .ok repair => m.carryOut s incoming (.of s incoming repair)

/-- Severs by the graph, runs the native collector, and repairs what the surviving proxies ask
for. -/
def forceNative (m : Manager) (s : Side) (incoming : IncomingGraph) :
    Outcome (Manager × Side) (Except Fault ManagerReport) :=
  let plan := CollectionPlan.of s incoming {}
  let severed := sever s plan
  match severed.answer with
  | .error f => { state := (m, severed.state), answer := .error f, notices := severed.notices }
  | .ok _ =>
    let swept := severed.state.nativeCollect
    let repaired := swept.state.repairAll
    let notices := severed.notices ++ swept.notices ++ repaired.notices
    match repaired.answer with
    | .error f => { state := (m, repaired.state), answer := .error f, notices }
    | .ok count =>
      m.finish repaired.state
        { roots := incoming.roots.length
          records := plan.records.length
          unlinked := plan.unlink.length
          repaired := count
          native := some swept.answer
          phases := [.rootMark, .livenessCheck, .unlink, .nativeGc, .repair] }
        notices

def collectForced (m : Manager) (s : Side) (g : EdgeGraph) :
    Outcome (Manager × Side) (Except Fault ManagerReport) :=
  match IncomingGraph.ofGraph g s with
  | .error f => { state := (m, s), answer := .error f }
  | .ok incoming => m.forceNative s incoming

/-- Reads the graph from its written form, and collects in the mode asked for. -/
def collectText (m : Manager) (s : Side) (forced : Bool) (text : String) :
    Outcome (Manager × Side) (Except Fault ManagerReport) :=
  match EdgeGraph.ofText text with
  | .error f => { state := (m, s), answer := .error (.text f) }
  | .ok g => if forced then m.collectForced s g else m.collect s g

end Manager

end TwinHeap
