import TwinHeap.Journal
import TwinHeap.Manager
import TwinHeap.Tally

/-! Collection cycles: one side summarises its heap, the manager of the other side acts on the
summary. No time is measured here, so that every duration on record is zero. -/
namespace TwinHeap

structure CycleReport where
  cycle : Nat
  mode : GraphMode
  entries : Nat
  roots : Nat
  edges : Nat
  records : Nat
  unlinked : Nat
  repaired : Nat
  /-- Slots of the far side that are live, and that are detached, after the cycle. -/
  live : Nat
  detached : Nat
  native : Option Sweep
  deriving DecidableEq

structure Collector where
  settings : Settings
  journal : Journal := {}
  tally : Tally := {}
  /-- Cycles that were begun. -/
  cycle : Nat := 0

namespace Collector

def withJournal (settings : Settings) (journal : Journal) : Except Fault Collector :=
  match settings.check with
  | .error f => .error (.settings f)
  | .ok _ => .ok { settings, journal }

def new (settings : Settings) : Except Fault Collector :=
  withJournal settings { settings := if settings.verbose then .verbose else {} }

def buildGraph (c : Collector) (s : Side) : Noted (Except Fault EdgeGraph) :=
  s.buildGraph c.settings.graphMode c.settings.buildOptions

def takeSizes (c : Collector) : List (Nat × Nat) × Collector :=
  let (sizes, tally) := c.tally.takeSizes
  (sizes, { c with tally })

def record (c : Collector) (es : List Event) : Outcome Collector Unit :=
  (c.journal.recordAll es).into fun journal => { c with journal }

def startEvent (c : Collector) : Event :=
  .cycleStart c.cycle c.settings.graphMode.name
    (if c.settings.forceNative then "forced native gc" else "scheduled")

def reportOf (c : Collector) (g : EdgeGraph) (r : ManagerReport) (far : Side) : CycleReport :=
  { cycle := c.cycle
    mode := c.settings.graphMode
    entries := g.size
    roots := g.rootCount
    edges := g.edgeCount
    records := r.records
    unlinked := r.unlinked
    repaired := r.repaired
    live := far.exports.liveCount
    detached := far.exports.detachedKeys.length
    native := r.native }

def endEvents (c : Collector) (r : ManagerReport) (report : CycleReport) : List Event :=
  r.phases.map (fun p => .phaseEnd c.cycle p.name 0.0) ++
    [.unlinked c.cycle r.unlinked, .repaired c.cycle r.repaired,
      .cycleEnd c.cycle 0.0 report.live report.detached]

/-- Books a cycle that failed. A fatal fault leaves no trace. -/
def fail (c : Collector) (f : Fault) : Outcome Collector (Except Fault CycleReport) :=
  if f.isFatal then { state := c, answer := .error f }
  else
    let booked := { c with tally := c.tally.addFailure }.record [.cycleFailed c.cycle f.message]
    { state := booked.state, answer := .error f, notices := booked.notices }

/-- Books the result of a cycle. -/
def close (c : Collector) (g : EdgeGraph) (far : Side) (result : Except Fault ManagerReport) :
    Outcome Collector (Except Fault CycleReport) :=
  match result with
  | .ok r =>
    let report := c.reportOf g r far
    let c := { c with tally := c.tally.addCycle r.unlinked r.repaired 0 }
    let booked := c.record (c.endEvents r report)
    { state := booked.state, answer := .ok report, notices := booked.notices }
  | .error f => c.fail f

/-- Runs one cycle from `near` into `far`. The graph crosses in its written form. -/
def collect (c : Collector) (near far : Side) (m : Manager) :
    Outcome (Collector × Side × Manager) (Except Fault CycleReport) :=
  let c := { c with cycle := c.cycle + 1 }
  let started := c.record [c.startEvent]
  let built := started.state.buildGraph near
  let notices := started.notices ++ built.notices
  match built.answer with
  | .error f =>
    let closed := started.state.fail f
    { state := (closed.state, far, m)
      answer := closed.answer
      notices := notices ++ closed.notices }
  | .ok g =>
    let c := { started.state with tally := started.state.tally.addGraph g.rootCount g.edgeCount }
    let announced := c.record [.graphBuilt c.cycle g.size g.rootCount g.edgeCount]
    let managed := m.collectText far c.settings.forceNative g.toText
    let (m, far) := managed.state
    let closed := announced.state.close g far managed.answer
    { state := (closed.state, far, m)
      answer := closed.answer
      notices := notices ++ announced.notices ++ managed.notices ++ closed.notices }

/-- Books dead references that were released on a side. -/
def recordReleased (c : Collector) (side : String) (count : Nat) : Outcome Collector Unit :=
  if count = 0 then { state := c, answer := () }
  else { c with tally := c.tally.addReleased count }.record [.released side count]

end Collector

end TwinHeap
