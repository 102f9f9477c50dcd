import TwinHeap.Collector
import TwinHeap.Schedule

/-! Two sides and what couples them. Every value that crosses counts as a call, and the work that is
due is done before the value crosses. -/
namespace TwinHeap

structure Bridge where
  near : Side := { name := "local" }
  far : Side := { name := "remote" }
  schedule : Schedule
  collector : Collector
  manager : Manager := {}

/-- The places between which values cross. -/
inductive BridgeEnd where
  | near
  | far
  deriving DecidableEq

def BridgeEnd.other : BridgeEnd → BridgeEnd
  | .near => .far
  | .far => .near

/-- Export slots released on either side for dead proxies of the other. -/
structure Released where
  far : Nat
  near : Nat
  deriving DecidableEq

namespace Bridge

def new (settings : Settings) : Except Fault Bridge :=
  (Collector.new settings).map fun collector =>
    { schedule := .ofSettings settings, collector }

def side (b : Bridge) : BridgeEnd → Side
  | .near => b.near
  | .far => b.far

def setSide (b : Bridge) (s : Side) : BridgeEnd → Bridge
  | .near => { b with near := s }
  | .far => { b with far := s }

/-- Runs one collection cycle from the near side into the far side. -/
def collect (b : Bridge) : Outcome Bridge (Except Fault CycleReport) :=
  (b.collector.collect b.near b.far b.manager).into fun (collector, far, manager) =>
    { b with collector, far, manager }

/-- Empties the import slots of collected proxies on both sides and releases them on the other. -/
def scavenge (b : Bridge) : Outcome Bridge Released :=
  let (nearDead, near) := b.near.scavenge
  let onFar := b.far.release (nearDead.map ImportKey.across)
  let (farDead, far) := onFar.state.scavenge
  let onNear := near.release (farDead.map ImportKey.across)
  let first := b.collector.recordReleased far.name onFar.answer
  let second := first.state.recordReleased near.name onNear.answer
  { state := { b with near := onNear.state, far, collector := second.state }
    answer := { far := onFar.answer, near := onNear.answer }
    notices := onFar.notices ++ onNear.notices ++ first.notices ++ second.notices }

/-- Does what is due on a call made at `now`. A cycle that fails is tried again on the next call,
unless an invariant is broken. -/
def onCall (b : Bridge) (now : Nat) : Outcome Bridge (Except Fault Unit) :=
  let (tick, schedule) := b.schedule.call now
  let b := { b with schedule }
  let cleaned : Outcome Bridge Unit :=
    if tick.piggyback then
      let r := b.scavenge
      { state := r.state, answer := (), notices := r.notices }
    else { state := b, answer := () }
  if tick.cycleDue then
    let cycle := cleaned.state.collect
    let notices := cleaned.notices ++ cycle.notices
    match cycle.answer with
    | .ok _ =>
      { state := { cycle.state with schedule := cycle.state.schedule.completed now }
        answer := .ok ()
        notices }
    | .error f =>
      if f.isBug || f.isFatal then { state := cycle.state, answer := .error f, notices }
      else { state := cycle.state, answer := .ok (), notices := notices ++ [.cycleFailed f] }
  else { state := cleaned.state, answer := .ok (), notices := cleaned.notices }

/-- Roots a value at the end where it is. -/
def pin (b : Bridge) (e : BridgeEnd) (v : Value) : Option RootHandle × Bridge :=
  match v.object? with
  | none => (none, b)
  | some id =>
    let s := b.side e
    let (r, heap) := s.heap.addRoot id
    (some r, b.setSide { s with heap } e)

def unpin (b : Bridge) (e : BridgeEnd) : Option RootHandle → Bridge
  | none => b
  | some r =>
    let s := b.side e
    b.setSide { s with heap := s.heap.removeRoot r } e

/-- Lets a value cross from `e` to the other end. -/
def cross (b : Bridge) (e : BridgeEnd) (v : Value) : Outcome Bridge (Except Fault Value) :=
  let encoded := (b.side e).encode v
  let b := b.setSide encoded.state e
  match encoded.answer with
  | .error f => { state := b, answer := .error f, notices := encoded.notices }
  | .ok p =>
    let decoded := (b.side e.other).decode p
    { state := b.setSide decoded.state e.other
      answer := decoded.answer
      notices := encoded.notices ++ decoded.notices }

/-- Sends a value from `e` at `now`. While the work that is due is done, the value is a root; a
fatal fault in that work leaves it one. -/
def send (b : Bridge) (e : BridgeEnd) (v : Value) (now : Nat) :
    Outcome Bridge (Except Fault Value) :=
  let (handle, b) := b.pin e v
  let worked := b.onCall now
  match worked.answer with
  | .error f =>
    { state := if f.isFatal then worked.state else worked.state.unpin e handle
      answer := .error f
      notices := worked.notices }
  | .ok _ =>
    let crossed := (worked.state.unpin e handle).cross e v
    { state := crossed.state
      answer := crossed.answer
      notices := worked.notices ++ crossed.notices }

end Bridge

end TwinHeap
