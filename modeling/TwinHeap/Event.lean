import TwinHeap.Fault
import TwinHeap.Text.Decimal

/-! What a collector reports: events of its cycles, and the notices that every part of the library
gives to the program's log. -/
namespace TwinHeap

inductive Level where
  | error
  | warn
  | info
  | debug
  | trace
  deriving DecidableEq

/-- Errors come first. -/
def Level.rank : Level → Nat
  | .error => 0
  | .warn => 1
  | .info => 2
  | .debug => 3
  | .trace => 4

def Level.name : Level → String
  | .error => "ERROR"
  | .warn => "WARN"
  | .info => "INFO"
  | .debug => "DEBUG"
  | .trace => "TRACE"

/-- Durations are in milliseconds. -/
inductive Event where
  | cycleStart (cycle : Nat) (mode reason : String)
  | graphBuilt (cycle entries roots edges : Nat)
  | phaseEnd (cycle : Nat) (phase : String) (duration : Float)
  | unlinked (cycle count : Nat)
  | repaired (cycle count : Nat)
  | cycleEnd (cycle : Nat) (duration : Float) (live detached : Nat)
  | cycleFailed (cycle : Nat) (error : String)
  | released (side : String) (count : Nat)

namespace Event

def level : Event → Level
  | .cycleFailed .. => .error
  | .cycleStart .. | .cycleEnd .. => .info
  | .graphBuilt .. | .unlinked .. | .repaired .. | .released .. => .debug
  | .phaseEnd .. => .trace

/-- One line for a reader. -/
def text : Event → String
  | .cycleStart cycle mode reason =>
    s!"[XGC] Cycle {cycle} started ({mode} graph, reason: {reason})"
  | .graphBuilt cycle entries roots edges =>
    s!"[XGC] Cycle {cycle}: edge graph with {entries} entries ({roots} roots, {edges} edges)"
  | .phaseEnd cycle phase duration =>
    s!"[XGC] Cycle {cycle}: {phase} phase completed ({Text.floatFixed2 duration}ms)"
  | .unlinked cycle count => s!"[XGC] Cycle {cycle}: unlinked {count} export slots"
  | .repaired cycle count => s!"[XGC] Cycle {cycle}: repaired {count} export slots"
  | .cycleEnd cycle duration live detached =>
    let ms := Text.floatFixed2 duration
    s!"[XGC] Cycle {cycle} completed ({ms}ms, {live} live, {detached} detached)"
  | .cycleFailed cycle error => s!"[XGC] Cycle {cycle} rejected: {error}"
  | .released side count => s!"[XGC] {side}: released {count} dead references"

inductive Item where
  | whole (n : Nat)
  | real (x : Float)
  | text (s : String)

def Item.json : Item → String
  | .whole n => toString n
  | .real x => Text.floatJson x
  | .text s => Text.quoteJson s

/-- The named parts of an event, in the order of their names. -/
def items : Event → List (String × Item)
  | .cycleStart cycle mode reason =>
    [("cycle", .whole cycle), ("mode", .text mode), ("reason", .text reason),
      ("type", .text "cycle_start")]
  | .graphBuilt cycle entries roots edges =>
    [("cycle", .whole cycle), ("edges", .whole edges), ("entries", .whole entries),
      ("roots", .whole roots), ("type", .text "graph_built")]
  | .phaseEnd cycle phase duration =>
    [("cycle", .whole cycle), ("duration_ms", .real duration), ("phase", .text phase),
      ("type", .text "phase_end")]
  | .unlinked cycle count =>
    [("count", .whole count), ("cycle", .whole cycle), ("type", .text "unlinked")]
  | .repaired cycle count =>
    [("count", .whole count), ("cycle", .whole cycle), ("type", .text "repaired")]
  | .cycleEnd cycle duration live detached =>
    [("cycle", .whole cycle), ("detached_exports", .whole detached),
      ("duration_ms", .real duration), ("live_exports", .whole live),
      ("type", .text "cycle_end")]
  | .cycleFailed cycle error =>
    [("cycle", .whole cycle), ("error", .text error), ("type", .text "cycle_failed")]
  | .released side count =>
    [("count", .whole count), ("side", .text side), ("type", .text "references_released")]

def json (e : Event) : String :=
  let members := e.items.map fun (name, item) => Text.quoteJson name ++ ":" ++ item.json
  "\x7b" ++ String.intercalate "," members ++ "\x7d"

end Event

/-- A line meant for the console. Stamped lines begin with the time at which they are printed. -/
structure ConsoleLine where
  stamped : Bool
  body : String

def ConsoleLine.text (time : String) (l : ConsoleLine) : String :=
  if l.stamped then s!"[{time}] {l.body}" else l.body

/-- A message for the log. `side` is the name of the side that gives it. -/
inductive Notice where
  | swept (marked freed : Nat)
  | queueGrew (before after : Nat)
  | graphBuilt (mode : String) (roots keys edges : Nat)
  | reExported (id : ObjectId) (slot : ExportKey)
  | cameHome (slot : ExportKey) (id : ObjectId)
  | imported (slot : ImportKey) (proxy : ObjectId)
  | released (side : String) (count : Nat)
  | repaired (side : String) (slot : ExportKey) (id : ObjectId)
  | unlinked (side : String) (slot : ExportKey) (id : ObjectId)
  | overridden (side : String)
  | managed (side : String) (cycle roots records severed restored : Nat)
  | cycleFailed (cause : Fault)
  | event (e : Event)
  /-- For the console and not for the log. -/
  | printed (line : ConsoleLine)

namespace Notice

def level? : Notice → Option Level
  | .cycleFailed _ => some .warn
  | .swept .. | .graphBuilt .. | .released .. | .overridden _ | .managed .. => some .debug
  | .queueGrew .. | .reExported .. | .cameHome .. | .imported .. | .repaired ..
  | .unlinked .. => some .trace
  | .event e => some e.level
  | .printed _ => none

def text : Notice → String
  | .swept marked freed => s!"native collection: {marked} marked, {freed} freed"
  | .queueGrew before after => s!"work queue grew from {before} to {after} entries"
  | .graphBuilt mode roots keys edges =>
    s!"{mode} edge graph: {roots} roots, {keys} keys, {edges} edges"
  | .reExported id slot => s!"re-export reinstated {id.text} at {slot.number}"
  | .cameHome slot id => s!"returned slot {slot.number} reinstated {id.text}"
  | .imported slot proxy => s!"imported peer slot {slot.number} as {proxy.text}"
  | .released side count => s!"{side}: released {count} export slots"
  | .repaired side slot id => s!"{side}: repaired export slot {slot.number} -> {id.text}"
  | .unlinked side slot id => s!"{side}: unlinked export slot {slot.number} ({id.text})"
  | .overridden side => s!"{side}: export overrides installed"
  | .managed side cycle roots records severed restored =>
    s!"{side}: manager cycle {cycle}: {roots} roots, {records} records, " ++
      s!"{severed} unlinked, {restored} repaired"
  | .cycleFailed cause => s!"scheduled cycle failed: {cause.message}"
  | .event e => e.text
  | .printed line => line.body

end Notice

/-- What an operation leaves behind: the state after it, its answer, and the notices it gave. -/
structure Outcome (σ α : Type) where
  state : σ
  answer : α
  notices : List Notice := []

/-- Places the state of a part into the whole. -/
def Outcome.into {σ τ α : Type} (r : Outcome σ α) (f : σ → τ) : Outcome τ α :=
  { state := f r.state, answer := r.answer, notices := r.notices }

/-- An answer that leaves the state alone. -/
structure Noted (α : Type) where
  answer : α
  notices : List Notice := []

end TwinHeap
