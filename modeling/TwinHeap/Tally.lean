import TwinHeap.Text.Decimal
import TwinHeap.Text.Quoted

/-! Running totals of a collector, and the timing of phases. Times are whole nanoseconds. -/
namespace TwinHeap

/-- A duration in milliseconds. The seconds and the rest are converted apart and then added. -/
def milliseconds (nanos : Nat) : Float :=
  (Float.ofNat (nanos / 1000000000) + Float.ofNat (nanos % 1000000000) / 1e9) * 1000.0

/-- The totals of slots and references are 64-bit words, so they wrap. -/
structure Tally where
  cycles : Nat := 0
  failed : Nat := 0
  unlinked : UInt64 := 0
  repaired : UInt64 := 0
  released : UInt64 := 0
  total : Nat := 0
  longest : Nat := 0
  /-- Numbers of roots and edges of the graphs built since this list was last taken. -/
  sizes : List (Nat × Nat) := []
  deriving DecidableEq

namespace Tally

def addGraph (t : Tally) (roots edges : Nat) : Tally :=
  { t with sizes := t.sizes ++ [(roots, edges)] }

def addCycle (t : Tally) (unlinked repaired nanos : Nat) : Tally :=
  { t with
    cycles := t.cycles + 1
    unlinked := t.unlinked + UInt64.ofNat unlinked
    repaired := t.repaired + UInt64.ofNat repaired
    total := t.total + nanos
    longest := max t.longest nanos }

def addFailure (t : Tally) : Tally := { t with failed := t.failed + 1 }

def addReleased (t : Tally) (count : Nat) : Tally :=
  { t with released := t.released + UInt64.ofNat count }

def takeSizes (t : Tally) : List (Nat × Nat) × Tally := (t.sizes, { t with sizes := [] })

/-- Zero as long as there was no cycle. -/
def average (t : Tally) : Float :=
  if t.cycles = 0 then 0.0 else milliseconds t.total / Float.ofNat t.cycles

def maximum (t : Tally) : Float := milliseconds t.longest

def json (t : Tally) : String :=
  let members :=
    [("cycles", toString t.cycles), ("failed_cycles", toString t.failed),
      ("total_unlinked", toString t.unlinked.toNat), ("total_repaired", toString t.repaired.toNat),
      ("total_released", toString t.released.toNat), ("avg_cycle_ms", Text.floatJson t.average),
      ("max_cycle_ms", Text.floatJson t.maximum)]
  let members := members.map fun (name, value) => Text.quoteJson name ++ ":" ++ value
  "\x7b" ++ String.intercalate "," members ++ "\x7d"

end Tally

/-- Splits a stretch of time into laps. -/
structure Stopwatch where
  started : Nat
  lapStarted : Nat
  /-- The name and length of each lap, the first lap first. -/
  laps : List (String × Nat) := []
  deriving DecidableEq

namespace Stopwatch

def start (now : Nat) : Stopwatch := { started := now, lapStarted := now }

def lap (w : Stopwatch) (now : Nat) (name : String) : Stopwatch :=
  { w with lapStarted := now, laps := w.laps ++ [(name, now - w.lapStarted)] }

def elapsed (w : Stopwatch) (now : Nat) : Nat := now - w.started

end Stopwatch

end TwinHeap
