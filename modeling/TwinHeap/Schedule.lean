import TwinHeap.Settings

/-! When work is due. Calls are counted and timed by whoever makes them; nothing runs by itself. -/
namespace TwinHeap

/-- What a call has to do before it crosses the bridge. -/
structure Tick where
  piggyback : Bool
  cycleDue : Bool
  deriving DecidableEq

/-- Times are in milliseconds from a fixed start. -/
structure Schedule where
  piggybackThreshold : Nat
  cycleCalls : Nat
  interval : Option Nat
  sincePiggyback : Nat := 0
  sinceCycle : Nat := 0
  calls : Nat := 0
  /-- When the last cycle was completed, or else the first call was made. -/
  lastCycle : Option Nat := none
  deriving DecidableEq

namespace Schedule

/-- Thresholds of zero count as one. -/
def ofSettings (s : Settings) : Schedule :=
  { piggybackThreshold := max s.piggybackThreshold 1
    cycleCalls := max s.cycleCalls 1
    interval := s.interval? }

/-- Counts a call made at `now`. A cycle stays due until one is completed. -/
def call (s : Schedule) (now : Nat) : Tick × Schedule :=
  let since := s.lastCycle.getD now
  let piggyback := decide (s.piggybackThreshold ≤ s.sincePiggyback + 1)
  let sinceCycle := s.sinceCycle + 1
  let byCount := decide (s.cycleCalls ≤ sinceCycle)
  let byTime :=
    match s.interval with
    | some interval => decide (interval ≤ now - since)
    | none => false
  ({ piggyback, cycleDue := byCount || byTime },
    { s with
      sincePiggyback := if piggyback then 0 else s.sincePiggyback + 1
      sinceCycle
      calls := s.calls + 1
      lastCycle := some since })

def completed (s : Schedule) (now : Nat) : Schedule :=
  { s with sinceCycle := 0, lastCycle := some now }

end Schedule

end TwinHeap
