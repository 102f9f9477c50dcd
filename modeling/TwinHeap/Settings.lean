import TwinHeap.Fault
import TwinHeap.Rows

/-! The settings of a collector. None of them bears on which objects may be freed. -/
namespace TwinHeap

inductive GraphMode where
  | exact
  | approximate
  deriving DecidableEq

namespace GraphMode

def name : GraphMode → String
  | .exact => "exact"
  | .approximate => "approximate"

/-- Letters of ASCII are read in either case. -/
def ofText (text : String) : Except SettingsFault GraphMode :=
  let lower := text.map Char.toLower
  if lower = "exact" ∨ lower = "simple" then .ok .exact
  else if lower = "approximate" ∨ lower = "bloom" ∨ lower = "bloomfilter" then .ok .approximate
  else .error (.graphMode lower)

end GraphMode

def defaultQueueCapacity : Nat := 16384

def defaultBloomSeed : UInt64 := 0xafb2041e061071db

structure Settings where
  graphMode : GraphMode := .exact
  /-- Run the native collector of the far side within each cycle. -/
  forceNative : Bool := false
  /-- Calls between two releases of dead references. -/
  piggybackThreshold : Nat := 100
  /-- Calls between two cycles. -/
  cycleCalls : Nat := 10000
  /-- Milliseconds between two cycles; zero leaves cycles to the call count. -/
  cycleInterval : Nat := 5000
  queueCapacity : Nat := defaultQueueCapacity
  bloomSeed : UInt64 := defaultBloomSeed
  verbose : Bool := false
  deriving DecidableEq

namespace Settings

def check (s : Settings) : Except SettingsFault Unit :=
  if s.queueCapacity < 2 then .error (.queueCapacity "queue_capacity must be at least 2")
  else if s.piggybackThreshold = 0 then .error (.threshold "piggyback_threshold must be > 0")
  else if s.cycleCalls = 0 then .error (.threshold "cycle_call_threshold must be > 0")
  else .ok ()

def interval? (s : Settings) : Option Nat :=
  if s.cycleInterval = 0 then none else some s.cycleInterval

def readFlag (text : String) : Bool :=
  let lower := text.map Char.toLower
  text = "1" || lower = "true" || lower = "yes"

/-- A whole number below `limit`: decimal digits, after at most one plus sign. -/
def readCount? (limit : Nat) (text : String) : Option Nat :=
  let digits :=
    match text.toList with
    | '+' :: r => r
    | r => r
  let n := Nat.ofDigitChars 10 digits 0
  if digits ≠ [] ∧ digits.all Char.isDigit ∧ n < limit then some n else none

/-- Replaces what the environment names; a value that cannot be read changes nothing. -/
def ofEnvironment (get : String → Option String) : Settings :=
  let s : Settings := {}
  { s with
    graphMode := ((get "XGC_GRAPH_MODE").bind fun t => (GraphMode.ofText t).toOption).getD
      s.graphMode
    forceNative := ((get "XGC_FORCE_NATIVE_GC").map readFlag).getD s.forceNative
    piggybackThreshold := ((get "XGC_PIGGYBACK_THRESHOLD").bind (readCount? UInt32.size)).getD
      s.piggybackThreshold
    cycleCalls := ((get "XGC_CYCLE_CALLS").bind (readCount? UInt64.size)).getD s.cycleCalls
    cycleInterval := ((get "XGC_CYCLE_INTERVAL_MS").bind (readCount? UInt64.size)).getD
      s.cycleInterval
    verbose := ((get "XGC_VERBOSE").map readFlag).getD s.verbose }

end Settings

/-- How an edge graph is built. -/
structure BuildOptions where
  /-- Objects of this class are reached but not looked into. -/
  opaqueClass : ObjectClass := .hidden
  queueCapacity : Nat := defaultQueueCapacity
  bloomSeed : UInt64 := defaultBloomSeed
  /-- The number of slots to make room for. A heap has a number of its own; another one stands for a
  graph of objects that is no heap and gives the number of its slots itself. -/
  room? : Option Nat := none
  deriving DecidableEq

def Settings.buildOptions (s : Settings) : BuildOptions :=
  { queueCapacity := s.queueCapacity, bloomSeed := s.bloomSeed }

end TwinHeap
