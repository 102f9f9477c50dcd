import TwinHeap.Event

/-! The event log of a collector. -/
namespace TwinHeap

structure JournalSettings where
  /-- Events of higher rank are dropped. -/
  level : Level := .debug
  console : Bool := false
  json : Bool := false
  timestamps : Bool := true

/-- For watching a collector at work. -/
def JournalSettings.verbose : JournalSettings := { level := .info, console := true }

structure Journal where
  settings : JournalSettings := {}
  /-- The oldest event comes first. -/
  events : Array Event := #[]
  enabled : Bool := true

namespace Journal

def accepts (j : Journal) (e : Event) : Bool :=
  j.enabled && decide (e.level.rank ≤ j.settings.level.rank)

def line (j : Journal) (e : Event) : ConsoleLine :=
  { stamped := j.settings.timestamps, body := if j.settings.json then e.json else e.text }

/-- An accepted event also goes to the program's log, and to the console if that is wanted. -/
def record (j : Journal) (e : Event) : Outcome Journal Unit :=
  if j.accepts e then
    { state := { j with events := j.events.push e }
      answer := ()
      notices := .event e :: if j.settings.console then [.printed (j.line e)] else [] }
  else { state := j, answer := () }

def recordAll (j : Journal) (es : List Event) : Outcome Journal Unit :=
  es.foldl (fun r e =>
    let next := r.state.record e
    { next with notices := r.notices ++ next.notices }) { state := j, answer := () }

def clear (j : Journal) : Journal := { j with events := #[] }

end Journal

end TwinHeap
