import TwinHeap.History

/-! One side with the manager that collects it. Whatever is asked of the two may be asked in any order:
the manager runs in both modes, by graphs that need not be those of any other side. -/
namespace TwinHeap

namespace Manager

/-- Collects in the mode asked for. -/
def collectGraph (m : Manager) (s : Side) (forced : Bool) (g : EdgeGraph) :
    Outcome (Manager × Side) (Except Fault ManagerReport) :=
  if forced then m.collectForced s g else m.collect s g

/-- The side on which a run in the forced mode begins to repair. -/
def swept (s : Side) (g : IncomingGraph) : Side :=
  (sever s (.of s g {})).state.nativeCollect.state

/-- The sides that a run goes through on the way to its last one. -/
def passing (s : Side) (forced : Bool) (g : EdgeGraph) : List Side :=
  match IncomingGraph.ofGraph g s with
  | .error _ => []
  | .ok incoming =>
    if forced then [(sever s (.of s incoming {})).state, swept s incoming]
    else
      match s.planRepair s.liveProxies with
      | .error _ => []
      | .ok repair => [(s.commitRepair repair).state.finishRepair]

end Manager

structure Managed where
  manager : Manager := {}
  side : Side

inductive SideEvent where
  | mutate (m : Mutation)
  /-- A proxy that no import slot knows of. -/
  | allocProxy (k : ImportKey)
  | sweep (extra : List ObjectId)
  | nativeCollect
  | share (id : ObjectId)
  | proxyFor (k : ImportKey)
  | encode (v : Value)
  | decode (parcel : Parcel)
  | handBack (p : ObjectId)
  | release (keys : List ExportKey)
  | scavenge
  | repairProxy (p : ObjectId)
  | repairAll
  | manage (forced : Bool) (g : EdgeGraph)
  | manageText (forced : Bool) (text : String)

/-- The event runs the manager in the forced mode. -/
def SideEvent.forces : SideEvent → Bool
  | .manage forced _ => forced
  | .manageText forced _ => forced
  | _ => false

namespace Managed

def new (name : String) : Managed := { side := { name } }

def ofPair (r : Manager × Side) : Managed := { manager := r.1, side := r.2 }

/-- The state after one event, whatever it answers. -/
def update (b : Managed) : SideEvent → Managed
  | .mutate m => { b with side := { b.side with heap := b.side.heap.mutate m } }
  | .allocProxy k => { b with side := { b.side with heap := (b.side.heap.alloc (.proxy k)).state } }
  | .sweep extra => { b with side := { b.side with heap := (b.side.heap.collect extra).state } }
  | .nativeCollect => { b with side := b.side.nativeCollect.state }
  | .share id => { b with side := (b.side.share id).state }
  | .proxyFor k => { b with side := (b.side.proxyFor k).state }
  | .encode v => { b with side := (b.side.encode v).state }
  | .decode parcel => { b with side := (b.side.decode parcel).state }
  | .handBack p => { b with side := (b.side.handBack p).state }
  | .release keys => { b with side := (b.side.release keys).state }
  | .scavenge => { b with side := b.side.scavenge.2 }
  | .repairProxy p => { b with side := (b.side.repairProxy p).state }
  | .repairAll => { b with side := b.side.repairAll.state }
  | .manage forced g => ofPair (b.manager.collectGraph b.side forced g).state
  | .manageText forced text => ofPair (b.manager.collectText b.side forced text).state

def history : Managed → List SideEvent → Managed
  | b, [] => b
  | b, event :: rest => history (b.update event) rest

/-- The sides that an event goes through on the way to its last one. Only a run of the manager severs
and repairs in one event. -/
def passing (b : Managed) : SideEvent → List Side
  | .manage forced g => Manager.passing b.side forced g
  | .manageText forced text =>
    match EdgeGraph.ofText text with
    | .error _ => []
    | .ok g => Manager.passing b.side forced g
  | _ => []

/-- All sides of a history, those on the way included. -/
def trail : Managed → List SideEvent → List Side
  | b, [] => [b.side]
  | b, event :: rest => b.side :: b.passing event ++ trail (b.update event) rest

theorem history_append (b : Managed) (first rest : List SideEvent) :
    b.history (first ++ rest) = (b.history first).history rest := by
  induction first generalizing b with
  | nil => rfl
  | cons event first ih => exact ih (b.update event)

/-- A trail ends with the last side, and goes on with what the next event passes. -/
theorem trail_append (b : Managed) (events : List SideEvent) (event : SideEvent) :
    b.trail (events ++ [event]) =
      b.trail events ++ (b.history events).passing event ++ [(b.history (events ++ [event])).side] := by
  induction events generalizing b with
  | nil => simp [trail, history]
  | cons first events ih =>
      simp only [List.cons_append, trail, history, ih, List.append_assoc]

end Managed

end TwinHeap
