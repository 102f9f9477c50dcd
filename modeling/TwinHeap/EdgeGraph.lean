import TwinHeap.Assoc
import TwinHeap.Object

/-! The summary one side makes of its heap for the other: which imported slots its roots reach, and
which imported slots each of its exported slots reaches. -/
namespace TwinHeap

/-- A slot without an entry has no successors that are known. -/
structure EdgeGraph where
  root : List ImportKey := []
  edges : Assoc ExportKey (List ImportKey) := {}
  deriving DecidableEq

namespace EdgeGraph

/-- Empty lists are not recorded. -/
def insert (g : EdgeGraph) (k : ExportKey) (successors : List ImportKey) : EdgeGraph :=
  if successors.isEmpty then g else { g with edges := g.edges.insert k successors }

def successors? (g : EdgeGraph) (k : ExportKey) : Option (List ImportKey) := g.edges.find? k

/-- The root counts as an entry. -/
def size (g : EdgeGraph) : Nat := g.edges.size + 1

def isEmpty (g : EdgeGraph) : Bool := g.root.isEmpty && g.edges.entries.isEmpty

def rootCount (g : EdgeGraph) : Nat := g.root.length

def edgeCount (g : EdgeGraph) : Nat := (g.edges.entries.flatMap Prod.snd).length

/-- Every root and every edge of `h` is in `g`. -/
def covers (g h : EdgeGraph) : Bool :=
  h.root.all (fun j => g.root.contains j) &&
    h.edges.entries.all fun e =>
      match g.successors? e.1 with
      | some mine => e.2.all fun j => mine.contains j
      | none => false

/-- Equality up to the order of the keys. -/
def agrees (g h : EdgeGraph) : Bool := decide (g.root = h.root) && g.edges.agrees h.edges

end EdgeGraph

end TwinHeap
