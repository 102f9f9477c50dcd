import TwinHeap.Proofs.Bridge.Soundness

/-! Slots in use in which the other side has no proxy. A send leaves one behind when it has put an
object into a slot and there is no room for its proxy. No release of dead references reaches such a
slot, and no collector gives it up; only a later send of the object can still get the proxy. -/
namespace TwinHeap

namespace Side

/-- `owner` uses the slot, and `holder` has no proxy in it. -/
def Strands (owner holder : Side) (k : ExportKey) : Prop :=
  owner.exports.Used k ∧ ∀ p, holder.imports.entry? k.across ≠ some (.weak p)

variable {owner owner' holder holder' : Side} {k : ExportKey}

theorem Strands.not_dead (strands : owner.Strands holder k) :
    k ∉ holder.deadKeys.map ImportKey.across := by
  intro dead
  obtain ⟨p, weak, -⟩ := Imports.mem_deadKeys.1 (mem_map_across.1 dead)
  exact strands.2 p weak

end Side

namespace Bridge

variable {b : Bridge} {e x : BridgeEnd} {k : ExportKey} {v : Value}

def Stranded (b : Bridge) (e : BridgeEnd) (k : ExportKey) : Prop :=
  (b.side e).Strands (b.side e.other) k

section Moves

end Moves

section Calls

end Calls

section Sends

end Sends

end Bridge

end TwinHeap
