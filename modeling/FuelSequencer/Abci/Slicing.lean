import FuelSequencer.Abci.Acceptance
import FuelSequencer.Bridge.Packing

/-! # The slice of injected event transactions

The verifier cuts the claimed number of event transactions out of the proposed list
before it compares the number with the length of the list. A Go slice expression is
bounded by the capacity: past the length it reads what lies behind the list, past the
capacity it panics.
-/
namespace FuelSequencer.Abci
open Go Wire Exec Lib Bridge Wiring

variable {W : Type}

variable {app : App W} {sidecar : Sidecar} {s : State W} {maxGas : Option Int64} {req : RequestProcessProposal}
  {x : Expected} {r : Expected × List Bytes}

end FuelSequencer.Abci
