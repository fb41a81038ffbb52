import FuelSequencer.Commitments.Inclusion
import FuelSequencer.Commitments.Encoding

/-! # What a bridge commitment binds

The other side of the bridge knows the root only. Whoever shows it bytes with a proof that
verifies against the root has shown the leaf of a height in the range, with the results
hash of that height's header; and bytes that verify against this hash are the result of a
transaction of the block before. Otherwise the proofs hold a collision of the hash.
-/
namespace FuelSequencer.Commitments
open Go Wire Exec Lib

/-! ## Collisions -/

variable {hash : Bytes → Bytes}

variable {q : QueryServer}

end FuelSequencer.Commitments
