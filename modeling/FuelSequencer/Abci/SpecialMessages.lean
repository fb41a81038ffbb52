import FuelSequencer.Abci.Execution

/-! # The special messages of an accepted proposal

Whatever a verifier accepts, the handler of the index message accepts as well, and so
does the handler of the supply delta message at its height, as long as the nonce it
takes is a number the chain can hold.
-/
namespace FuelSequencer.Abci
open Go Wire Exec Lib Bridge Wiring

variable {W : Type} {app : App W} {sidecar : Sidecar} {s : State W} {maxGas : Option Int64}

/-! ## What the supply delta message needs -/

/-- The keys that the supply delta message reads, and the params it was proposed with. -/
structure DeltaKeys (params : Params) (b : Store) : Prop where
  params_eq : b.params = params
  hasNonce : b.lastEthereumNonce.isSome
  hasInfo : b.supplyDeltaInfo.isSome

/-- No entry removes a key, and only an update changes the params. -/
theorem DeltaKeys.step {ctx : Ctx} {params : Params} {b b' : Store} {e : Entry} (h : DeltaKeys params b)
    (he : ∀ p, e ≠ .updated p) (hstep : Effect ctx b e b') : DeltaKeys params b' := by
  obtain ⟨hp, hn, hi⟩ := h
  cases hstep with
  | updated p => exact absurd rfl (he p)
  | reported => exact ⟨hp, rfl, rfl⟩
  | deposited => exact ⟨hp, hn, rfl⟩
  | withdrawn => exact ⟨hp, rfl, rfl⟩
  | posted => exact ⟨hp, rfl, hi⟩
  | _ => exact ⟨hp, hn, hi⟩

end FuelSequencer.Abci
