import FuelSequencer.Abci.System

/-! # When a sidecar answers the chain

A sidecar that starts where the chain reported to be, and is told of the chain's heights
only, never loses the block that the chain asks for next. So the query for it is answered
exactly if the sidecar runs and has fetched that far.
-/
namespace FuelSequencer.Abci
open Go Wire Exec Lib Bridge Wiring Sidecar

variable {W ι : Type} [DecidableEq ι] {app : App W} {c : EthRpcClient} {H : History}

/-! ## The lower bound of a store -/

/-- An operation moves the lower bound at most to a height that it was told. -/
theorem startQueryBlock_step {st st' : EventStore} {op : StoreOp} {last : ℕ} (h : Sound c H st)
    (hstep : StoreStep c H st op st')
    (hreport : ∀ {height : ℕ} {pruned}, op = .calibrated (some height) pruned → height ≤ last)
    (hle : st.startQueryBlock ≤ last + 1) : st'.startQueryBlock ≤ last + 1 := by
  cases hstep with
  | fetched hnode hrun =>
    obtain ⟨hs, -⟩ := h.fetched hnode hrun
    omega
  | failed hrun =>
    cases EventStore.run_fetchAndStoreLogs_error hrun
    exact hle
  | calibrated height =>
    cases height with
    | none => exact hle
    | some height =>
      have hheight := hreport rfl
      obtain ⟨-, ⟨-, hs, -⟩ | ⟨lo, hi, -, -, -, hhi, hs, -⟩⟩ := h.calibrated height
      · omega
      · omega

/-- A start without the flag begins behind the height that was reported. -/
theorem startBlock_of_report {grpcUrl : GoString} {reported : UInt64} {first : ℤ}
    (h : startBlock grpcUrl 0 (.ok reported) = .ok first) : first = reported.toNat + 1 := by
  obtain ⟨_, -, h⟩ := except_bind_eq_ok.mp h
  obtain rfl := Except.ok.inj h
  have hpos : (reported.toNat : ℤ) + 1 > 0 := by omega
  simp [chosenStartBlock, hpos]

/-! ## Queries -/

/-- A sidecar that starts in the step asked the chain, now or before, how far it was. -/
def StartsAtReport (sys : System W ι) (label : SystemLabel ι) (sys' : System W ι) : Prop :=
  ∀ v, label = .started v → ∃ grpcUrl reported last first maxQueryRange,
    sys.chain.bridge.lastEthereumBlockSynced = some last ∧ reported ≤ last ∧
    startBlock grpcUrl 0 (.ok reported) = .ok first ∧ (sys'.servers v).store = newEventStore first maxQueryRange

/-- The system is coherent, and no store has left the next block behind. -/
structure Available (app : App W) (c : EthRpcClient) (H : History) (start : Cursor UInt64)
    (ls : List (SystemLabel ι)) (sys : System W ι) (last offset : UInt64) (delivered : List (List Event)) : Prop where
  coherent : Coherent app c H start ls sys last offset delivered
  lower : ∀ v, (sys.servers v).store.startQueryBlock ≤ last.toNat + 1

/-- No step leaves the next block behind, if the sidecars start where the chain is. -/
theorem Available.lower_step {start : Cursor UInt64} {ls : List (SystemLabel ι)} {sys sys' : System W ι}
    {last offset : UInt64} {delivered : List (List Event)} {label : SystemLabel ι}
    (h : Available app c H start ls sys last offset delivered) (hstep : SystemStep app c H sys label sys')
    (hstart : StartsAtReport sys label sys') (v : ι) :
    (sys'.servers v).store.startQueryBlock ≤ last.toNat + 1 := by
  have hothers : ∀ (w : ι) (ss : SidecarServer), (v = w → ss.store.startQueryBlock ≤ last.toNat + 1) →
      ((sys.setServer w ss).servers v).store.startQueryBlock ≤ last.toNat + 1 := by
    intro w ss hss
    by_cases hv : v = w
    · subst hv
      simpa [System.setServer] using hss rfl
    · simpa [System.setServer, hv] using h.lower v
  cases hstep with
  | @operated w op st hop hreport =>
    apply hothers
    rintro rfl
    apply startQueryBlock_step (h.coherent.servers v).sound hop _ (h.lower v)
    intro height pruned heq
    obtain ⟨last', hlast', hle⟩ := hreport heq
    cases Option.some.inj (h.coherent.chain.hasLast.symm.trans hlast')
    exact hle
  | @started w =>
    apply hothers
    rintro rfl
    obtain ⟨grpcUrl, reported, last', first, maxQueryRange, hlast', hle, hfirst, hstore⟩ := hstart v rfl
    cases Option.some.inj (h.coherent.chain.hasLast.symm.trans hlast')
    have hle := UInt64.le_iff_toNat_le.mp hle
    have hfirst := startBlock_of_report hfirst
    simp only [System.setServer, Function.update_self] at hstore
    rw [hstore]
    change first ≤ last.toNat + 1
    omega
  | @stopped w =>
    apply hothers
    rintro rfl
    exact h.lower v
  | block => exact h.lower v

theorem Available.step (hlaw : app.Lawful) (hinjective : Function.Injective app.sdk.accAddressString)
    (hsealed : Sealed app) {start : Cursor UInt64} {ls : List (SystemLabel ι)} {sys sys' : System W ι}
    {last offset : UInt64} {delivered : List (List Event)} {label : SystemLabel ι}
    (h : Available app c H start ls sys last offset delivered) (hstep : SystemStep app c H sys label sys')
    (hstart : StartsAtReport sys label sys') :
    ∃ last' offset' delivered', Available app c H start (ls ++ [label]) sys' last' offset' delivered' := by
  obtain ⟨last', offset', delivered', hnext, hle⟩ := h.coherent.step hlaw hinjective hsealed hstep
  refine ⟨last', offset', delivered', hnext, fun v => ?_⟩
  have hlower := h.lower_step hstep hstart v
  omega

end FuelSequencer.Abci
