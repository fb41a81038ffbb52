import FuelSequencer.Bridge.Special

/-! # The genesis of the bridge module

A missing supply delta info is taken from the defaults, and the update time is stored
only when it was set: the zero time is no count of nanoseconds.
-/
namespace FuelSequencer.Bridge
open Go Wire Exec Lib Wiring

variable {W : Type}

/-- `supplyDeltaInfo` is a pointer. -/
structure GenesisState where
  params : Params
  supplyDeltaInfo : Option SupplyDeltaInfo
  lastEthereumNonce : ℤ
  lastEthereumBlockSynced : UInt64
  ethereumEventIndexOffset : UInt64
  lastEthBlockUpdateTime : Time
  lastConsensusTxsSequence : UInt64
deriving DecidableEq

/-- The total supply and the vesting start are invalid on purpose, so that they must be set. -/
def defaultParams : Params where
  bridgeDenom := str "ufuel"
  bridgeDenomTotalSupply := 0
  ethereumProxyContractAddress := str "0x0165878A594ca255338adfa4d48449f69242Eb8F"
  supplyDeltaPeriod := 10
  vestingStartTime := zeroTime
  additionalBlockedAddresses := []
  maxEthBlockUpdateDelay := 3600 * 10 ^ 9
  injectedEventTxMaxBytes := 20000000
  sequencerTxsAllocation := 3 * 10 ^ 17

def defaultSupplyDeltaInfo : SupplyDeltaInfo := ⟨0, 0, 0⟩

def defaultGenesis : GenesisState where
  params := defaultParams
  supplyDeltaInfo := some defaultSupplyDeltaInfo
  lastEthereumNonce := 0
  lastEthereumBlockSynced := 0
  ethereumEventIndexOffset := 0
  lastEthBlockUpdateTime := zeroTime
  lastConsensusTxsSequence := 0

/-! ## Checks -/

def validateLastSupply (v : ℤ) : Except GoString Unit :=
  failIf (v < 0) (str "expected LastSupply >= 0, received " ++ decimalInt v)

/-- The offset and the amount to report may be negative. -/
def SupplyDeltaInfo.validateBasic (info : SupplyDeltaInfo) : Except GoString Unit :=
  (validateLastSupply info.lastSupply).mapError (str "invalid LastSupply: " ++ ·)

def validateLastEthereumNonce (v : ℤ) : Except GoString Unit :=
  failIf (v < 0) (str "expected LastEthereumNonce >= 0, received " ++ decimalInt v)

/-- The checks of the other fields look at their types alone. A nil info is followed. -/
def GenesisState.validate (sdk : Sdk) (gs : GenesisState) : Outcome GoString Unit := do
  let info ← required gs.supplyDeltaInfo errNilPointer
  wrapping id info.validateBasic
  wrapping id (validateLastEthereumNonce gs.lastEthereumNonce)
  wrapping id (gs.params.validate sdk)

/-! ## Import and export -/

def initGenesis (app : App W) (gs : GenesisState) : Run W Unit := do
  let acc ← inWorld (app.modules.getModuleAccount moduleName)
  failIf (acc = none) (Fault.panic (str "failed to get " ++ moduleName ++ str " module account"))
  setParams gs.params
  setSupplyDeltaInfo (gs.supplyDeltaInfo.getD defaultSupplyDeltaInfo)
  setLastEthereumNonce gs.lastEthereumNonce
  setLastEthereumBlockSynced gs.lastEthereumBlockSynced
  setEthereumEventIndexOffset gs.ethereumEventIndexOffset
  onlyIf (gs.lastEthBlockUpdateTime ≠ zeroTime) (setLastEthBlockUpdateTime gs.lastEthBlockUpdateTime)
  setLastConsensusTxsSequence gs.lastConsensusTxsSequence

/-- What is not found keeps its default. -/
def exportGenesis (b : Store) : GenesisState where
  params := b.params
  supplyDeltaInfo := b.supplyDeltaInfo.or defaultGenesis.supplyDeltaInfo
  lastEthereumNonce := b.lastEthereumNonce.getD defaultGenesis.lastEthereumNonce
  lastEthereumBlockSynced := b.lastEthereumBlockSynced.getD defaultGenesis.lastEthereumBlockSynced
  ethereumEventIndexOffset := b.ethereumEventIndexOffset.getD defaultGenesis.ethereumEventIndexOffset
  lastEthBlockUpdateTime := b.getLastEthBlockUpdateTime.getD defaultGenesis.lastEthBlockUpdateTime
  lastConsensusTxsSequence := b.lastConsensusTxsSequence.getD defaultGenesis.lastConsensusTxsSequence

/-- The store before the genesis. -/
def Store.unset : Store where
  params := ⟨[], 0, [], 0, zeroTime, [], 0, 0, 0⟩
  index := none
  supplyDeltaInfo := none
  lastEthereumNonce := none
  lastEthereumBlockSynced := none
  ethereumEventIndexOffset := none
  lastEthBlockUpdateTime := none
  lastConsensusTxsSequence := none

/-! ## What the checks and the import do -/

theorem GenesisState.validate_eq_ok {sdk : Sdk} {gs : GenesisState} {u : Unit} :
    gs.validate sdk = .ok u ↔ (∃ info, gs.supplyDeltaInfo = some info ∧ 0 ≤ info.lastSupply) ∧
      0 ≤ gs.lastEthereumNonce ∧ gs.params.validate sdk = .ok () := by
  have hinfo : ∀ info : SupplyDeltaInfo, info.validateBasic = .ok () ↔ 0 ≤ info.lastSupply := by
    intro info
    rw [SupplyDeltaInfo.validateBasic, validateLastSupply, failIf]
    by_cases hneg : info.lastSupply < 0
    · simp [hneg, Except.mapError]
    · simp [hneg, Except.mapError, not_lt.mp hneg]
  simp only [validate, except_bind_eq_ok, required_eq_ok, wrapping_eq_ok, validateLastEthereumNonce,
    failIf_eq_ok, not_lt, exists_const, hinfo]
  constructor
  · rintro ⟨info, hsome, hsupply, hnonce, hparams⟩
    exact ⟨⟨info, hsome, hsupply⟩, hnonce, hparams⟩
  · rintro ⟨⟨info, hsome, hsupply⟩, hnonce, hparams⟩
    exact ⟨info, hsome, hsupply, hnonce, hparams⟩

/-- The store after the import. -/
def GenesisState.store (gs : GenesisState) (b : Store) : Store where
  params := gs.params
  index := b.index
  supplyDeltaInfo := some (gs.supplyDeltaInfo.getD defaultSupplyDeltaInfo)
  lastEthereumNonce := some gs.lastEthereumNonce
  lastEthereumBlockSynced := some gs.lastEthereumBlockSynced
  ethereumEventIndexOffset := some gs.ethereumEventIndexOffset
  lastEthBlockUpdateTime :=
    if gs.lastEthBlockUpdateTime ≠ zeroTime then some (UInt64.ofNat (uint64 gs.lastEthBlockUpdateTime))
    else b.lastEthBlockUpdateTime
  lastConsensusTxsSequence := some gs.lastConsensusTxsSequence

/-- The writes behind the check of the module account. -/
theorem run_writes (gs : GenesisState) (s : State W) : (do
    setParams gs.params
    setSupplyDeltaInfo (gs.supplyDeltaInfo.getD defaultSupplyDeltaInfo)
    setLastEthereumNonce gs.lastEthereumNonce
    setLastEthereumBlockSynced gs.lastEthereumBlockSynced
    setEthereumEventIndexOffset gs.ethereumEventIndexOffset
    onlyIf (gs.lastEthBlockUpdateTime ≠ zeroTime) (setLastEthBlockUpdateTime gs.lastEthBlockUpdateTime)
    setLastConsensusTxsSequence gs.lastConsensusTxsSequence : Run W Unit).run s =
      .ok () { s with bridge := gs.store s.bridge } := by
  by_cases hzero : gs.lastEthBlockUpdateTime ≠ zeroTime
  · rw [GenesisState.store, if_pos hzero, decide_eq_true hzero]
    rfl
  · rw [GenesisState.store, if_neg hzero, decide_eq_false hzero]
    rfl

theorem run_initGenesis_eq_ok {app : App W} {gs : GenesisState} {s t : State W} {u : Unit} :
    (initGenesis app gs).run s = .ok u t ↔ ∃ acc w,
      (app.modules.getModuleAccount moduleName).run s.world = .ok (some acc) w ∧
      t = { s with bridge := gs.store s.bridge, world := w } := by
  unfold initGenesis
  cases hacc : (app.modules.getModuleAccount moduleName).run s.world with
  | error e w =>
    rw [run_bind_of_error (run_inWorld_of_error hacc)]
    simp
  | ok acc w =>
    rw [run_bind_of_ok (run_inWorld_of_ok hacc)]
    cases acc with
    | none =>
      rw [run_bind_of_error (by rw [run_failIf, if_pos rfl])]
      simp
    | some acc =>
      rw [run_bind_of_ok (by rw [run_failIf, if_neg (by simp)]), run_writes, EStateM.Result.ok.injEq]
      constructor
      · rintro ⟨-, rfl⟩
        exact ⟨acc, w, rfl, rfl⟩
      · rintro ⟨acc', w', hw, rfl⟩
        cases hw
        exact ⟨rfl, rfl⟩

/-! ## Stores that can be exported -/

/-- Every key is set, with a value that the genesis may have. -/
structure Store.Exportable (sdk : Sdk) (b : Store) : Prop where
  params : b.params.validate sdk = .ok ()
  info : ∃ info, b.supplyDeltaInfo = some info ∧ 0 ≤ info.lastSupply
  nonce : ∃ nonce, b.lastEthereumNonce = some nonce ∧ 0 ≤ nonce
  last : ∃ last, b.lastEthereumBlockSynced = some last
  offset : ∃ offset, b.ethereumEventIndexOffset = some offset
  sequence : ∃ sequence, b.lastConsensusTxsSequence = some sequence

theorem Store.Exportable.validate_exportGenesis {sdk : Sdk} {b : Store} (h : b.Exportable sdk) :
    (exportGenesis b).validate sdk = .ok () := by
  obtain ⟨info, hinfo, hsupply⟩ := h.info
  obtain ⟨nonce, hnonce, hpos⟩ := h.nonce
  refine GenesisState.validate_eq_ok.mpr ⟨⟨info, ?_, hsupply⟩, ?_, h.params⟩
  · simp [exportGenesis, hinfo]
  · simpa [exportGenesis, hnonce] using hpos

/-- A stored time is not the zero time, which no 64-bit count of nanoseconds reaches. -/
theorem int64_ne_zeroTime (n : ℤ) : int64 n ≠ zeroTime := by
  have hle := Int.le_bmod (x := n) (m := 2 ^ 64) (by decide)
  intro heq
  rw [int64] at heq
  rw [heq, zeroTime] at hle
  norm_num at hle

theorem uint64_int64 (n : UInt64) : UInt64.ofNat (uint64 (int64 n.toNat)) = n := by
  have hmod : int64 n.toNat % 2 ^ 64 = (n.toNat : ℤ) % 2 ^ 64 := Int.bmod_emod
  rw [uint64, hmod, Int.emod_eq_of_lt (by omega) (by have := n.toNat_lt; omega), Int.toNat_natCast,
    UInt64.ofNat_toNat]

theorem lastEthBlockUpdateTime_exportGenesis (b : Store) :
    ((exportGenesis b).store Store.unset).lastEthBlockUpdateTime = b.lastEthBlockUpdateTime := by
  have hexport : (exportGenesis b).lastEthBlockUpdateTime =
      (b.lastEthBlockUpdateTime.map fun n => int64 n.toNat).getD zeroTime := rfl
  cases htime : b.lastEthBlockUpdateTime with
  | none =>
    have hzero : (exportGenesis b).lastEthBlockUpdateTime = zeroTime := by
      rw [hexport, htime, Option.map_none, Option.getD_none]
    exact if_neg (not_not.mpr hzero)
  | some n =>
    have hset : (exportGenesis b).lastEthBlockUpdateTime = int64 n.toNat := by
      rw [hexport, htime, Option.map_some, Option.getD_some]
    refine (if_pos (hset ▸ int64_ne_zeroTime _)).trans ?_
    rw [hset, uint64_int64]

/-- At a block boundary the export, imported into an empty store, gives the store again. -/
theorem Store.Exportable.store_exportGenesis {sdk : Sdk} {b : Store} (h : b.Exportable sdk)
    (hindex : b.index = none) : (exportGenesis b).store Store.unset = b := by
  obtain ⟨info, hinfo, -⟩ := h.info
  obtain ⟨nonce, hnonce, -⟩ := h.nonce
  obtain ⟨last, hlast⟩ := h.last
  obtain ⟨offset, hoffset⟩ := h.offset
  obtain ⟨sequence, hsequence⟩ := h.sequence
  have htime := lastEthBlockUpdateTime_exportGenesis b
  cases b
  cases hinfo
  cases hnonce
  cases hlast
  cases hoffset
  cases hsequence
  cases hindex
  exact congrArg (fun time => Store.mk _ none (some info) (some nonce) (some last) (some offset) time
    (some sequence)) htime

end FuelSequencer.Bridge
