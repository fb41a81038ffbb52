import FuelSequencer.Bridge.Deposit

/-! # The module at the beginning and at the end of a block

At a supply delta height the change of the supply since the last one is set aside
for the message that reports it. At the end of a block the index must show that every
injected transaction was seen and that no special message failed.
-/
namespace FuelSequencer.Bridge
open Go Wire Exec Lib Wiring

variable {W : Type}

/-- The supply of the bridged denom. -/
def bridgeSupply (app : App W) (s : State W) : ℤ :=
  app.modules.getSupply s.world s.bridge.params.bridgeDenom

def updateSupplyDeltaInfoWithNewDelta (app : App W) (ctx : Ctx) : Run W Unit := do
  let s ← get
  let injectMsgSupplyDelta ← ofOutcome (s.bridge.params.isMsgSupplyDeltaBlock ctx.blockHeight)
  onlyIf injectMsgSupplyDelta do
    let supplyDeltaInfo ← mustGetSupplyDeltaInfo
    let currentSupply := bridgeSupply app s
    let change ← ofOutcome (panicking (intSub currentSupply supplyDeltaInfo.lastSupply))
    let toReport ← ofOutcome (panicking (intAdd change supplyDeltaInfo.offset))
    setSupplyDeltaInfo ⟨currentSupply, 0, toReport⟩

def beginBlock (app : App W) (ctx : Ctx) : Run W Unit := updateSupplyDeltaInfoWithNewDelta app ctx

def endBlock : Run W Unit := do
  let store ← getStore
  let index ← ofOutcome (required store.index
    (.err (str "expected to find Index at the end of the block")))
  failIf (index.numInjectedTxsAnte ≠ index.numInjectedTxsTotal)
    (Fault.err (str "expected AnteHandler to see all injected txs; total: " ++
      decimal index.numInjectedTxsTotal.toNat ++ str "; seen: " ++ decimal index.numInjectedTxsAnte.toNat))
  failIf (index.numFailedSpecialTxs > 0)
    (Fault.err (str "expected all special transactions to pass; total failed: " ++
      decimal index.numFailedSpecialTxs.toNat))
  removeIndex

/-- The index shows a block in order. -/
structure Index.Settled (i : Index) : Prop where
  seen : i.numInjectedTxsAnte = i.numInjectedTxsTotal
  passed : i.numFailedSpecialTxs = 0

theorem run_endBlock_eq_ok {s t : State W} {u : Unit} :
    endBlock.run s = .ok u t ↔ ∃ i, s.bridge.index = some i ∧ i.Settled ∧
      t = { s with bridge := { s.bridge with index := none } } := by
  have hzero : ∀ n : UInt64, ¬ n > 0 ↔ n = 0 := by
    intro n
    rw [gt_iff_lt, UInt64.lt_iff_toNat_lt, ← UInt64.toNat_inj]
    simp
  simp only [endBlock, run_bind_eq_ok, run_getStore_eq_ok, run_ofOutcome_eq_ok, required_eq_ok,
    run_failIf_eq_ok, removeIndex, run_onStore_eq_ok, hzero, not_not]
  constructor
  · rintro ⟨_, _, ⟨rfl, rfl⟩, i, _, ⟨hi, rfl⟩, _, _, ⟨hseen, rfl⟩, _, _, ⟨hpassed, rfl⟩, rfl⟩
    exact ⟨i, hi, ⟨hseen, hpassed⟩, rfl⟩
  · rintro ⟨i, hi, ⟨hseen, hpassed⟩, rfl⟩
    exact ⟨_, _, ⟨rfl, rfl⟩, i, _, ⟨hi, rfl⟩, (), _, ⟨hseen, rfl⟩, (), _, ⟨hpassed, rfl⟩, rfl⟩

/-- The supply delta info with which a block begins. -/
def begunInfo (delta : Bool) (supply : ℤ) (info : SupplyDeltaInfo) : SupplyDeltaInfo :=
  if delta then ⟨supply, 0, supply - info.lastSupply + info.offset⟩ else info

def Store.begun (b : Store) (delta : Bool) (supply : ℤ) : Store :=
  { b with supplyDeltaInfo := b.supplyDeltaInfo.map (begunInfo delta supply) }

theorem Store.begun_false (b : Store) (supply : ℤ) : b.begun false supply = b := by
  have hid : ∀ o : Option SupplyDeltaInfo, o.map (begunInfo false supply) = o := by
    intro o
    cases o <;> rfl
  rw [Store.begun, hid]

theorem run_beginBlock_eq_ok {app : App W} {ctx : Ctx} {s t : State W} {u : Unit}
    (h : (beginBlock app ctx).run s = .ok u t) : ∃ delta,
      s.bridge.params.isMsgSupplyDeltaBlock ctx.blockHeight = .ok delta ∧
      (delta = true → s.bridge.supplyDeltaInfo.isSome) ∧
      t = { s with bridge := s.bridge.begun delta (bridgeSupply app s) } := by
  simp only [beginBlock, updateSupplyDeltaInfoWithNewDelta, run_bind_eq_ok, run_ofOutcome_eq_ok] at h
  obtain ⟨_, _, hget, delta, _, ⟨hdelta, rfl⟩, h⟩ := h
  obtain ⟨rfl, rfl⟩ := EStateM.Result.ok.inj hget
  refine ⟨delta, hdelta, ?_⟩
  cases delta with
  | false =>
    rw [Store.begun_false]
    exact ⟨by simp, (EStateM.Result.ok.inj h).2.symm⟩
  | true =>
    simp only [onlyIf, if_true, run_bind_eq_ok, mustGetSupplyDeltaInfo, run_mustGet_eq_ok,
      run_ofOutcome_eq_ok, panicking_eq_ok, intSub, intAdd, checkInt_eq_ok, setSupplyDeltaInfo,
      run_onStore_eq_ok] at h
    obtain ⟨info, _, ⟨hinfo, rfl⟩, _, _, ⟨⟨-, rfl⟩, rfl⟩, _, _, ⟨⟨-, rfl⟩, rfl⟩, rfl⟩ := h
    rw [Store.begun, hinfo]
    exact ⟨fun _ => rfl, rfl⟩

end FuelSequencer.Bridge
