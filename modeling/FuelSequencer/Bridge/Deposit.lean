import FuelSequencer.Bridge.Special

/-! # Deposits from Ethereum and withdrawals to it

A deposit mints the bridged amount to the mapped account, or to governance whenever
the target cannot be determined; a withdrawal burns the amount of its sender. Both
record the amount in the offset of the supply delta.
-/
namespace FuelSequencer.Bridge
open Go Wire Exec Lib Wiring

variable {W : Type}

/-- `sdk.NewCoin`, which panics on an invalid coin. -/
def newCoin (denom : GoString) (amount : ℤ) : Outcome GoString Coin := do
  failIf (¬ isValidDenom denom) (Fault.panic (str "invalid denom: " ++ denom))
  failIf (amount < 0) (Fault.panic (str "negative coin amount: " ++ decimalInt amount))
  return ⟨denom, amount⟩

theorem newCoin_eq_ok {denom : GoString} {amount : ℤ} {coin : Coin} :
    newCoin denom amount = .ok coin ↔ isValidDenom denom ∧ 0 ≤ amount ∧ coin = ⟨denom, amount⟩ := by
  simp only [newCoin, except_bind_eq_ok, failIf_eq_ok, exists_const, not_not, not_lt, except_pure,
    Except.ok.injEq]
  exact and_congr_right fun _ => and_congr_right fun _ => eq_comm

/-- `sdk.NewCoins` of one coin: a zero coin is dropped, an invalid one panics. -/
def newCoins (coin : Coin) : Outcome GoString Coins :=
  if coin.amount = 0 then .ok []
  else do
    failIf (¬ isValidDenom coin.denom ∨ coin.amount < 0) (Fault.panic (str "invalid coin set"))
    return [coin]

/-- The amount leaves the offset, as minted coins are no supply change to report. -/
def subtractOffset (info : SupplyDeltaInfo) (amount : ℤ) : Run W Unit := do
  let offset ← ofOutcome (panicking (intSub info.offset amount))
  setSupplyDeltaInfo { info with offset := offset }

/-- A call of another module whose returned error is fatal. -/
def orPanic (text : String) (x : Prog GoString W Unit) : Run W Unit := do
  match ← attempt (inWorld x) with
  | .ok _ => pure ()
  | .error err => crash (str text ++ err)

def mintToGovernanceAddress (app : App W) (tokenToMint : Coin) (depositEvent : MsgDepositFromEthereum)
    (supplyDeltaInfo : SupplyDeltaInfo) : Run W Unit := do
  let tokensToMint ← ofOutcome (newCoins tokenToMint)
  orPanic "failed to mint bridge tokens to gov module account err: "
    (app.modules.mintCoins govModuleName tokensToMint)
  subtractOffset supplyDeltaInfo tokenToMint.amount
  let _ ← attempt (emit app (.depositEventFailed (encodeFields depositEvent.fields)))

/-- The account to credit; an error sends the deposit to governance. -/
def depositTarget (app : App W) (depositEvent : MsgDepositFromEthereum) (vesting : Duration)
    (tokensToMint : Coins) : Run W (Except GoString Bytes) := do
  let s ← get
  if ¬ isHexAddress depositEvent.depositor then
    return .error (str "depositor address is not a valid hex address")
  else
    match isAddressBlocked app s depositEvent.depositor with
    | .error err => return .error err
    | .ok true => return .error (str "depositor address is blocked")
    | .ok false =>
      let potentialSequencerAddr :=
        generateSequencerAddressFromEthereumAddress app.sdk depositEvent.depositor
      let depositorSeq := match potentialSequencerAddr with
        | .ok addr => app.sdk.accAddressString addr
        | .error _ => []
      if isRecipientOwnedByDepositor depositEvent.depositor depositEvent.recipient depositorSeq
          (!potentialSequencerAddr.isOk) then
        attempt (generateSequencerAccountFromEthereumDeposit app depositEvent.depositor vesting
          tokensToMint)
      else if isHexAddress depositEvent.recipient then
        return generateSequencerAddressFromEthereumAddress app.sdk depositEvent.recipient
      else
        return app.sdk.accAddressFromBech32 depositEvent.recipient

/-- Minting to the module and passing on to the account, or to governance if it refuses. -/
def mintAndSend (app : App W) (sequencerAddr : Bytes) (tokensToMint : Coins) : Run W Unit := do
  orPanic "failed to mint tokens to module; err: " (app.modules.mintCoins moduleName tokensToMint)
  match ← attempt (inWorld
      (app.modules.sendCoinsFromModuleToAccount moduleName sequencerAddr tokensToMint)) with
  | .ok _ => pure ()
  | .error _ =>
    orPanic "failed to transfer bridge tokens to gov module account err: "
      (app.modules.sendCoinsFromModuleToModule moduleName govModuleName tokensToMint)

def processDepositEvent (app : App W) (depositEvent : MsgDepositFromEthereum) (params : Params)
    (supplyDeltaInfo : SupplyDeltaInfo) : Run W Unit := do
  let amount ← ofOutcome (required (app.sdk.newIntFromString depositEvent.amount)
    (.panic (str "could not unmarshal amount to int from string (" ++ depositEvent.amount ++ str ")")))
  let tokenToMint ← ofOutcome (newCoin params.bridgeDenom amount)
  let tokensToMint ← ofOutcome (newCoins tokenToMint)
  match app.sdk.newIntFromString depositEvent.lockup with
  | none => mintToGovernanceAddress app tokenToMint depositEvent supplyDeltaInfo
  | some eventLockup =>
    let seconds ← ofOutcome (panicking (intInt64 eventLockup))
    let vesting := int64 (seconds * 10 ^ 9)
    match ← depositTarget app depositEvent vesting tokensToMint with
    | .error _ => mintToGovernanceAddress app tokenToMint depositEvent supplyDeltaInfo
    | .ok sequencerAddr =>
      mintAndSend app sequencerAddr tokensToMint
      subtractOffset supplyDeltaInfo amount
      let _ ← attempt (emit app (.depositEventProcessed depositEvent.depositor
        (app.sdk.accAddressString sequencerAddr) tokenToMint (app.sdk.durationString vesting)))

def depositFromEthereum (app : App W) (msg : MsgDepositFromEthereum) : Run W Unit := do
  let store ← getStore
  let supplyDeltaInfo ← mustGetSupplyDeltaInfo
  processDepositEvent app msg store.params supplyDeltaInfo

def handleDepositFromEthereum (app : App W) (msg : MsgDepositFromEthereum) : Run W (Reply Unit) := do
  let ended ← tryExecSpecialMessage app msg.authority (depositFromEthereum app msg)
  return reply () ended

/-! ## Withdrawals -/

/-- A call of another module whose returned error is passed on with more text. -/
def orFail (text : GoString) (x : Prog GoString W Unit) : Run W Unit := do
  match ← attempt (inWorld x) with
  | .ok _ => pure ()
  | .error err => fail (text ++ err)

def burnCoinsFromAddress (app : App W) (address : Bytes) (amt : Coins) : Run W Unit := do
  orFail (str "failed to burn bridge tokens: cannot send tokens from " ++
      app.sdk.accAddressString address ++ str " to bridge module: ")
    (app.modules.sendCoinsFromAccountToModule address moduleName amt)
  orFail (str "failed to burn bridge tokens: cannot burn tokens from bridge module: ")
    (app.modules.burnCoins moduleName amt)

def handleWithdrawToEthereum (app : App W) (msg : MsgWithdrawToEthereum) :
    Run W MsgWithdrawToEthereumResponse := do
  let store ← getStore
  let bridgeDenom := store.params.bridgeDenom
  failIf (msg.amount.denom ≠ bridgeDenom)
    (Fault.err (str "invalid token denom: " ++ msg.amount.denom ++ str ", expected: " ++ bridgeDenom ++
      str ": invalid request"))
  let withdrawerAccAddress ← ofOutcome (wrapping (str "failed to decode from address: " ++ ·)
    (stringToBytes app.sdk msg.fromAddress))
  let coins ← ofOutcome (newCoins msg.amount)
  burnCoinsFromAddress app withdrawerAccAddress coins
  let supplyDeltaInfo ← mustGetSupplyDeltaInfo
  let offset ← ofOutcome (panicking (intAdd supplyDeltaInfo.offset msg.amount.amount))
  setSupplyDeltaInfo { supplyDeltaInfo with offset := offset }
  let nonce ← mustGetNextEthereumNonce
  setLastEthereumNonce nonce
  emit app (.withdrawToEthereumReported nonce (app.sdk.toLower msg.fromAddress)
    (app.sdk.toLower msg.toAddress) msg.amount)
  return ⟨nonce, app.sdk.toLower msg.fromAddress, app.sdk.toLower msg.toAddress, msg.amount⟩

def handleUpdateParams (app : App W) (msg : MsgUpdateParams) : Run W Unit := do
  failIf (app.keeper.authority ≠ msg.authority)
    (Fault.err (errInvalidAuthority app.keeper.authority msg.authority))
  setParams msg.params

end FuelSequencer.Bridge
