import FuelSequencer.Bridge.Deposit
import FuelSequencer.Bridge.Delivery

/-! # What deposits and withdrawals do to the store

Whichever way a deposit takes, it ends with the amount taken from the offset and
nothing else of the store changed; a withdrawal adds its amount and takes a nonce.
-/
namespace FuelSequencer.Bridge
open Go Wire Exec Lib Wiring

variable {W : Type} {app : App W} {s t : State W}

/-! ## Calls of other modules leave the store alone -/

section Frame

variable {γ : Type} {g : State W → γ}

theorem keeps_orPanic (hg : OutsideWorld g) (text : String) (x : Prog GoString W Unit) :
    Keeps g (orPanic text x) := by
  refine (keeps_inWorld hg x).attempt.bind fun r => ?_
  cases r with
  | ok _ => exact keeps_pure _ _
  | error err => exact keeps_crash _ _

theorem keeps_orFail (hg : OutsideWorld g) (text : GoString) (x : Prog GoString W Unit) :
    Keeps g (orFail text x) := by
  refine (keeps_inWorld hg x).attempt.bind fun r => ?_
  cases r with
  | ok _ => exact keeps_pure _ _
  | error err => exact keeps_fail _ _

theorem keeps_numberedAccount (hg : OutsideWorld g) (existingAcc : Option Account) (acc : EthOwnedAccount) :
    Keeps g (numberedAccount app existingAcc acc) := by
  cases existingAcc with
  | none => exact keeps_inWorld hg _
  | some a => exact keeps_pure _ _

theorem keeps_generateSequencerAccount (hg : OutsideWorld g) (ethAddress : GoString)
    (vestingDuration : Duration) (coins : Coins) :
    Keeps g (generateSequencerAccountFromEthereumDeposit app ethAddress vestingDuration coins) := by
  refine (keeps_ofOutcome _ _).bind fun accAddress => (keeps_get _).bind fun s => ?_
  exact (keeps_ofOutcome _ _).bind fun acc => (keeps_numberedAccount hg _ acc).bind fun accI =>
    (keeps_inWorld hg _).bind fun _ => keeps_pure _ _

theorem keeps_depositTarget (hg : OutsideWorld g) (msg : MsgDepositFromEthereum) (vesting : Duration)
    (coins : Coins) : Keeps g (depositTarget app msg vesting coins) := by
  refine (keeps_get _).bind fun s => Keeps.ite (keeps_pure _ _) ?_
  cases isAddressBlocked app s msg.depositor with
  | error err => exact keeps_pure _ _
  | ok blocked =>
    cases blocked with
    | true => exact keeps_pure _ _
    | false =>
      exact Keeps.ite (keeps_generateSequencerAccount hg _ _ _).attempt
        (Keeps.ite (keeps_pure _ _) (keeps_pure _ _))

theorem keeps_mintAndSend (hg : OutsideWorld g) (sequencerAddr : Bytes) (coins : Coins) :
    Keeps g (mintAndSend app sequencerAddr coins) := by
  refine (keeps_orPanic hg _ _).bind fun _ => (keeps_inWorld hg _).attempt.bind fun r => ?_
  cases r with
  | ok _ => exact keeps_pure _ _
  | error err => exact keeps_orPanic hg _ _

theorem keeps_burnCoinsFromAddress (hg : OutsideWorld g) (address : Bytes) (coins : Coins) :
    Keeps g (burnCoinsFromAddress app address coins) :=
  (keeps_orFail hg _ _).bind fun _ => keeps_orFail hg _ _

end Frame

/-! ## Deposits -/

/-- The store with an amount taken from the offset. -/
def Store.withOffset (b : Store) (info : SupplyDeltaInfo) (offset : ℤ) : Store :=
  { b with supplyDeltaInfo := some { info with offset := offset } }

theorem run_subtractOffset_eq_ok {info : SupplyDeltaInfo} {amount : ℤ} {u : Unit} :
    (subtractOffset info amount : Run W Unit).run s = .ok u t ↔
      (info.offset - amount).natAbs < 2 ^ maxBitLen ∧
      t = { s with bridge := s.bridge.withOffset info (info.offset - amount) } := by
  simp only [subtractOffset, run_bind_eq_ok, run_ofOutcome_eq_ok, panicking_eq_ok, intSub, checkInt_eq_ok,
    setSupplyDeltaInfo, run_onStore_eq_ok, Store.withOffset]
  constructor
  · rintro ⟨_, _, ⟨⟨hlt, rfl⟩, rfl⟩, rfl⟩
    exact ⟨hlt, rfl⟩
  · rintro ⟨hlt, rfl⟩
    exact ⟨_, _, ⟨⟨hlt, rfl⟩, rfl⟩, rfl⟩

/-- An ignored failure to emit an event. -/
theorem run_attempt_emit (hlaw : app.sdk.Lawful) (e : TypedEvent) (s : State W) :
    (attempt (emit app e) : Run W (Except GoString Unit)).run s = .ok (.ok ()) s :=
  run_attempt_of_ok (run_emit hlaw e s)

theorem mintToGovernanceAddress_bridge (hlaw : app.sdk.Lawful) {token : Coin}
    {msg : MsgDepositFromEthereum} {info : SupplyDeltaInfo} {u : Unit}
    (h : (mintToGovernanceAddress app token msg info).run s = .ok u t) :
    t.bridge = s.bridge.withOffset info (info.offset - token.amount) := by
  simp only [mintToGovernanceAddress, run_bind_eq_ok, run_ofOutcome_eq_ok, run_subtractOffset_eq_ok,
    run_attempt_emit hlaw, run_pure_eq_ok] at h
  obtain ⟨_, _, ⟨-, rfl⟩, _, s₁, hmint, _, _, ⟨-, rfl⟩, _, _, hemit, -, rfl⟩ := h
  cases hemit
  rw [← (keeps_orPanic outsideWorld_bridge _ _).of_ok hmint]

theorem depositFromEthereum_bridge (hlaw : app.sdk.Lawful) {msg : MsgDepositFromEthereum} {u : Unit}
    (h : (depositFromEthereum app msg).run s = .ok u t) : ∃ info amount,
      s.bridge.supplyDeltaInfo = some info ∧ app.sdk.newIntFromString msg.amount = some amount ∧
      t.bridge = s.bridge.withOffset info (info.offset - amount) := by
  simp only [depositFromEthereum, processDepositEvent, run_bind_eq_ok, run_getStore_eq_ok,
    mustGetSupplyDeltaInfo, run_mustGet_eq_ok, run_ofOutcome_eq_ok, required_eq_ok] at h
  obtain ⟨_, _, ⟨rfl, rfl⟩, info, _, ⟨hinfo, rfl⟩, amount, _, ⟨hamount, rfl⟩, token, _, ⟨htoken, rfl⟩,
    coins, _, ⟨-, rfl⟩, h⟩ := h
  obtain ⟨-, -, rfl⟩ := newCoin_eq_ok.mp htoken
  refine ⟨info, amount, hinfo, hamount, ?_⟩
  cases hlock : app.sdk.newIntFromString msg.lockup with
  | none =>
    rw [hlock] at h
    rw [mintToGovernanceAddress_bridge hlaw h]
  | some lockup =>
    rw [hlock] at h
    simp only [run_bind_eq_ok, run_ofOutcome_eq_ok] at h
    obtain ⟨seconds, _, ⟨-, rfl⟩, target, s₁, htarget, h⟩ := h
    have hs₁ := (keeps_depositTarget outsideWorld_bridge _ _ _).of_ok htarget
    cases target with
    | error err => rw [mintToGovernanceAddress_bridge hlaw h, hs₁]
    | ok addr =>
      simp only [run_bind_eq_ok, run_subtractOffset_eq_ok, run_attempt_emit hlaw, run_pure_eq_ok] at h
      obtain ⟨_, s₂, hsend, _, _, ⟨-, rfl⟩, _, _, hemit, -, rfl⟩ := h
      cases hemit
      rw [← hs₁, ← (keeps_mintAndSend outsideWorld_bridge _ _).of_ok hsend]

/-! ## Withdrawals -/

theorem handleWithdrawToEthereum_bridge (hlaw : app.sdk.Lawful) {msg : MsgWithdrawToEthereum}
    {r : MsgWithdrawToEthereumResponse} (h : (handleWithdrawToEthereum app msg).run s = .ok r t) :
    ∃ info nonce, s.bridge.supplyDeltaInfo = some info ∧ s.bridge.lastEthereumNonce = some nonce ∧
      r.nonce = nonce + 1 ∧
      t.bridge = { s.bridge.withOffset info (info.offset + msg.amount.amount) with
        lastEthereumNonce := some (nonce + 1) } := by
  simp only [handleWithdrawToEthereum, run_bind_eq_ok, run_getStore_eq_ok, run_failIf_eq_ok,
    run_ofOutcome_eq_ok, mustGetSupplyDeltaInfo, run_mustGet_eq_ok,
    panicking_eq_ok, intAdd, checkInt_eq_ok, setSupplyDeltaInfo, run_onStore_eq_ok,
    mustGetNextEthereumNonce, mustGetLastEthereumNonce, setLastEthereumNonce, run_emit hlaw,
    run_pure_eq_ok] at h
  obtain ⟨_, _, ⟨rfl, rfl⟩, _, _, ⟨-, rfl⟩, addr, _, ⟨-, rfl⟩, coins, _, ⟨-, rfl⟩, _, s₁,
    hburn, info, _, ⟨hinfo, rfl⟩, _, _, ⟨⟨-, rfl⟩, rfl⟩, _, _, rfl, _, _,
    ⟨nonce, _, ⟨hnonce, rfl⟩, ⟨-, rfl⟩, rfl⟩, _, _, rfl, _, _, hemit, rfl, rfl⟩ := h
  cases hemit
  have hbridge := (keeps_burnCoinsFromAddress outsideWorld_bridge _ _).of_ok hburn
  rw [hbridge] at hinfo hnonce
  refine ⟨info, nonce, hinfo, hnonce, rfl, ?_⟩
  rw [hbridge, Store.withOffset]

/-! ## The sequencing store

No message of the bridge touches it.
-/

theorem keeps_emit {γ : Type} (g : State W → γ) (e : TypedEvent) : Keeps g (emit app e) := keeps_ofOutcome _ _

theorem keeps_getStore {γ : Type} (g : State W → γ) : Keeps g (getStore : Run W Store) :=
  (keeps_get _).bind fun _ => keeps_pure _ _

theorem keeps_subtractOffset (info : SupplyDeltaInfo) (amount : ℤ) :
    Keeps State.sequencing (subtractOffset info amount : Run W Unit) :=
  (keeps_ofOutcome _ _).bind fun _ => keeps_onStore _

theorem keeps_mintToGovernanceAddress (token : Coin) (msg : MsgDepositFromEthereum) (info : SupplyDeltaInfo) :
    Keeps State.sequencing (mintToGovernanceAddress app token msg info) := by
  refine (keeps_ofOutcome _ _).bind fun _ => (keeps_orPanic outsideWorld_sequencing _ _).bind fun _ => ?_
  exact (keeps_subtractOffset _ _).bind fun _ => (keeps_emit _ _).attempt.bind fun _ => keeps_pure _ _

theorem keeps_depositFromEthereum (msg : MsgDepositFromEthereum) :
    Keeps State.sequencing (depositFromEthereum app msg) := by
  refine (keeps_getStore _).bind fun _ => (keeps_mustGet _ _ _).bind fun info => ?_
  refine (keeps_ofOutcome _ _).bind fun amount => (keeps_ofOutcome _ _).bind fun token => ?_
  refine (keeps_ofOutcome _ _).bind fun coins => ?_
  cases app.sdk.newIntFromString msg.lockup with
  | none => exact keeps_mintToGovernanceAddress _ _ _
  | some lockup =>
    refine (keeps_ofOutcome _ _).bind fun seconds => ?_
    refine (keeps_depositTarget outsideWorld_sequencing _ _ _).bind fun target => ?_
    cases target with
    | error err => exact keeps_mintToGovernanceAddress _ _ _
    | ok addr =>
      refine (keeps_mintAndSend outsideWorld_sequencing _ _).bind fun _ => ?_
      exact (keeps_subtractOffset _ _).bind fun _ => (keeps_emit _ _).attempt.bind fun _ => keeps_pure _ _

theorem keeps_handleWithdrawToEthereum (msg : MsgWithdrawToEthereum) :
    Keeps State.sequencing (handleWithdrawToEthereum app msg) := by
  refine (keeps_getStore _).bind fun _ => (keeps_failIf _ _ _).bind fun _ => ?_
  refine (keeps_ofOutcome _ _).bind fun addr => (keeps_ofOutcome _ _).bind fun coins => ?_
  refine (keeps_burnCoinsFromAddress outsideWorld_sequencing _ _).bind fun _ => ?_
  refine (keeps_mustGet _ _ _).bind fun info => (keeps_ofOutcome _ _).bind fun offset => ?_
  refine (keeps_onStore _).bind fun _ => ((keeps_mustGet _ _ _).bind fun _ => keeps_ofOutcome _ _).bind
    fun nonce => ?_
  exact (keeps_onStore _).bind fun _ => (keeps_emit _ _).bind fun _ => keeps_pure _ _

theorem keeps_supplyDelta (ctx : Ctx) : Keeps State.sequencing (supplyDelta app ctx) := by
  refine (keeps_getStore _).bind fun _ => (keeps_ofOutcome _ _).bind fun _ => (keeps_failIf _ _ _).bind fun _ => ?_
  have hnonce : Keeps State.sequencing (mustGetNextEthereumNonceAndIncrement : Run W ℤ) :=
    ((keeps_mustGet _ _ _).bind fun _ => keeps_ofOutcome _ _).bind fun _ =>
      (keeps_onStore _).bind fun _ => keeps_pure _ _
  refine hnonce.bind fun nonce => (keeps_mustGet _ _ _).bind fun info => ?_
  exact (keeps_onStore _).bind fun _ => (keeps_emit _ _).bind fun _ => keeps_pure _ _

theorem keeps_index (ctx : Ctx) (msg : MsgIndex) : Keeps State.sequencing (index app ctx msg) := by
  refine (keeps_mustGet _ _ _).bind fun last => (keeps_mustGet _ _ _).bind fun offset => ?_
  refine (keeps_getStore _).bind fun store => (keeps_ofOutcome _ _).bind fun _ => ?_
  refine (keeps_failIf _ _ _).bind fun _ => (keeps_failIf _ _ _).bind fun _ => (keeps_onStore _).bind fun _ => ?_
  refine (Keeps.onlyIf ?full).bind fun _ => (Keeps.onlyIf ?part).bind fun _ =>
    (Keeps.onlyIf (keeps_emit _ _)).bind fun _ => (keeps_mustGet _ _ _).bind fun _ => keeps_onStore _
  case full =>
    exact (keeps_onStore _).bind fun _ => Keeps.bind (fun _ => rfl) fun _ => keeps_onStore _
  case part => exact (keeps_onStore _).bind fun _ => keeps_onStore _

/-- A special message keeps what its body keeps. -/
theorem keeps_special {α : Type} {authority : GoString} {body : Run W α} {normalised : α}
    (hbody : Keeps State.sequencing body) : Keeps State.sequencing (do
      let ended ← tryExecSpecialMessage app authority body
      return reply normalised ended : Run W (Reply α)) := by
  have hended : Keeps State.sequencing (applyFuncIfNoErrorAndNoPanic body) := by
    refine Keeps.caught (hbody.isolated.attempt.bind fun r => ?_)
    cases r with
    | ok a => exact keeps_pure _ _
    | error e => exact keeps_fail _ _
  refine ((keeps_failIf _ _ _).bind fun _ => hended.bind fun ended => ?_).bind fun _ => keeps_pure _ _
  cases ended with
  | ok a => exact keeps_pure _ _
  | error e => exact (keeps_onStore _).bind fun _ => keeps_pure _ _

end FuelSequencer.Bridge
