import FuelSequencer.Bridge.Lockup
import FuelSequencer.Sidecar.Reference

/-! # Deposits from the log to the account

A deposit log becomes an event of the sidecar, the event a message, and the message a mint.
Addresses travel as texts, which determine their bytes, so that the way a deposit takes
depends on the bytes in the log alone.
-/
namespace FuelSequencer.Sidecar
open Go Wire Exec Lib Bridge Wiring

variable {W : Type}

/-- What the libraries do with the texts of a deposit. -/
structure DepositLaws (sdk : Sdk) : Prop where
  isHexAddress_ethAddressString : ∀ {bz : Bytes}, bz.length = 20 → isHexAddress (sdk.ethAddressString bz)
  fromHex_ethAddressString : ∀ {bz : Bytes}, bz.length = 20 → fromHex (sdk.ethAddressString bz) = bz
  ethAddressString_zero : sdk.ethAddressString (List.replicate 20 0) = nullEthereumAddress
  ethAddressString_ne : ∀ a b : Bytes, sdk.ethAddressString a ≠ sdk.accAddressString b
  newIntFromString_decimal : ∀ {n : ℕ}, n < 2 ^ maxBitLen → sdk.newIntFromString (decimal n) = some (n : ℤ)
  unmarshalDepositEvent_encode : ∀ m : DepositEvent,
    sdk.unmarshalDepositEvent (encodeFields m.fields) = .ok m

/-- A log of the deposit event, with the values of its topics and data. -/
structure DepositLog (client : EthRpcClient) (log : Log) (depositor recipient : Bytes) (amount lockup : ℕ) :
    Prop where
  kind : ∃ topic, log.topics[0]? = some topic ∧ client.kindOf topic = some .deposit
  depositor_eq : ∃ topic, log.topics[1]? = some topic ∧ topic.drop 12 = depositor
  recipient_eq : ∃ topic, log.topics[2]? = some topic ∧ topic.drop 12 = recipient
  data : client.contractAbi.deposit log.data = .ok (amount, lockup)
  amount_pos : 0 < amount
  amount_lt : amount < 2 ^ maxBitLen
  lockup_lt : lockup < 2 ^ maxBitLen

/-- The message of a deposit. -/
def depositMsg (app : App W) (depositor recipient : Bytes) (amount lockup : ℕ) : MsgDepositFromEthereum :=
  ⟨app.keeper.authority, app.sdk.ethAddressString depositor, app.sdk.ethAddressString recipient, decimal amount,
    decimal lockup⟩

section Logs

variable {app : App W} {client : EthRpcClient} {log : Log} {depositor recipient : Bytes} {amount lockup : ℕ}
  {e : Event} {msg : MsgDepositFromEthereum}

theorem DepositLog.length_depositor (h : DepositLog client log depositor recipient amount lockup) :
    depositor.length = 20 := by
  obtain ⟨topic, htopic, rfl⟩ := h.depositor_eq
  exact length_drop_topic htopic

theorem DepositLog.length_recipient (h : DepositLog client log depositor recipient amount lockup) :
    recipient.length = 20 := by
  obtain ⟨topic, htopic, rfl⟩ := h.recipient_eq
  exact length_drop_topic htopic

theorem toAny_injective (hlaw : app.sdk.Lawful) {m m' : MsgDepositFromEthereum} (h : m.toAny = m'.toAny) : m = m' := by
  have hm := hlaw.unpackAny_depositFromEthereum m
  rw [h, hlaw.unpackAny_depositFromEthereum m'] at hm
  exact (Msg.depositFromEthereum.inj (Except.ok.inj hm)).symm

/-- The values of the log arrive in the message. -/
theorem message_of_log (hlaw : app.sdk.Lawful) (texts : DepositLaws app.sdk) (hsdk : client.sdk = app.sdk)
    (hlog : DepositLog client log depositor recipient amount lockup)
    (hextract : client.extractLogDataToEvent log = .ok (some e))
    (hmsg : e.messages app.sdk app.keeper.authority = .ok [msg.toAny]) :
    msg = depositMsg app depositor recipient amount lockup := by
  obtain ⟨topic₀, htopic₀, hkind⟩ := hlog.kind
  obtain ⟨topic₁, htopic₁, rfl⟩ := hlog.depositor_eq
  obtain ⟨topic₂, htopic₂, rfl⟩ := hlog.recipient_eq
  simp only [EthRpcClient.extractLogDataToEvent, Log.topicAt, htopic₀, required, ok_bind, hkind,
    EthRpcClient.eventData, EthRpcClient.depositEvent, hlog.data, wrapping, Except.mapError,
    EthRpcClient.topicText, htopic₁, htopic₂, except_pure, Except.ok.injEq, Option.some.injEq] at hextract
  subst hextract
  simp only [Event.messages, Event.unmarshalParsedEvent, EthRpcClient.populateEvent,
    texts.unmarshalDepositEvent_encode, Except.mapError, Except.map, ok_bind, ParsedEvent.messages,
    DepositEvent.messages, DepositEvent.toMsgDepositFromEthereum, Except.ok.injEq, List.cons.injEq, and_true,
    hsdk] at hmsg
  exact (toAny_injective hlaw hmsg).symm

/-! ## Texts and bytes -/

section Texts

variable (texts : DepositLaws app.sdk) (hdepositor : depositor.length = 20) (hrecipient : recipient.length = 20)

include texts hdepositor

theorem isHexAddress_depositor : isHexAddress (depositMsg app depositor recipient amount lockup).depositor :=
  texts.isHexAddress_ethAddressString hdepositor

theorem fromHex_depositor : fromHex (depositMsg app depositor recipient amount lockup).depositor = depositor :=
  texts.fromHex_ethAddressString hdepositor

include hrecipient

/-- The texts of two addresses agree exactly if their bytes do. -/
theorem ethAddressString_inj : app.sdk.ethAddressString recipient = app.sdk.ethAddressString depositor ↔
    recipient = depositor := by
  refine ⟨fun h => ?_, fun h => by rw [h]⟩
  rw [← texts.fromHex_ethAddressString hrecipient, h, texts.fromHex_ethAddressString hdepositor]

/-- The recipient is the depositor's own account exactly if its bytes are zero or the depositor's. -/
theorem recipientOwned_iff : RecipientOwned app (depositMsg app depositor recipient amount lockup) ↔
    recipient = List.replicate 20 0 ∨ recipient = depositor := by
  have hzero : app.sdk.ethAddressString recipient = nullEthereumAddress ↔ recipient = List.replicate 20 0 := by
    rw [← texts.ethAddressString_zero]
    exact ethAddressString_inj texts (List.length_replicate ..) hrecipient
  have hseq : app.sdk.ethAddressString recipient ≠
      app.sdk.accAddressString (fromHex (app.sdk.ethAddressString depositor)) := texts.ethAddressString_ne _ _
  simp only [RecipientOwned, isRecipientOwnedByDepositor, depositMsg, decide_eq_true_eq, hzero,
    ethAddressString_inj texts hdepositor hrecipient, hseq, and_false, or_false]

end Texts

/-! ## The state before a deposit -/

/-- What a reachable state has: the supply delta info is set, the depositor's account is stored
under its address with well-formed schedules, and no sum of the deposit needs more than 256 bits. -/
structure DepositState (app : App W) (s : State W) (depositor : Bytes) (amount : ℕ) (info : SupplyDeltaInfo) :
    Prop where
  info_eq : s.bridge.supplyDeltaInfo = some info
  sums : SumsFit app s.bridge.params.bridgeDenom amount info s
  stored : StoredUnder app s (app.sdk.ethAddressString depositor)
  sound : Sound (schedulesAt app.modules s.world depositor)
  schedules_lt : ∀ d, total (schedulesAt app.modules s.world depositor) (·.original d) + amount < 2 ^ maxBitLen

section Sums

variable {s t : State W} {info : SupplyDeltaInfo} {denom : GoString}

theorem sumsFit_of_money {amount : ℤ} {w : W} (h : SumsFit app denom amount info s)
    (hmoney : moneyOf app.modules w = moneyOf app.modules s.world) :
    SumsFit app denom amount info { s with world := w } := by
  have hsupply : app.modules.getSupply w = app.modules.getSupply s.world := congrArg Money.supply hmoney
  have hbalance : app.modules.getBalance w = app.modules.getBalance s.world := congrArg Money.balance hmoney
  exact ⟨hsupply ▸ h.supply_nonneg, hsupply ▸ h.supply_lt, h.offset_lt, hbalance ▸ h.bridge_nonneg⟩

/-- A settlement after a step that moved no tokens. -/
theorem Settled.of_money {amount : ℤ} {account : Bytes} {w : W}
    (h : Settled app denom amount info account { s with world := w } t)
    (hmoney : moneyOf app.modules w = moneyOf app.modules s.world) : Settled app denom amount info account s t :=
  ⟨hmoney ▸ h.money, h.bridge⟩

/-- A deposit in a reachable state panics on no account. -/
theorem depositedAt_returns (texts : DepositLaws app.sdk) (laws : CoinLaws app.sdk) (hlength : depositor.length = 20)
    (hstate : DepositState app s depositor amount info) (hdenom : isValidDenom denom) {vesting : Duration}
    {err : GoString} :
    depositedAt app s (app.sdk.ethAddressString depositor) vesting [⟨denom, amount⟩] ≠ .error (.panic err) := by
  have hcoins : WellFormed [⟨denom, (amount : ℤ)⟩] := .single hdenom (Int.natCast_nonneg amount)
  unfold depositedAt
  rw [texts.fromHex_ethAddressString hlength]
  refine depositedAccount_returns laws ?_ hcoins (fun d => ?_) err _
  · rw [schedules_targetAccount]
    exact hstate.sound
  · have hall := hstate.schedules_lt d
    rw [schedules_targetAccount, amountOf_cons, amountOf_nil, add_zero]
    split_ifs
    · exact hall
    · have hamount := Int.natCast_nonneg amount
      linarith

end Sums

/-! ## Every deposit is minted once -/

section Minted

variable {s : State W} {info : SupplyDeltaInfo} {denom : GoString} (hlaw : app.sdk.Lawful)
  (texts : DepositLaws app.sdk) (laws : CoinLaws app.sdk) (bank : BankLaws app.modules)
  (accounts : AccountLaws app)

include texts laws accounts

/-- The target of a deposit is found without moving tokens, whichever way it takes. -/
theorem depositTarget_returns (hdepositor : depositor.length = 20) (hrecipient : recipient.length = 20)
    (hstate : DepositState app s depositor amount info) (hdenom : isValidDenom denom) (vesting : Duration) :
    ∃ target w', (depositTarget app (depositMsg app depositor recipient amount lockup) vesting
        [⟨denom, amount⟩]).run s = .ok target { s with world := w' } ∧
      moneyOf app.modules w' = moneyOf app.modules s.world ∧
      ∀ address, target = .ok address → address = depositor ∨ address = recipient := by
  have hhex : isHexAddress (depositMsg app depositor recipient amount lockup).depositor :=
    isHexAddress_depositor texts hdepositor
  cases hblocked : isAddressBlocked app s (depositMsg app depositor recipient amount lockup).depositor with
  | error err => exact ⟨_, s.world, run_depositTarget_of_error hhex hblocked, rfl, fun _ h => by cases h⟩
  | ok blocked =>
    cases blocked with
    | true => exact ⟨_, s.world, run_depositTarget_of_blocked hhex hblocked, rfl, fun _ h => by cases h⟩
    | false =>
      by_cases howned : RecipientOwned app (depositMsg app depositor recipient amount lockup)
      · cases hd : depositedAt app s (app.sdk.ethAddressString depositor) vesting [⟨denom, amount⟩] with
        | error f =>
          cases f with
          | panic err => exact absurd hd (depositedAt_returns texts laws hdepositor hstate hdenom)
          | err err => exact ⟨_, s.world, run_depositTarget_of_err hhex hblocked howned hd, rfl, fun _ h => by cases h⟩
        | ok acc =>
          obtain ⟨w', hrun, hmoney, -⟩ := run_depositTarget_of_ok hhex hblocked accounts laws hstate.stored howned hd
          rw [fromHex_depositor texts hdepositor] at hrun
          exact ⟨_, w', hrun, hmoney, fun _ h => .inl (Except.ok.inj h).symm⟩
      · refine ⟨_, s.world, run_depositTarget_of_recipient hhex hblocked howned
          (texts.isHexAddress_ethAddressString hrecipient), rfl, fun _ h => .inr ?_⟩
        rw [← Except.ok.inj h]
        exact texts.fromHex_ethAddressString hrecipient

include hlaw bank

omit laws accounts in
/-- Once the target of a deposit is found without moving tokens, the rest of it ends normally. -/
theorem run_of_target (hamount : 0 < amount) (hamount_lt : amount < 2 ^ maxBitLen) (hlockup : lockup < 2 ^ 63)
    (hstate : DepositState app s depositor amount info) (hdenom : isValidDenom s.bridge.params.bridgeDenom)
    {target : Except GoString Bytes} {w' : W}
    (htarget : (depositTarget app (depositMsg app depositor recipient amount lockup) (vestingOf lockup)
      [⟨s.bridge.params.bridgeDenom, amount⟩]).run s = .ok target { s with world := w' })
    (hmoney : moneyOf app.modules w' = moneyOf app.modules s.world) :
    ∃ t account, (depositFromEthereum app (depositMsg app depositor recipient amount lockup)).run s = .ok () t ∧
      Settled app s.bridge.params.bridgeDenom amount info account s t ∧
      Reaches app (moneyOf app.modules s.world) s.bridge.params.bridgeDenom amount account target ∧
      schedulesAt app.modules t.world = schedulesAt app.modules w' := by
  have hpos : (0 : ℤ) < amount := Int.natCast_pos.mpr hamount
  have hlockup_lt : lockup < 2 ^ maxBitLen := hlockup.trans (by decide)
  have hbounds : (-2 ^ 63 : ℤ) ≤ lockup ∧ (lockup : ℤ) < 2 ^ 63 := ⟨by omega, by exact_mod_cast hlockup⟩
  obtain ⟨t, hsettle⟩ : ∃ t, (settleDeposit app (depositMsg app depositor recipient amount lockup) info
      s.bridge.params.bridgeDenom amount (vestingOf lockup) target).run { s with world := w' } = .ok () t :=
    settleDeposit_ok hlaw bank hdenom hpos (sumsFit_of_money hstate.sums hmoney) target
  obtain ⟨hschedules, account, hsettled, hreaches⟩ := settled_settleDeposit hlaw bank hdenom hpos hsettle
  refine ⟨t, account, ?_, Settled.of_money hsettled hmoney, hmoney ▸ hreaches, hschedules⟩
  exact (run_depositFromEthereum_eq_ok (texts.newIntFromString_decimal hamount_lt) hpos
    (texts.newIntFromString_decimal hlockup_lt)).mpr ⟨info, hstate.info_eq, hdenom, hbounds, target, _, htarget, hsettle⟩

/-- A deposit log leads to exactly one mint, to the account mapped from one of its addresses or to
governance, exactly if the lockup is an `int64` and the bridge denomination is valid. -/
theorem deposit_minted_iff (hsdk : client.sdk = app.sdk)
    (hlog : DepositLog client log depositor recipient amount lockup)
    (hextract : client.extractLogDataToEvent log = .ok (some e))
    (hmsg : e.messages app.sdk app.keeper.authority = .ok [msg.toAny])
    (hstate : DepositState app s depositor amount info) :
    (∃ t account, (depositFromEthereum app msg).run s = .ok () t ∧
      account ∈ [depositor, recipient, app.modules.moduleAddress govModuleName] ∧
      Settled app s.bridge.params.bridgeDenom amount info account s t) ↔
    lockup < 2 ^ 63 ∧ isValidDenom s.bridge.params.bridgeDenom := by
  obtain rfl := message_of_log hlaw texts hsdk hlog hextract hmsg
  have hamount := texts.newIntFromString_decimal hlog.amount_lt
  have hlockup := texts.newIntFromString_decimal hlog.lockup_lt
  have hpos : (0 : ℤ) < amount := Int.natCast_pos.mpr hlog.amount_pos
  constructor
  · rintro ⟨t, account, hrun, -, -⟩
    obtain ⟨_, -, hdenom, ⟨-, hlt⟩, -⟩ := (run_depositFromEthereum_eq_ok hamount hpos hlockup).mp hrun
    exact ⟨by exact_mod_cast hlt, hdenom⟩
  · rintro ⟨hlt, hdenom⟩
    obtain ⟨target, w', htarget, hmoney, haddress⟩ := depositTarget_returns texts laws accounts
      hlog.length_depositor hlog.length_recipient hstate hdenom (vestingOf lockup)
    obtain ⟨t, account, hrun, hsettled, hreaches, -⟩ := run_of_target hlaw texts bank hlog.amount_pos hlog.amount_lt
      hlt hstate hdenom htarget hmoney
    refine ⟨t, account, hrun, ?_, hsettled⟩
    cases target with
    | error err => exact List.mem_cons_of_mem _ (List.mem_cons_of_mem _ (List.mem_singleton.mpr hreaches))
    | ok address =>
      rcases hreaches with rfl | ⟨rfl, -⟩
      · rcases haddress _ rfl with rfl | rfl <;> simp
      · simp

end Minted

/-! ## The way of a deposit -/

/-- The coins of a deposit lock on the depositor's schedules until the lockup has passed. -/
def LockupApplied (app : App W) (s t : State W) (depositor : Bytes) (amount lockup : ℕ) : Prop :=
  scheduleMap (schedulesAt app.modules t.world depositor) =
    if lockup = 0 then scheduleMap (schedulesAt app.modules s.world depositor)
    else (scheduleMap (schedulesAt app.modules s.world depositor)).insert
      (unixSeconds s.bridge.params.vestingStartTime) (unixSeconds s.bridge.params.vestingStartTime + lockup)
      (amountOf [⟨s.bridge.params.bridgeDenom, amount⟩])

/-- Who gets the tokens, by the bytes of the log. -/
structure Routed (app : App W) (depositor recipient : Bytes) (amount lockup : ℕ) (info : SupplyDeltaInfo)
    (blocked : Bool) (s t : State W) : Prop where
  blocked_depositor : blocked = true →
    Settled app s.bridge.params.bridgeDenom amount info (app.modules.moduleAddress govModuleName) s t
  own_account : blocked = false → recipient = List.replicate 20 0 ∨ recipient = depositor →
    Settled app s.bridge.params.bridgeDenom amount info depositor s t ∧ LockupApplied app s t depositor amount lockup
  other_account : blocked = false → ¬ (recipient = List.replicate 20 0 ∨ recipient = depositor) →
    (Settled app s.bridge.params.bridgeDenom amount info recipient s t ∨
      (Refuses app.modules (moneyOf app.modules s.world) s.bridge.params.bridgeDenom amount recipient ∧
        Settled app s.bridge.params.bridgeDenom amount info (app.modules.moduleAddress govModuleName) s t)) ∧
    schedulesAt app.modules t.world = schedulesAt app.modules s.world

/-- The bank refuses only addresses that the bridge blocks. -/
def RefusesBlockedOnly (app : App W) (s : State W) (amount : ℤ) : Prop :=
  ∀ address, Refuses app.modules (moneyOf app.modules s.world) s.bridge.params.bridgeDenom amount address →
    ∀ blocked, getAllBlockedBech32Addresses app s = .ok blocked → app.sdk.accAddressString address ∈ blocked

section Routing

variable {s t : State W} {info : SupplyDeltaInfo} {denom : GoString}

theorem vestingTimes_of_pos {params : Params} {duration : Duration} (hpos : 0 < duration) :
    params.vestingTimesFromVestingDuration duration =
      .ok (params.vestingStartTime, params.vestingStartTime + duration) := by
  rw [Params.vestingTimesFromVestingDuration, failIf_of_not (not_le.mpr hpos), vestingStartTimeDelay, add_zero,
    ite_self]
  rfl

/-- The account of a depositor takes the coins of every lockup that does not wrap. -/
theorem depositedAt_ok (texts : DepositLaws app.sdk) (laws : CoinLaws app.sdk) (hlength : depositor.length = 20)
    (hstate : DepositState app s depositor amount info) (hdenom : isValidDenom denom) (hamount : 0 < amount)
    (hepoch : 0 ≤ unixSeconds s.bridge.params.vestingStartTime)
    (haccepts : AcceptsVesting app.sdk (targetAccount app.sdk (app.modules.getAccount s.world depositor) depositor
      (app.sdk.ethAddressString depositor)).baseAccount)
    (hlt : (lockup : ℤ) * 10 ^ 9 < 2 ^ 63) :
    ∃ acc, depositedAt app s (app.sdk.ethAddressString depositor) (vestingOf lockup) [⟨denom, amount⟩] = .ok acc := by
  have hvesting : vestingOf lockup = (lockup : ℤ) * 10 ^ 9 := vestingOf_of_lt (Int.natCast_nonneg _) hlt
  unfold depositedAt depositedAccount
  rw [texts.fromHex_ethAddressString hlength]
  split
  next hpos =>
    have hseconds : (0 : ℤ) < lockup := by
      have hproduct : (0 : ℤ) < (lockup : ℤ) * 10 ^ 9 := hvesting ▸ hpos
      omega
    have hend : unixSeconds (s.bridge.params.vestingStartTime + vestingOf lockup) =
        unixSeconds s.bridge.params.vestingStartTime + lockup := by
      rw [hvesting, unixSeconds_add_seconds]
    have hproper : Addition.Proper ⟨[⟨denom, (amount : ℤ)⟩], s.bridge.params.vestingStartTime,
        s.bridge.params.vestingStartTime + vestingOf lockup⟩ := by
      refine ⟨List.cons_ne_nil _ _, ?_, ?_, ?_⟩
      · simp [coinsIsValid, hdenom, hamount]
      · change unixSeconds s.bridge.params.vestingStartTime <
          unixSeconds (s.bridge.params.vestingStartTime + vestingOf lockup)
        rw [hend]
        omega
      · change 0 ≤ unixSeconds _
        rw [hend]
        omega
    rw [vestingTimes_of_pos hpos]
    refine addVestingCoins_ok laws ?_ haccepts hproper fun d => ?_
    · rw [schedules_targetAccount]
      exact hstate.sound
    · have hall := hstate.schedules_lt d
      rw [schedules_targetAccount]
      change _ + amountOf [⟨denom, (amount : ℤ)⟩] d < _
      rw [amountOf_cons, amountOf_nil, add_zero]
      split_ifs
      · exact hall
      · have hnonneg := Int.natCast_nonneg amount
        linarith
  next => exact ⟨_, rfl⟩

/-- The schedules of a deposited account are those asked for. -/
theorem lockupApplied_of_schedules (texts : DepositLaws app.sdk) (laws : CoinLaws app.sdk)
    (hlength : depositor.length = 20) (hstate : DepositState app s depositor amount info)
    (hdenom : isValidDenom s.bridge.params.bridgeDenom) (hlt : (lockup : ℤ) * 10 ^ 9 < 2 ^ 63) {acc : EthOwnedAccount}
    (hd : depositedAt app s (app.sdk.ethAddressString depositor) (vestingOf lockup)
      [⟨s.bridge.params.bridgeDenom, amount⟩] = .ok acc)
    (hacc : schedulesAt app.modules t.world depositor = acc.schedules) :
    LockupApplied app s t depositor amount lockup := by
  have hvesting : vestingOf lockup = (lockup : ℤ) * 10 ^ 9 := vestingOf_of_lt (Int.natCast_nonneg _) hlt
  have hcoins : WellFormed [⟨s.bridge.params.bridgeDenom, (amount : ℤ)⟩] := .single hdenom (Int.natCast_nonneg amount)
  unfold depositedAt at hd
  rw [texts.fromHex_ethAddressString hlength] at hd
  unfold LockupApplied
  rw [hacc]
  rcases depositedAccount_cases laws hd with ⟨hle, rfl⟩ | ⟨hpos, hinfos⟩
  · have hzero : lockup = 0 := by
      have hproduct : (lockup : ℤ) * 10 ^ 9 ≤ 0 := hvesting ▸ hle
      omega
    rw [if_pos hzero, schedules_targetAccount]
  · have hne : lockup ≠ 0 := by
      rintro rfl
      exact absurd hpos (by decide)
    rw [schedules_targetAccount, hvesting, unixSeconds_add_seconds] at hinfos
    rw [if_neg hne, scheduleMap_addToInfos laws hstate.sound hcoins hinfos]

theorem not_refused_of_not_blocked (texts : DepositLaws app.sdk) (hlength : depositor.length = 20)
    (hrefuses : RefusesBlockedOnly app s amount)
    (hblocked : isAddressBlocked app s (app.sdk.ethAddressString depositor) = .ok false) :
    ¬ Refuses app.modules (moneyOf app.modules s.world) s.bridge.params.bridgeDenom amount depositor := by
  intro hrefused
  obtain ⟨blocked, hall, h⟩ := except_bind_eq_ok.mp hblocked
  obtain ⟨bz, hbz, h⟩ := except_bind_eq_ok.mp h
  rw [stringToBytes_of_isHexAddress _ (texts.isHexAddress_ethAddressString hlength),
    texts.fromHex_ethAddressString hlength] at hbz
  obtain rfl := Except.ok.inj hbz
  have hfree : app.sdk.accAddressString depositor ∉ blocked := by simpa using Except.ok.inj h
  exact hfree (hrefuses depositor hrefused blocked hall)

variable {blocked : Bool}

/-- A deposit log whose lockup does not wrap takes the way that the bytes of its addresses say,
exactly if the bridge denomination is valid. -/
theorem deposit_routed_iff (hlaw : app.sdk.Lawful) (texts : DepositLaws app.sdk) (laws : CoinLaws app.sdk)
    (bank : BankLaws app.modules) (accounts : AccountLaws app) (hsdk : client.sdk = app.sdk)
    (hlog : DepositLog client log depositor recipient amount lockup)
    (hextract : client.extractLogDataToEvent log = .ok (some e))
    (hmsg : e.messages app.sdk app.keeper.authority = .ok [msg.toAny])
    (hlt : (lockup : ℤ) * 10 ^ 9 < 2 ^ 63) (hstate : DepositState app s depositor amount info)
    (hblocked : isAddressBlocked app s (app.sdk.ethAddressString depositor) = .ok blocked)
    (hrefuses : RefusesBlockedOnly app s amount) (hepoch : 0 ≤ unixSeconds s.bridge.params.vestingStartTime)
    (haccepts : AcceptsVesting app.sdk (targetAccount app.sdk (app.modules.getAccount s.world depositor) depositor
      (app.sdk.ethAddressString depositor)).baseAccount) :
    (∃ t, (depositFromEthereum app msg).run s = .ok () t ∧
      Routed app depositor recipient amount lockup info blocked s t) ↔
    isValidDenom s.bridge.params.bridgeDenom := by
  obtain rfl := message_of_log hlaw texts hsdk hlog hextract hmsg
  have hamount := texts.newIntFromString_decimal hlog.amount_lt
  have hlockup := texts.newIntFromString_decimal hlog.lockup_lt
  have hpos : (0 : ℤ) < amount := Int.natCast_pos.mpr hlog.amount_pos
  have hdepositor := hlog.length_depositor
  have hrecipient := hlog.length_recipient
  constructor
  · rintro ⟨t, hrun, -⟩
    obtain ⟨_, -, hdenom, -⟩ := (run_depositFromEthereum_eq_ok hamount hpos hlockup).mp hrun
    exact hdenom
  intro hdenom
  have hhex : isHexAddress (depositMsg app depositor recipient amount lockup).depositor :=
    isHexAddress_depositor texts hdepositor
  have hlockup_lt : lockup < 2 ^ 63 := by omega
  cases blocked with
  | true =>
    obtain ⟨t, account, hrun, hsettled, rfl, -⟩ := run_of_target hlaw texts bank hlog.amount_pos hlog.amount_lt
      hlockup_lt hstate hdenom (run_depositTarget_of_blocked hhex hblocked) rfl
    exact ⟨t, hrun, fun _ => hsettled, fun h => (by cases h), fun h => (by cases h)⟩
  | false =>
    have howned : RecipientOwned app (depositMsg app depositor recipient amount lockup) ↔ _ :=
      recipientOwned_iff texts hdepositor hrecipient
    by_cases hown : recipient = List.replicate 20 0 ∨ recipient = depositor
    · obtain ⟨acc, hd⟩ := depositedAt_ok texts laws hdepositor hstate hdenom hlog.amount_pos hepoch haccepts hlt
      obtain ⟨w', htarget, hmoney, hacc⟩ :=
        run_depositTarget_of_ok hhex hblocked accounts laws hstate.stored (howned.mpr hown) hd
      rw [fromHex_depositor texts hdepositor] at htarget hacc
      obtain ⟨t, account, hrun, hsettled, hreaches, hschedules⟩ := run_of_target hlaw texts bank hlog.amount_pos
        hlog.amount_lt hlockup_lt hstate hdenom htarget hmoney
      -- The bank does not refuse an account that the bridge does not block.
      obtain rfl : account = depositor := hreaches.resolve_right fun h =>
        not_refused_of_not_blocked texts hdepositor hrefuses hblocked h.2
      have happlied := lockupApplied_of_schedules (t := t) texts laws hdepositor hstate hdenom hlt hd
        (by rw [hschedules, hacc])
      exact ⟨t, hrun, fun h => (by cases h), fun _ _ => ⟨hsettled, happlied⟩, fun _ h => absurd hown h⟩
    · obtain ⟨t, account, hrun, hsettled, hreaches, hschedules⟩ := run_of_target hlaw texts bank hlog.amount_pos
        hlog.amount_lt hlockup_lt hstate hdenom
        (run_depositTarget_of_recipient hhex hblocked (fun h => hown (howned.mp h))
          (texts.isHexAddress_ethAddressString hrecipient)) rfl
      refine ⟨t, hrun, fun h => (by cases h), fun _ h => absurd h hown, fun _ _ => ⟨?_, hschedules⟩⟩
      have haddress : fromHex (depositMsg app depositor recipient amount lockup).recipient = recipient :=
        texts.fromHex_ethAddressString hrecipient
      rw [haddress] at hreaches
      rcases hreaches with rfl | ⟨rfl, hrefused⟩
      · exact .inl hsettled
      · exact .inr ⟨hrefused, hsettled⟩

end Routing

end Logs

/-! ## The reference environment -/

section Reference

open Reference

theorem newIntFromString_decimal {n : ℕ} (h : n < 2 ^ maxBitLen) : newIntFromString (decimal n) = some (n : ℤ) := by
  have hdigit : ∀ c ∈ Nat.toDigits 10 n, Char.ofNat (UInt8.ofNat c.toNat).toNat = c ∧ isDigit (UInt8.ofNat c.toNat) := by
    have hall : ∀ m ≤ 57, 48 ≤ m → (UInt8.ofNat m).toNat = m ∧ isDigit (UInt8.ofNat m) := by decide
    intro c hc
    obtain ⟨hlow, hhigh⟩ := Char.isDigit_iff_toNat.mp (Nat.isDigit_of_mem_toDigits (by norm_num) (by norm_num) hc)
    obtain ⟨htoNat, hisDigit⟩ := hall c.toNat hhigh hlow
    exact ⟨by rw [htoNat, Char.ofNat_toNat], hisDigit⟩
  have hchars : (decimal n).map (fun b => Char.ofNat b.toNat) = Nat.toDigits 10 n := by
    rw [decimal, List.map_map]
    exact (List.map_congr_left fun c hc => (hdigit c hc).1).trans (List.map_id _)
  have hne : decimal n ≠ [] := fun hnil => Nat.toDigits_ne_nil (List.map_eq_nil_iff.mp hnil)
  have hall : (decimal n).all isDigit := by
    refine List.all_eq_true.mpr fun b hb => ?_
    obtain ⟨c, hc, rfl⟩ := List.mem_map.mp hb
    exact (hdigit c hc).2
  rw [newIntFromString, if_pos ⟨hne, hall⟩, hchars, Nat.ofDigitChars_ten_toDigits]
  exact if_pos h

/-- No text of an account starts like a hexadecimal address. -/
theorem bech32String_ne (a b : Bytes) : str "0x" ++ hexUpper a ≠ bech32String b := by
  obtain ⟨rest, hrest⟩ := bech32String_eq_cons b
  rw [hrest]
  intro h
  cases (List.cons.inj h).1

theorem depositLaws : DepositLaws sdk where
  isHexAddress_ethAddressString h := isHexAddress_hexUpper h
  fromHex_ethAddressString {bz} _ := fromHex_hexUpper bz
  ethAddressString_zero := by decide
  ethAddressString_ne := bech32String_ne
  newIntFromString_decimal := newIntFromString_decimal
  unmarshalDepositEvent_encode m := congrArg orEof (readDepositEvent_encode m)

/-- A deposit of a hundred tokens by the reference depositor. -/
def logTo (address : Bytes) (lockup : ℕ) (h : address.length = 20) : Log :=
  { depositLog 1 100 lockup with
    topics := [signatureHash .deposit, addressTopic depositor, addressTopic address]
    topics_length := by simp [signatureHash, addressTopic, Reference.depositor, h] }

def eventTo (address : Bytes) (lockup : ℕ) (h : address.length = 20) : Event :=
  client.populateEvent (logTo address lockup h) .deposit (encodeFields (DepositEvent.fields
    ⟨ethText depositor, ethText address, decimal 100, decimal lockup⟩))

theorem hundred_lt : (0 : ℤ) + (100 : ℕ) < 2 ^ maxBitLen := by decide

/-- The params do not matter for the sums of a deposit. -/
theorem depositState_of_params (p : Params) :
    DepositState Reference.app { state with bridge := { store with params := p } } depositor 100 ⟨0, 0, 0⟩ where
  info_eq := rfl
  -- no denomination has a supply or a balance yet
  sums := ⟨le_refl (0 : ℤ), hundred_lt, by decide, le_refl (0 : ℤ)⟩
  stored := rfl
  sound := fun _ hinfo => absurd hinfo List.not_mem_nil
  schedules_lt := fun _ => hundred_lt

theorem depositState_reference : DepositState Reference.app state depositor 100 ⟨0, 0, 0⟩ := depositState_of_params params

theorem depositLog_reference {lockup : ℕ} {address : Bytes} (h : address.length = 20) (hlt : lockup < 2 ^ maxBitLen)
    (hdata : contractAbi.deposit (wordOf 100 ++ wordOf lockup) = .ok (100, lockup)) :
    DepositLog client (logTo address lockup h) depositor address 100 lockup where
  kind := ⟨_, rfl, by decide⟩
  depositor_eq := ⟨_, rfl, by decide⟩
  recipient_eq := ⟨_, rfl, by simp [addressTopic]⟩
  data := hdata
  amount_pos := by decide
  amount_lt := by decide
  lockup_lt := hlt

theorem deposit_minted_iff_hundred : ∃ t account,
    (depositFromEthereum Reference.app (depositMsg Reference.app depositor recipient 100 50)).run state = .ok () t ∧
      account ∈ [depositor, recipient, govAddress] ∧ Settled Reference.app ufuel 100 ⟨0, 0, 0⟩ account state t := by
  have hextract : client.extractLogDataToEvent (logTo recipient 50 rfl) = .ok (some (eventTo recipient 50 rfl)) := by
    decide +kernel
  have hmsg : (eventTo recipient 50 rfl).messages Reference.app.sdk Reference.app.keeper.authority =
      .ok [(depositMsg Reference.app depositor recipient 100 50).toAny] := by decide +kernel
  exact (deposit_minted_iff sdk_lawful depositLaws sdk_coinLaws bankLaws accountLaws rfl
    (depositLog_reference rfl (by decide) (by decide +kernel)) hextract hmsg depositState_reference).mpr
      ⟨by decide, by decide +kernel⟩

/-- The handler panics on a lockup that is no `int64`. -/
theorem deposit_panics_on_long_lockup :
    DepositLog client (logTo recipient (2 ^ 63) rfl) depositor recipient 100 (2 ^ 63) ∧
      client.extractLogDataToEvent (logTo recipient (2 ^ 63) rfl) = .ok (some (eventTo recipient (2 ^ 63) rfl)) ∧
      (eventTo recipient (2 ^ 63) rfl).messages Reference.sdk Reference.authority =
        .ok [(depositMsg Reference.app depositor recipient 100 (2 ^ 63)).toAny] ∧
      DepositState Reference.app state depositor 100 ⟨0, 0, 0⟩ ∧
      panicked ((depositFromEthereum Reference.app (depositMsg Reference.app depositor recipient 100 (2 ^ 63))).run
        state) :=
  ⟨depositLog_reference rfl (by decide) (by decide +kernel), by decide +kernel, by decide +kernel,
    depositState_reference, by decide +kernel⟩

/-- The reference bank refuses nobody the tokens it has minted. -/
theorem refusesBlockedOnly_reference : RefusesBlockedOnly Reference.app state 100 := by
  rintro address ⟨w, w₁, err, w₂, hmoney, hmint, hsend⟩
  exfalso
  have hminted : w₁.balance bridgeAddress ufuel = w.balance bridgeAddress ufuel + 100 :=
    congrArg (fun m => m.balance bridgeAddress ufuel) (bankLaws.mint hmint).1
  have hzero : w.balance bridgeAddress ufuel = 0 := congrArg (fun m => m.balance bridgeAddress ufuel) hmoney
  have hrefused := (run_forCoins_single_error.mp hsend).1
  unfold Ledger.transfer at hrefused
  split at hrefused
  · cases hrefused
  next hlt =>
    exact hlt (show (100 : ℤ) ≤ w₁.balance bridgeAddress ufuel by omega)

theorem deposit_routed_iff_own_account : ∃ t,
    (depositFromEthereum Reference.app (depositMsg Reference.app depositor depositor 100 50)).run state = .ok () t ∧
      Routed Reference.app depositor depositor 100 50 ⟨0, 0, 0⟩ false state t := by
  have hextract : client.extractLogDataToEvent (logTo depositor 50 rfl) = .ok (some (eventTo depositor 50 rfl)) := by
    decide +kernel
  have hmsg : (eventTo depositor 50 rfl).messages Reference.app.sdk Reference.app.keeper.authority =
      .ok [(depositMsg Reference.app depositor depositor 100 50).toAny] := by decide +kernel
  have hblocked : isAddressBlocked Reference.app state (Reference.app.sdk.ethAddressString depositor) = .ok false := by
    decide +kernel
  exact (deposit_routed_iff sdk_lawful depositLaws sdk_coinLaws bankLaws accountLaws rfl
    (depositLog_reference rfl (by decide) (by decide +kernel)) hextract hmsg (by decide) depositState_reference hblocked
    refusesBlockedOnly_reference (by decide) (sdk_coinLaws.newContinuousVestingAccount_ok rfl)).mpr (by decide +kernel)

/-- The reference state with a bridge denomination that is too short for one. -/
def shortDenomState : State Ledger :=
  { state with bridge := { store with params := { params with bridgeDenom := str "x" } } }

/-- Params that pass their validation make every deposit panic. -/
theorem deposit_panics_on_short_denom :
    shortDenomState.bridge.params.validate Reference.sdk = .ok () ∧
      DepositLog client (logTo recipient 50 rfl) depositor recipient 100 50 ∧
      client.extractLogDataToEvent (logTo recipient 50 rfl) = .ok (some (eventTo recipient 50 rfl)) ∧
      (eventTo recipient 50 rfl).messages Reference.sdk Reference.authority =
        .ok [(depositMsg Reference.app depositor recipient 100 50).toAny] ∧
      DepositState Reference.app shortDenomState depositor 100 ⟨0, 0, 0⟩ ∧
      panicked ((depositFromEthereum Reference.app (depositMsg Reference.app depositor recipient 100 50)).run
        shortDenomState) :=
  ⟨by decide +kernel, depositLog_reference rfl (by decide) (by decide +kernel), by decide +kernel, by decide +kernel,
    depositState_of_params _, by decide +kernel⟩

end Reference

end FuelSequencer.Sidecar
