import FuelSequencer.Bridge.Spending
import FuelSequencer.Bridge.Transfers

/-! # Where the tokens of a deposit go

The bank and the accounts are known by what a call does to supplies, balances and vesting
schedules. A deposit that ends normally has minted its amount to one account, the one it
was meant for or governance.
-/
namespace FuelSequencer.Bridge
open Go Wire Exec Lib Wiring

variable {W : Type}

/-! ## Supplies, balances and schedules -/

/-- What the bank holds. -/
structure Money where
  supply : GoString → ℤ
  balance : Bytes → GoString → ℤ

namespace Money

def credit (m : Money) (address : Bytes) (denom : GoString) (amount : ℤ) : Money :=
  { m with balance := fun a d => m.balance a d + if a = address ∧ d = denom then amount else 0 }

def mint (m : Money) (address : Bytes) (denom : GoString) (amount : ℤ) : Money :=
  { m.credit address denom amount with
    supply := fun d => m.supply d + if d = denom then amount else 0 }

def move (m : Money) (sender receiver : Bytes) (denom : GoString) (amount : ℤ) : Money :=
  (m.credit sender denom (-amount)).credit receiver denom amount

/-- Minting to one account and passing on is minting to the other. -/
theorem move_mint (m : Money) (sender receiver : Bytes) (denom : GoString) (amount : ℤ) :
    (m.mint sender denom amount).move sender receiver denom amount = m.mint receiver denom amount := by
  unfold mint move credit
  congr 1
  funext a d
  dsimp only
  split_ifs <;> omega

end Money

def moneyOf (modules : Modules W) (w : W) : Money := ⟨modules.getSupply w, modules.getBalance w⟩

/-- The schedules of the account at an address. -/
def schedulesAt (modules : Modules W) (w : W) (address : Bytes) : List VestingInfo :=
  match modules.getAccount w address with
  | some (.ethOwned a) => a.schedules
  | _ => []

/-- What the bank does with one coin. -/
structure BankLaws (modules : Modules W) : Prop where
  mint : ∀ {name denom : GoString} {amount : ℤ} {w w' : W},
    (modules.mintCoins name [⟨denom, amount⟩]).run w = .ok () w' →
      moneyOf modules w' = (moneyOf modules w).mint (modules.moduleAddress name) denom amount ∧
        schedulesAt modules w' = schedulesAt modules w
  /-- The modules of the bridge and of governance may mint. -/
  mint_ok : ∀ {name denom : GoString} {amount : ℤ} {w : W}, name = moduleName ∨ name = govModuleName →
    isValidDenom denom → 0 < amount → 0 ≤ modules.getSupply w denom →
    modules.getSupply w denom + amount < 2 ^ maxBitLen →
      ∃ w', (modules.mintCoins name [⟨denom, amount⟩]).run w = .ok () w'
  send : ∀ {address : Bytes} {denom : GoString} {amount : ℤ} {w w' : W},
    (modules.sendCoinsFromModuleToAccount moduleName address [⟨denom, amount⟩]).run w = .ok () w' →
      moneyOf modules w' =
        (moneyOf modules w).move (modules.moduleAddress moduleName) address denom amount ∧
        schedulesAt modules w' = schedulesAt modules w
  /-- An account the bank refuses is refused before anything is moved. -/
  send_refused : ∀ {address : Bytes} {denom e : GoString} {amount : ℤ} {w w' : W},
    (modules.sendCoinsFromModuleToAccount moduleName address [⟨denom, amount⟩]).run w = .error (.err e) w' →
      moneyOf modules w' = moneyOf modules w ∧ schedulesAt modules w' = schedulesAt modules w
  send_returns : ∀ {address : Bytes} {denom e : GoString} {amount : ℤ} {w w' : W},
    modules.getSupply w denom < 2 ^ maxBitLen →
      (modules.sendCoinsFromModuleToAccount moduleName address [⟨denom, amount⟩]).run w ≠ .error (.panic e) w'
  sendToGov : ∀ {denom : GoString} {amount : ℤ} {w w' : W},
    (modules.sendCoinsFromModuleToModule moduleName govModuleName [⟨denom, amount⟩]).run w = .ok () w' →
      moneyOf modules w' = (moneyOf modules w).move (modules.moduleAddress moduleName)
        (modules.moduleAddress govModuleName) denom amount ∧
        schedulesAt modules w' = schedulesAt modules w
  sendToGov_ok : ∀ {denom : GoString} {amount : ℤ} {w : W}, 0 < amount →
    amount ≤ modules.getBalance w (modules.moduleAddress moduleName) denom →
      ∃ w', (modules.sendCoinsFromModuleToModule moduleName govModuleName [⟨denom, amount⟩]).run w = .ok () w'

/-- What the account keeper does with an owned account. -/
structure AccountLaws (app : App W) : Prop where
  newAccount : ∀ (a : EthOwnedAccount) (w : W), ∃ a' w',
    (app.modules.newAccount (.ethOwned a)).run w = .ok (.ethOwned a') w' ∧ a'.schedules = a.schedules ∧
      a'.baseAccount.address = a.baseAccount.address ∧ moneyOf app.modules w' = moneyOf app.modules w ∧
      app.modules.getAccount w' = app.modules.getAccount w
  setAccount : ∀ (a : EthOwnedAccount) (w : W), ∃ w',
    (app.modules.setAccount (.ethOwned a)).run w = .ok () w' ∧ moneyOf app.modules w' = moneyOf app.modules w ∧
      ∀ address, app.modules.getAccount w' address =
        if app.sdk.accAddressString address = a.baseAccount.address then some (.ethOwned a)
        else app.modules.getAccount w address

/-! ## Minting and sending -/

variable {app : App W} {s t : State W} {denom : GoString} {amount : ℤ} {info : SupplyDeltaInfo}
  {msg : MsgDepositFromEthereum}

theorem run_orPanic_eq_ok {text : String} {x : Prog GoString W Unit} {u : Unit} :
    (orPanic text x).run s = .ok u t ↔ ∃ w', x.run s.world = .ok () w' ∧ t = { s with world := w' } := by
  cases h : x.run s.world with
  | ok _ w =>
    rw [orPanic, run_bind_of_ok (run_attempt_of_ok (run_inWorld_of_ok h))]
    simp [eq_comm]
  | error e w =>
    cases e with
    | err e =>
      rw [orPanic, run_bind_of_ok (run_attempt_of_err (run_inWorld_of_error h))]
      simp
    | panic e =>
      rw [orPanic, run_bind_of_error (run_attempt_of_panic (run_inWorld_of_error h))]
      simp

/-- The amount was minted to the account and taken from the offset. -/
structure Settled (app : App W) (denom : GoString) (amount : ℤ) (info : SupplyDeltaInfo) (account : Bytes)
    (s t : State W) : Prop where
  money : moneyOf app.modules t.world = (moneyOf app.modules s.world).mint account denom amount
  bridge : t.bridge = s.bridge.withOffset info (info.offset - amount)

/-- The sums of a deposit stay within 256 bits. -/
structure SumsFit (app : App W) (denom : GoString) (amount : ℤ) (info : SupplyDeltaInfo) (s : State W) :
    Prop where
  supply_nonneg : 0 ≤ app.modules.getSupply s.world denom
  supply_lt : app.modules.getSupply s.world denom + amount < 2 ^ maxBitLen
  offset_lt : (info.offset - amount).natAbs < 2 ^ maxBitLen
  bridge_nonneg : 0 ≤ app.modules.getBalance s.world (app.modules.moduleAddress moduleName) denom

section Governance

variable (hdenom : isValidDenom denom) (hamount : 0 < amount) (hlaw : app.sdk.Lawful)

include hdenom hamount hlaw

theorem mintToGovernanceAddress_eq_ok {u : Unit} :
    (mintToGovernanceAddress app ⟨denom, amount⟩ msg info).run s = .ok u t ↔ ∃ w',
      (app.modules.mintCoins govModuleName [⟨denom, amount⟩]).run s.world = .ok () w' ∧
      (info.offset - amount).natAbs < 2 ^ maxBitLen ∧
      t = ⟨s.bridge.withOffset info (info.offset - amount), s.sequencing, w'⟩ := by
  simp only [mintToGovernanceAddress, newCoins_of_pos hdenom hamount, run_bind_eq_ok, run_ofOutcome_eq_ok,
    run_orPanic_eq_ok, run_subtractOffset_eq_ok, run_attempt_emit hlaw, run_pure_eq_ok, Except.ok.injEq]
  constructor
  · rintro ⟨_, _, ⟨rfl, rfl⟩, _, _, ⟨w', hmint, rfl⟩, _, _, ⟨hoffset, rfl⟩, _, _, hemit, -, rfl⟩
    cases hemit
    exact ⟨w', hmint, hoffset, rfl⟩
  · rintro ⟨w', hmint, hoffset, rfl⟩
    exact ⟨_, _, ⟨rfl, rfl⟩, (), _, ⟨w', hmint, rfl⟩, (), _, ⟨hoffset, rfl⟩, _, _, rfl, trivial, rfl⟩

theorem settled_mintToGovernanceAddress (bank : BankLaws app.modules) {u : Unit}
    (h : (mintToGovernanceAddress app ⟨denom, amount⟩ msg info).run s = .ok u t) :
    Settled app denom amount info (app.modules.moduleAddress govModuleName) s t ∧
      schedulesAt app.modules t.world = schedulesAt app.modules s.world := by
  obtain ⟨w', hmint, -, rfl⟩ := (mintToGovernanceAddress_eq_ok hdenom hamount hlaw).mp h
  obtain ⟨hmoney, hschedules⟩ := bank.mint hmint
  exact ⟨⟨hmoney, rfl⟩, hschedules⟩

theorem mintToGovernanceAddress_ok (bank : BankLaws app.modules) (hfit : SumsFit app denom amount info s) :
    ∃ t, (mintToGovernanceAddress app ⟨denom, amount⟩ msg info).run s = .ok () t := by
  obtain ⟨w', hmint⟩ := bank.mint_ok (.inr rfl) hdenom hamount hfit.supply_nonneg hfit.supply_lt
  exact ⟨_, (mintToGovernanceAddress_eq_ok hdenom hamount hlaw).mpr ⟨w', hmint, hfit.offset_lt, rfl⟩⟩

end Governance

/-- With this much money, the bank refuses a transfer of minted tokens to the address. -/
def Refuses (modules : Modules W) (m : Money) (denom : GoString) (amount : ℤ) (address : Bytes) : Prop :=
  ∃ w w₁ e w₂, moneyOf modules w = m ∧ (modules.mintCoins moduleName [⟨denom, amount⟩]).run w = .ok () w₁ ∧
    (modules.sendCoinsFromModuleToAccount moduleName address [⟨denom, amount⟩]).run w₁ = .error (.err e) w₂

/-- The tokens reach the account they are sent to or, if the bank refuses it, governance. -/
theorem settled_mintAndSend (bank : BankLaws app.modules) {address : Bytes} {u : Unit}
    (h : (mintAndSend app address [⟨denom, amount⟩]).run s = .ok u t) : t.bridge = s.bridge ∧
      schedulesAt app.modules t.world = schedulesAt app.modules s.world ∧ ∃ account,
      moneyOf app.modules t.world = (moneyOf app.modules s.world).mint account denom amount ∧
      (account = address ∨ (account = app.modules.moduleAddress govModuleName ∧
        Refuses app.modules (moneyOf app.modules s.world) denom amount address)) := by
  obtain ⟨_, s₁, hfirst, h⟩ := run_bind_eq_ok.mp h
  obtain ⟨w₁, hmint, rfl⟩ := run_orPanic_eq_ok.mp hfirst
  obtain ⟨hmoney, hschedules⟩ := bank.mint hmint
  obtain ⟨r, s₂, hsend, h⟩ := run_bind_eq_ok.mp h
  cases hr : (app.modules.sendCoinsFromModuleToAccount moduleName address [⟨denom, amount⟩]).run w₁ with
  | ok _ w₂ =>
    rw [run_attempt_of_ok (run_inWorld_of_ok hr)] at hsend
    cases hsend
    obtain ⟨-, rfl⟩ := run_pure_eq_ok.mp h
    obtain ⟨hmoved, hsame⟩ := bank.send hr
    exact ⟨rfl, hsame.trans hschedules, address, by rw [hmoved, hmoney, Money.move_mint], .inl rfl⟩
  | error e w₂ =>
    cases e with
    | panic e =>
      rw [run_attempt_of_panic (run_inWorld_of_error hr)] at hsend
      cases hsend
    | err e =>
      rw [run_attempt_of_err (run_inWorld_of_error hr)] at hsend
      cases hsend
      obtain ⟨w₃, hgov, rfl⟩ := run_orPanic_eq_ok.mp h
      obtain ⟨hkept, hkept'⟩ := bank.send_refused hr
      obtain ⟨hmoved, hsame⟩ := bank.sendToGov hgov
      refine ⟨rfl, (hsame.trans hkept').trans hschedules, _, ?_, .inr ⟨rfl, _, w₁, e, w₂, rfl, hmint, hr⟩⟩
      dsimp only at hmoved hkept
      rw [hmoved, hkept, hmoney, Money.move_mint]

theorem mintAndSend_ok (bank : BankLaws app.modules) (hdenom : isValidDenom denom) (hamount : 0 < amount)
    (hfit : SumsFit app denom amount info s) (address : Bytes) :
    ∃ t, (mintAndSend app address [⟨denom, amount⟩]).run s = .ok () t := by
  obtain ⟨w₁, hmint⟩ := bank.mint_ok (.inl rfl) hdenom hamount hfit.supply_nonneg hfit.supply_lt
  have hmoney := (bank.mint hmint).1
  have hfirst : (orPanic "failed to mint tokens to module; err: "
      (app.modules.mintCoins moduleName [⟨denom, amount⟩])).run s = .ok () { s with world := w₁ } :=
    run_orPanic_eq_ok.mpr ⟨w₁, hmint, rfl⟩
  rw [mintAndSend, run_bind_of_ok hfirst]
  cases hr : (app.modules.sendCoinsFromModuleToAccount moduleName address [⟨denom, amount⟩]).run w₁ with
  | ok _ w₂ =>
    have hsend := run_attempt_of_ok (run_inWorld_of_ok (s := { s with world := w₁ }) hr)
    exact ⟨_, run_bind_eq_ok.mpr ⟨_, _, hsend, rfl⟩⟩
  | error e w₂ =>
    cases e with
    | panic e =>
      have hsupply := congrArg (fun m => m.supply denom) hmoney
      simp only [moneyOf, Money.mint, if_true] at hsupply
      exact absurd hr (bank.send_returns (hsupply ▸ hfit.supply_lt))
    | err e =>
      have hsend := run_attempt_of_err (run_inWorld_of_error (s := { s with world := w₁ }) hr)
      -- The minted tokens are still with the module, so that it can pass them on.
      have hbalance : amount ≤ app.modules.getBalance w₂ (app.modules.moduleAddress moduleName) denom := by
        have hkept := congrArg (fun m => m.balance (app.modules.moduleAddress moduleName) denom)
          ((bank.send_refused hr).1.trans hmoney)
        simp only [moneyOf, Money.mint, Money.credit, and_self, if_true] at hkept
        rw [hkept]
        linarith [hfit.bridge_nonneg]
      obtain ⟨w₃, hgov⟩ := bank.sendToGov_ok hamount hbalance
      exact ⟨_, run_bind_eq_ok.mpr ⟨_, _, hsend, run_orPanic_eq_ok.mpr ⟨w₃, hgov, rfl⟩⟩⟩

/-! ## The account of the depositor -/

section Account

variable {ethAddress : GoString} {vesting : Duration} {coins : Coins} {acc : EthOwnedAccount}

/-- The account of an Ethereum address with a deposit on it. -/
def depositedAt (app : App W) (s : State W) (ethAddress : GoString) (vesting : Duration) (coins : Coins) :
    Outcome GoString EthOwnedAccount :=
  depositedAccount app.sdk s.bridge.params vesting coins
    (targetAccount app.sdk (app.modules.getAccount s.world (fromHex ethAddress)) (fromHex ethAddress) ethAddress)

/-- A stored account carries the address it is stored under. -/
def StoredUnder (app : App W) (s : State W) (ethAddress : GoString) : Prop :=
  (targetAccount app.sdk (app.modules.getAccount s.world (fromHex ethAddress)) (fromHex ethAddress)
    ethAddress).baseAccount.address = app.sdk.accAddressString (fromHex ethAddress)

theorem schedules_targetAccount (app : App W) (w : W) (address : Bytes) (ethAddress : GoString) :
    (targetAccount app.sdk (app.modules.getAccount w address) address ethAddress).schedules =
      schedulesAt app.modules w address := by
  unfold schedulesAt
  cases app.modules.getAccount w address with
  | none => rfl
  | some existing => cases existing <;> rfl

theorem baseAccount_depositedAccount {sdk : Sdk} (laws : CoinLaws sdk) {params : Params} {a : EthOwnedAccount}
    (hd : depositedAccount sdk params vesting coins a = .ok acc) : acc.baseAccount = a.baseAccount := by
  unfold depositedAccount at hd
  split at hd
  · obtain ⟨times, -, hd⟩ := except_bind_eq_ok.mp hd
    exact (addVestingCoins_eq_ok laws hd).2.2
  · rw [Except.ok.inj hd]

section Returns

variable {sdk : Sdk} {a : EthOwnedAccount} (laws : CoinLaws sdk) (hsound : Sound a.schedules)
  (hcoins : WellFormed coins)
  (hfits : ∀ d, total a.schedules (·.original d) + amountOf coins d < 2 ^ maxBitLen) (e : GoString)

include laws hsound hcoins hfits

theorem addVestingCoins_returns (startTime endTime : Time) :
    a.addVestingCoins sdk coins startTime endTime ≠ .error (.panic e) := by
  cases a with
  | base account owner =>
    rw [EthOwnedAccount.addVestingCoins]
    cases sdk.newContinuousVestingAccount account coins (unixSeconds startTime) (unixSeconds endTime) with
    | error err => exact fun h => by cases h
    | ok vestingAccount => exact fun h => by cases h
  | continuousVesting account owner =>
    unfold EthOwnedAccount.addVestingCoins
    dsimp only
    split
    · obtain ⟨added, hadded⟩ := laws.add_ok (hsound _ List.mem_cons_self) hcoins fun d => by
        have hall := hfits d
        rw [EthOwnedAccount.schedules, total_cons, total_nil, add_zero] at hall
        exact hall
      rw [hadded]
      exact fun h => by cases h
    · obtain ⟨infos, hinfos⟩ := addToInfos_ok laws hsound hcoins hfits
      rw [EthOwnedAccount.schedules] at hinfos
      rw [hinfos]
      exact fun h => by cases h
  | multiContinuousVesting account infos owner =>
    obtain ⟨infos', hinfos'⟩ := addToInfos_ok laws hsound hcoins hfits
    rw [EthOwnedAccount.schedules] at hinfos'
    rw [EthOwnedAccount.addVestingCoins, hinfos']
    exact fun h => by cases h

/-- A deposit panics on no account whose amounts stay within bounds. -/
theorem depositedAccount_returns (params : Params) :
    depositedAccount sdk params vesting coins a ≠ .error (.panic e) := by
  unfold depositedAccount
  split
  next =>
    cases params.vestingTimesFromVestingDuration vesting with
    | error err => exact fun h => by cases h
    | ok times => exact addVestingCoins_returns laws hsound hcoins hfits e times.1 times.2
  next => exact fun h => by cases h

end Returns

theorem run_generate (hhex : isHexAddress ethAddress) :
    (generateSequencerAccountFromEthereumDeposit app ethAddress vesting coins).run s = ((do
      let acc ← ofOutcome (depositedAt app s ethAddress vesting coins)
      let accI ← numberedAccount app (app.modules.getAccount s.world (fromHex ethAddress)) acc
      inWorld (app.modules.setAccount accI)
      return fromHex ethAddress : Run W Bytes)).run s := by
  rw [generateSequencerAccount_eq, generateSequencerAddress_of_isHexAddress _ hhex]
  rfl

theorem run_generate_of_error (hhex : isHexAddress ethAddress) {f : Fault GoString}
    (hd : depositedAt app s ethAddress vesting coins = .error f) :
    (generateSequencerAccountFromEthereumDeposit app ethAddress vesting coins).run s = .error f s := by
  rw [run_generate hhex, hd]
  rfl

theorem run_generate_of_ok (accounts : AccountLaws app) (laws : CoinLaws app.sdk) (hhex : isHexAddress ethAddress)
    (hstored : StoredUnder app s ethAddress) (hd : depositedAt app s ethAddress vesting coins = .ok acc) :
    ∃ w', (generateSequencerAccountFromEthereumDeposit app ethAddress vesting coins).run s =
        .ok (fromHex ethAddress) { s with world := w' } ∧ moneyOf app.modules w' = moneyOf app.modules s.world ∧
      schedulesAt app.modules w' (fromHex ethAddress) = acc.schedules := by
  have hbase : acc.baseAccount.address = app.sdk.accAddressString (fromHex ethAddress) := by
    rw [baseAccount_depositedAccount laws hd]
    exact hstored
  -- What is left after the account is known: it is numbered if it is new, and stored.
  have hstore : ∀ (a : EthOwnedAccount) (w : W), a.schedules = acc.schedules →
      a.baseAccount.address = acc.baseAccount.address → moneyOf app.modules w = moneyOf app.modules s.world →
      ∃ w', ((inWorld (app.modules.setAccount (.ethOwned a)) : Run W Unit) >>= fun _ =>
          pure (fromHex ethAddress)).run { s with world := w } = .ok (fromHex ethAddress) { s with world := w' } ∧
        moneyOf app.modules w' = moneyOf app.modules s.world ∧
        schedulesAt app.modules w' (fromHex ethAddress) = acc.schedules := by
    intro a w hschedules haddress hmoney
    obtain ⟨w', hset, hmoney', haccounts⟩ := accounts.setAccount a w
    refine ⟨w', ?_, hmoney'.trans hmoney, ?_⟩
    · rw [run_bind_of_ok (run_inWorld_of_ok hset)]
      rfl
    · unfold schedulesAt
      rw [haccounts, if_pos (by rw [haddress, hbase])]
      exact hschedules
  rw [run_generate hhex, hd, run_bind_of_ok (run_ofOutcome_ok acc s)]
  cases hexisting : app.modules.getAccount s.world (fromHex ethAddress) with
  | none =>
    obtain ⟨a', w₁, hnew, hschedules, haddress, hmoney, -⟩ := accounts.newAccount acc s.world
    have hnumbered : (numberedAccount app none acc).run s = .ok (.ethOwned a') { s with world := w₁ } :=
      run_inWorld_of_ok hnew
    rw [run_bind_of_ok hnumbered]
    exact hstore a' w₁ hschedules haddress hmoney
  | some existing =>
    have hnumbered : (numberedAccount app (some existing) acc).run s = .ok (.ethOwned acc) s := rfl
    rw [run_bind_of_ok hnumbered]
    exact hstore acc s.world rfl rfl rfl

end Account

/-! ## The target of a deposit -/

/-- The recipient is the depositor's own account, in a text of the sidecar or of the chain. -/
def RecipientOwned (app : App W) (msg : MsgDepositFromEthereum) : Prop :=
  isRecipientOwnedByDepositor msg.depositor msg.recipient
    (app.sdk.accAddressString (fromHex msg.depositor)) false

section Target

variable {vesting : Duration} {coins : Coins} (hhex : isHexAddress msg.depositor)

include hhex

theorem run_depositTarget_of_blocked (hblocked : isAddressBlocked app s msg.depositor = .ok true) :
    (depositTarget app msg vesting coins).run s = .ok (.error (str "depositor address is blocked")) s := by
  rw [depositTarget, run_bind_of_ok (EStateM.run_get s), if_neg (not_not.mpr hhex), hblocked]
  rfl

theorem run_depositTarget_of_error {err : GoString} (hblocked : isAddressBlocked app s msg.depositor = .error err) :
    (depositTarget app msg vesting coins).run s = .ok (.error err) s := by
  rw [depositTarget, run_bind_of_ok (EStateM.run_get s), if_neg (not_not.mpr hhex), hblocked]
  rfl

variable (hblocked : isAddressBlocked app s msg.depositor = .ok false)

include hblocked

theorem run_depositTarget_of_owned (howned : RecipientOwned app msg) :
    (depositTarget app msg vesting coins).run s =
      (attempt (generateSequencerAccountFromEthereumDeposit app msg.depositor vesting coins)).run s := by
  rw [depositTarget, run_bind_of_ok (EStateM.run_get s), if_neg (not_not.mpr hhex), hblocked]
  dsimp only
  rw [generateSequencerAddress_of_isHexAddress _ hhex]
  exact congrArg (EStateM.run · s) (if_pos howned)

theorem run_depositTarget_of_panic (howned : RecipientOwned app msg) {e : GoString}
    (hd : depositedAt app s msg.depositor vesting coins = .error (.panic e)) :
    (depositTarget app msg vesting coins).run s = .error (.panic e) s := by
  rw [run_depositTarget_of_owned hhex hblocked howned]
  exact run_attempt_of_panic (run_generate_of_error hhex hd)

theorem run_depositTarget_of_err (howned : RecipientOwned app msg) {e : GoString}
    (hd : depositedAt app s msg.depositor vesting coins = .error (.err e)) :
    (depositTarget app msg vesting coins).run s = .ok (.error e) s := by
  rw [run_depositTarget_of_owned hhex hblocked howned]
  exact run_attempt_of_err (run_generate_of_error hhex hd)

theorem run_depositTarget_of_ok (accounts : AccountLaws app) (laws : CoinLaws app.sdk)
    (hstored : StoredUnder app s msg.depositor) (howned : RecipientOwned app msg) {acc : EthOwnedAccount}
    (hd : depositedAt app s msg.depositor vesting coins = .ok acc) :
    ∃ w', (depositTarget app msg vesting coins).run s = .ok (.ok (fromHex msg.depositor)) { s with world := w' } ∧
      moneyOf app.modules w' = moneyOf app.modules s.world ∧
      schedulesAt app.modules w' (fromHex msg.depositor) = acc.schedules := by
  obtain ⟨w', hrun, hmoney, hschedules⟩ := run_generate_of_ok accounts laws hhex hstored hd
  refine ⟨w', ?_, hmoney, hschedules⟩
  rw [run_depositTarget_of_owned hhex hblocked howned]
  exact run_attempt_of_ok hrun

theorem run_depositTarget_of_recipient (howned : ¬ RecipientOwned app msg) (hrecipient : isHexAddress msg.recipient) :
    (depositTarget app msg vesting coins).run s = .ok (.ok (fromHex msg.recipient)) s := by
  rw [depositTarget, run_bind_of_ok (EStateM.run_get s), if_neg (not_not.mpr hhex), hblocked]
  dsimp only
  rw [generateSequencerAddress_of_isHexAddress _ hhex]
  refine (congrArg (EStateM.run · s) (if_neg howned)).trans ?_
  rw [if_pos hrecipient, generateSequencerAddress_of_isHexAddress _ hrecipient]
  rfl

end Target

/-! ## A whole deposit -/

/-- The nanoseconds of a lockup. -/
def vestingOf (lockup : ℤ) : ℤ := int64 (lockup * 10 ^ 9)

/-- What a deposit does once its target is known. -/
def settleDeposit (app : App W) (msg : MsgDepositFromEthereum) (info : SupplyDeltaInfo) (denom : GoString)
    (amount : ℤ) (vesting : Duration) : Except GoString Bytes → Run W Unit
  | .error _ => mintToGovernanceAddress app ⟨denom, amount⟩ msg info
  | .ok sequencerAddr => do
    mintAndSend app sequencerAddr [⟨denom, amount⟩]
    subtractOffset info amount
    let _ ← attempt (emit app (.depositEventProcessed msg.depositor (app.sdk.accAddressString sequencerAddr)
      ⟨denom, amount⟩ (app.sdk.durationString vesting)))

section Whole

variable {lockup : ℤ} {vesting : Duration} {u : Unit} {target : Except GoString Bytes}

/-- A deposit of a positive amount ends normally exactly if its denomination is valid, its
lockup is an `int64` and both parts of it end normally. -/
theorem run_depositFromEthereum_eq_ok (hamount : app.sdk.newIntFromString msg.amount = some amount)
    (hpos : 0 < amount) (hlockup : app.sdk.newIntFromString msg.lockup = some lockup) :
    (depositFromEthereum app msg).run s = .ok u t ↔ ∃ info, s.bridge.supplyDeltaInfo = some info ∧
      isValidDenom s.bridge.params.bridgeDenom ∧ (-2 ^ 63 ≤ lockup ∧ lockup < 2 ^ 63) ∧ ∃ target s₁,
        (depositTarget app msg (vestingOf lockup) [⟨s.bridge.params.bridgeDenom, amount⟩]).run s =
          .ok target s₁ ∧
        (settleDeposit app msg info s.bridge.params.bridgeDenom amount (vestingOf lockup) target).run s₁ =
          .ok u t := by
  simp only [depositFromEthereum, processDepositEvent, run_bind_eq_ok, run_getStore_eq_ok, mustGetSupplyDeltaInfo,
    run_mustGet_eq_ok, run_ofOutcome_eq_ok, required_eq_ok, hamount, hlockup, newCoin_eq_ok, panicking_eq_ok,
    intInt64_eq_ok]
  constructor
  · rintro ⟨_, _, ⟨rfl, rfl⟩, info, _, ⟨hinfo, rfl⟩, _, _, ⟨hsome, rfl⟩, _, _, ⟨⟨hdenom, -, rfl⟩, rfl⟩, _, _,
      ⟨hcoins, rfl⟩, _, _, ⟨⟨hlock, rfl⟩, rfl⟩, target, s₁, htarget, h⟩
    obtain rfl := Option.some.inj hsome
    rw [newCoins_of_pos hdenom hpos] at hcoins
    obtain rfl := Except.ok.inj hcoins
    refine ⟨info, hinfo, hdenom, hlock, target, s₁, htarget, ?_⟩
    cases target <;> exact h
  · rintro ⟨info, hinfo, hdenom, hlock, target, s₁, htarget, h⟩
    refine ⟨_, _, ⟨rfl, rfl⟩, info, _, ⟨hinfo, rfl⟩, amount, _, ⟨rfl, rfl⟩, _, _, ⟨⟨hdenom, hpos.le, rfl⟩, rfl⟩, _, _,
      ⟨newCoins_of_pos hdenom hpos, rfl⟩, lockup, _, ⟨⟨hlock, rfl⟩, rfl⟩, target, s₁, htarget, ?_⟩
    cases target <;> exact h

/-- The account that gets the tokens of a deposit with a known target. -/
def Reaches (app : App W) (m : Money) (denom : GoString) (amount : ℤ) (account : Bytes) :
    Except GoString Bytes → Prop
  | .error _ => account = app.modules.moduleAddress govModuleName
  | .ok address => account = address ∨
      (account = app.modules.moduleAddress govModuleName ∧ Refuses app.modules m denom amount address)

variable (hlaw : app.sdk.Lawful) (bank : BankLaws app.modules) (hdenom : isValidDenom denom)
  (hamount : 0 < amount)

include hlaw bank hdenom hamount

theorem settled_settleDeposit (h : (settleDeposit app msg info denom amount vesting target).run s = .ok u t) :
    schedulesAt app.modules t.world = schedulesAt app.modules s.world ∧
      ∃ account, Settled app denom amount info account s t ∧
        Reaches app (moneyOf app.modules s.world) denom amount account target := by
  cases target with
  | error err =>
    obtain ⟨hsettled, hschedules⟩ := settled_mintToGovernanceAddress hdenom hamount hlaw bank h
    exact ⟨hschedules, _, hsettled, rfl⟩
  | ok address =>
    simp only [settleDeposit, run_bind_eq_ok, run_subtractOffset_eq_ok, run_attempt_emit hlaw, run_pure_eq_ok] at h
    obtain ⟨_, s₁, hsend, _, _, ⟨-, rfl⟩, _, _, hemit, -, rfl⟩ := h
    cases hemit
    obtain ⟨hbridge, hschedules, account, hmoney, hreaches⟩ := settled_mintAndSend bank hsend
    exact ⟨hschedules, account, ⟨hmoney, by rw [hbridge]⟩, hreaches⟩

theorem settleDeposit_ok (hfit : SumsFit app denom amount info s) (target : Except GoString Bytes) :
    ∃ t, (settleDeposit app msg info denom amount vesting target).run s = .ok () t := by
  cases target with
  | error err => exact mintToGovernanceAddress_ok hdenom hamount hlaw bank hfit
  | ok address =>
    obtain ⟨s₁, hsend⟩ := mintAndSend_ok bank hdenom hamount hfit address
    refine ⟨{ s₁ with bridge := s₁.bridge.withOffset info (info.offset - amount) }, ?_⟩
    rw [settleDeposit, run_bind_of_ok hsend,
      run_bind_of_ok (run_subtractOffset_eq_ok (u := ()) |>.mpr ⟨hfit.offset_lt, rfl⟩),
      run_bind_of_ok (run_attempt_emit hlaw _ _)]
    rfl

end Whole

/-! ## The reference bank and accounts -/

section Reference

open Reference

variable {w w' : Ledger} {c : Coin}

theorem run_forCoins_single {step : Ledger → Coin → Except (Fault GoString) Ledger} {u : Unit} :
    (Ledger.forCoins step [c]).run w = .ok u w' ↔ step w c = .ok w' := by
  change Ledger.forCoins step [c] w = _ ↔ _
  simp only [Ledger.forCoins, List.foldlM_cons, List.foldlM_nil, bind_pure]
  cases step w c with
  | ok w₁ => simp
  | error e => simp

theorem run_forCoins_single_error {step : Ledger → Coin → Except (Fault GoString) Ledger} {e : Fault GoString} :
    (Ledger.forCoins step [c]).run w = .error e w' ↔ step w c = .error e ∧ w' = w := by
  change Ledger.forCoins step [c] w = _ ↔ _
  simp only [Ledger.forCoins, List.foldlM_cons, List.foldlM_nil, bind_pure]
  cases step w c with
  | ok w₁ => simp
  | error e => simp [eq_comm]

/-- A transfer that takes place. -/
theorem transfer_eq_ok {sender receiver : Bytes} (h : Ledger.transfer sender receiver w c = .ok w') :
    moneyOf modules w' = (moneyOf modules w).move sender receiver c.denom c.amount ∧
      schedulesAt modules w' = schedulesAt modules w := by
  unfold Ledger.transfer at h
  split at h
  · obtain rfl := Except.ok.inj h
    exact ⟨rfl, rfl⟩
  · cases h

theorem bankLaws : BankLaws modules where
  mint {name denom amount w w'} h := by
    have hmint := run_forCoins_single.mp h
    unfold Ledger.mint at hmint
    split at hmint
    · obtain rfl := Except.ok.inj hmint
      exact ⟨rfl, rfl⟩
    · cases hmint
  mint_ok {name denom amount w} _ _ hamount hsupply hlt := by
    refine ⟨_, run_forCoins_single.mpr (if_pos ?_)⟩
    change (w.supply denom + amount).natAbs < 2 ^ maxBitLen
    change 0 ≤ w.supply denom at hsupply
    change w.supply denom + amount < 2 ^ maxBitLen at hlt
    zify
    rwa [abs_of_nonneg (by omega)]
  send h := transfer_eq_ok (run_forCoins_single.mp h)
  send_refused h := by
    obtain ⟨-, rfl⟩ := run_forCoins_single_error.mp h
    exact ⟨rfl, rfl⟩
  send_returns _ h := by
    obtain ⟨h, -⟩ := run_forCoins_single_error.mp h
    unfold Ledger.transfer at h
    split at h <;> cases h
  sendToGov h := transfer_eq_ok (run_forCoins_single.mp h)
  sendToGov_ok _ hle := ⟨_, run_forCoins_single.mpr (if_pos hle)⟩

theorem accountLaws : AccountLaws Reference.app where
  newAccount a w := by
    have hrun : (newAccount (.ethOwned a)).run w = .ok (Account.numbered (.ethOwned a) w.nextAccountNumber)
        { w with nextAccountNumber := w.nextAccountNumber + 1 } := rfl
    cases a with
    | base b owner => exact ⟨_, _, hrun, rfl, rfl, rfl, rfl⟩
    | continuousVesting account owner => exact ⟨_, _, hrun, rfl, rfl, rfl, rfl⟩
    | multiContinuousVesting b infos owner => exact ⟨_, _, hrun, rfl, rfl, rfl, rfl⟩
  setAccount a w := by
    have hrun : (setAccount (.ethOwned a)).run w = .ok () (final ((setAccount (.ethOwned a)).run w)) := rfl
    refine ⟨_, hrun, rfl, fun address => ?_⟩
    cases a <;> rfl

end Reference

end FuelSequencer.Bridge
