import FuelSequencer.Bridge.Lockup

/-! # Custody of locked tokens

Deposits put tokens on accounts and lock them by schedules on the same accounts, in two
calls of two other modules. Over every run of deposits, and of whatever else the bank does
within what is spendable, no account is left with more locked than it holds.
-/
namespace FuelSequencer.Bridge
open Go Wire Exec Lib Wiring

variable {W : Type} {app : App W} {s t s₁ : State W} {w w' w'' : W} {msg : MsgDepositFromEthereum}

/-! ## Stored accounts -/

def Account.baseAccount : Account → BaseAccount
  | .ethOwned a => a.baseAccount
  | .other b => b

def EthOwnedAccount.numbered (a : EthOwnedAccount) (number : UInt64) : EthOwnedAccount :=
  match a with
  | .base b owner => .base { b with accountNumber := number } owner
  | .continuousVesting account owner =>
    .continuousVesting { account with baseAccount := { account.baseAccount with accountNumber := number } } owner
  | .multiContinuousVesting b infos owner => .multiContinuousVesting { b with accountNumber := number } infos owner

@[simp] theorem EthOwnedAccount.schedules_numbered (a : EthOwnedAccount) (number : UInt64) :
    (a.numbered number).schedules = a.schedules := by cases a <;> rfl

/-- Every account is stored under the address that it carries. -/
def Tidy (app : App W) (w : W) : Prop :=
  ∀ address acc, app.modules.getAccount w address = some acc →
    acc.baseAccount.address = app.sdk.accAddressString address

/-- The owned accounts are the same, and every account stays where it belongs. -/
structure KeepsOwned (app : App W) (w w' : W) : Prop where
  owned : ∀ {address : Bytes} {a : EthOwnedAccount}, app.modules.getAccount w' address = some (.ethOwned a) ↔
    app.modules.getAccount w address = some (.ethOwned a)
  tidy : Tidy app w → Tidy app w'

namespace KeepsOwned

theorem refl (w : W) : KeepsOwned app w w := ⟨Iff.rfl, id⟩

theorem trans (h : KeepsOwned app w w') (h' : KeepsOwned app w' w'') : KeepsOwned app w w'' :=
  ⟨h'.owned.trans h.owned, h'.tidy ∘ h.tidy⟩

theorem schedules (h : KeepsOwned app w w') (address : Bytes) :
    schedulesAt app.modules w' address = schedulesAt app.modules w address := by
  unfold schedulesAt
  split
  next a hafter => rw [h.owned.mp hafter]
  next hafter =>
    split
    next a hbefore => exact absurd (h.owned.mpr hbefore) (hafter a)
    next => rfl

instance instIsTrans : IsTrans W (KeepsOwned app) := ⟨fun _ _ _ => trans⟩

end KeepsOwned

/-- Every call that settles a deposit stays within a relation of worlds. -/
structure BankKeeps (app : App W) (R : W → W → Prop) : Prop where
  mint : ∀ {name : GoString} {coins : Coins} {w w' : W}, (app.modules.mintCoins name coins).run w = .ok () w' → R w w'
  send : ∀ {name : GoString} {address : Bytes} {coins : Coins} {w w' : W},
    (app.modules.sendCoinsFromModuleToAccount name address coins).run w = .ok () w' → R w w'
  send_refused : ∀ {name : GoString} {address : Bytes} {coins : Coins} {e : GoString} {w w' : W},
    (app.modules.sendCoinsFromModuleToAccount name address coins).run w = .error (.err e) w' → R w w'
  sendToModule : ∀ {sender receiver : GoString} {coins : Coins} {w w' : W},
    (app.modules.sendCoinsFromModuleToModule sender receiver coins).run w = .ok () w' → R w w'

theorem BankKeeps.mono {R R' : W → W → Prop} (h : BankKeeps app R) (hle : ∀ {w w'}, R w w' → R' w w') :
    BankKeeps app R' :=
  ⟨fun hrun => hle (h.mint hrun), fun hrun => hle (h.send hrun), fun hrun => hle (h.send_refused hrun),
    fun hrun => hle (h.sendToModule hrun)⟩

/-- What the calls of a deposit do to accounts: the bank leaves the owned ones alone, and a new
one gets its number. -/
structure KeepsAccounts (app : App W) : Prop where
  bank : BankKeeps app (KeepsOwned app)
  number : ∀ {a : EthOwnedAccount} {acc : Account} {w w' : W},
    (app.modules.newAccount (.ethOwned a)).run w = .ok acc w' → ∃ number, acc = .ethOwned (a.numbered number)

/-- The account is stored under its address, and nothing else changes. -/
structure Stores (app : App W) (w : W) (address : Bytes) (a : EthOwnedAccount) (w' : W) : Prop where
  base : a.baseAccount.address = app.sdk.accAddressString address
  money : moneyOf app.modules w' = moneyOf app.modules w
  account : ∀ other, app.modules.getAccount w' other =
    if other = address then some (.ethOwned a) else app.modules.getAccount w other

theorem Stores.schedules {address : Bytes} {a : EthOwnedAccount} (h : Stores app w address a w') (other : Bytes) :
    schedulesAt app.modules w' other = if other = address then a.schedules else schedulesAt app.modules w other := by
  unfold schedulesAt
  rw [h.account]
  split_ifs <;> rfl

theorem Stores.tidy {address : Bytes} {a : EthOwnedAccount} (h : Stores app w address a w') (htidy : Tidy app w) :
    Tidy app w' := by
  intro other acc hacc
  rw [h.account] at hacc
  split_ifs at hacc with hother
  · cases hacc
    rw [hother]
    exact h.base
  · exact htidy other acc hacc

theorem storedUnder_of_tidy (h : Tidy app s.world) (ethAddress : GoString) : StoredUnder app s ethAddress := by
  unfold StoredUnder targetAccount
  cases haccount : app.modules.getAccount s.world (fromHex ethAddress) with
  | none => rfl
  | some acc =>
    have haddress := h _ _ haccount
    cases acc <;> exact haddress

/-! ## The account of a deposit -/

section Generate

variable (laws : CoinLaws app.sdk) (accounts : AccountLaws app) (keeps : KeepsAccounts app)
  (hinjective : Function.Injective app.sdk.accAddressString) {ethAddress : GoString} {vesting : Duration}
  {coins : Coins} {acc : EthOwnedAccount}

include laws accounts keeps hinjective

/-- The deposited account is stored under the depositor's address, with a number if it is new. -/
theorem run_generate_stores (hhex : isHexAddress ethAddress) (htidy : Tidy app s.world)
    (hd : depositedAt app s ethAddress vesting coins = .ok acc) :
    ∃ a w', (generateSequencerAccountFromEthereumDeposit app ethAddress vesting coins).run s =
        .ok (fromHex ethAddress) { s with world := w' } ∧ Stores app s.world (fromHex ethAddress) a w' ∧
      (a = acc ∨ ∃ number, a = acc.numbered number) := by
  have hbase : acc.baseAccount.address = app.sdk.accAddressString (fromHex ethAddress) := by
    rw [baseAccount_depositedAccount laws hd]
    exact storedUnder_of_tidy htidy ethAddress
  have hstore : ∀ (a : EthOwnedAccount) (w : W), a.baseAccount.address = acc.baseAccount.address →
      moneyOf app.modules w = moneyOf app.modules s.world →
      app.modules.getAccount w = app.modules.getAccount s.world →
      ∃ w', ((inWorld (app.modules.setAccount (.ethOwned a)) : Run W Unit) >>= fun _ =>
          pure (fromHex ethAddress)).run { s with world := w } = .ok (fromHex ethAddress) { s with world := w' } ∧
        Stores app s.world (fromHex ethAddress) a w' := by
    intro a w haddress hmoney hsame
    obtain ⟨w', hset, hmoney', haccounts⟩ := accounts.setAccount a w
    refine ⟨w', ?_, haddress.trans hbase, hmoney'.trans hmoney, fun other => ?_⟩
    · rw [run_bind_of_ok (run_inWorld_of_ok hset)]
      rfl
    · simp only [haccounts, haddress, hbase, hsame, hinjective.eq_iff]
  rw [run_generate hhex, hd, run_bind_of_ok (run_ofOutcome_ok acc s)]
  cases hexisting : app.modules.getAccount s.world (fromHex ethAddress) with
  | none =>
    obtain ⟨a', w₁, hnew, -, haddress, hmoney, hsame⟩ := accounts.newAccount acc s.world
    have hnumbered : (numberedAccount app none acc).run s = .ok (.ethOwned a') { s with world := w₁ } :=
      run_inWorld_of_ok hnew
    obtain ⟨number, hnumber⟩ := keeps.number hnew
    cases hnumber
    obtain ⟨w', hrun, hstored⟩ := hstore _ w₁ haddress hmoney hsame
    refine ⟨_, w', ?_, hstored, .inr ⟨number, rfl⟩⟩
    rw [run_bind_of_ok hnumbered]
    exact hrun
  | some existing =>
    have hnumbered : (numberedAccount app (some existing) acc).run s = .ok (.ethOwned acc) s := rfl
    obtain ⟨w', hrun, hstored⟩ := hstore acc s.world rfl rfl rfl
    refine ⟨acc, w', ?_, hstored, .inl rfl⟩
    rw [run_bind_of_ok hnumbered]
    exact hrun

/-- Once its target is known, a deposit has stored the depositor's account or nothing. -/
theorem run_depositTarget_cases {target : Except GoString Bytes} (htidy : Tidy app s.world)
    (h : (depositTarget app msg vesting coins).run s = .ok target s₁) : s₁ = s ∨ ∃ acc a,
      isHexAddress msg.depositor ∧ isAddressBlocked app s msg.depositor = .ok false ∧
      depositedAt app s msg.depositor vesting coins = .ok acc ∧ target = .ok (fromHex msg.depositor) ∧
      s₁ = { s with world := s₁.world } ∧ Stores app s.world (fromHex msg.depositor) a s₁.world ∧
      (a = acc ∨ ∃ number, a = acc.numbered number) := by
  by_cases hhex : isHexAddress msg.depositor
  · cases hblocked : isAddressBlocked app s msg.depositor with
    | error err =>
      rw [run_depositTarget_of_error hhex hblocked] at h
      cases h
      exact .inl rfl
    | ok blocked =>
      cases blocked with
      | true =>
        rw [run_depositTarget_of_blocked hhex hblocked] at h
        cases h
        exact .inl rfl
      | false =>
        by_cases howned : RecipientOwned app msg
        · cases hd : depositedAt app s msg.depositor vesting coins with
          | error f =>
            cases f with
            | panic e =>
              rw [run_depositTarget_of_panic hhex hblocked howned hd] at h
              cases h
            | err e =>
              rw [run_depositTarget_of_err hhex hblocked howned hd] at h
              cases h
              exact .inl rfl
          | ok acc =>
            obtain ⟨a, w', hrun, hstored, hnumber⟩ := run_generate_stores laws accounts keeps hinjective hhex htidy hd
            rw [run_depositTarget_of_owned hhex hblocked howned, run_attempt_of_ok hrun] at h
            cases h
            exact .inr ⟨acc, a, hhex, rfl, rfl, rfl, rfl, hstored, hnumber⟩
        · left
          rw [depositTarget, run_bind_of_ok (EStateM.run_get s), if_neg (not_not.mpr hhex), hblocked] at h
          dsimp only at h
          rw [generateSequencerAddress_of_isHexAddress _ hhex] at h
          have hother := (congrArg (EStateM.run · s) (if_neg howned)).symm.trans h
          split at hother
          · cases hother
            rfl
          · cases hother
            rfl
  · left
    rw [depositTarget, run_bind_of_ok (EStateM.run_get s), if_pos hhex] at h
    cases h
    rfl

end Generate

/-! ## What a handled deposit does -/

section Effect

variable {denom : GoString} {amount : ℤ} {info : SupplyDeltaInfo} {vesting : Duration}
  {target : Except GoString Bytes} {u : Unit}

theorem rel_mintAndSend {R : W → W → Prop} [IsTrans W R] (keeps : BankKeeps app R) {address : Bytes} {coins : Coins}
    (h : (mintAndSend app address coins).run s = .ok u t) : R s.world t.world := by
  obtain ⟨_, s₁, hfirst, h⟩ := run_bind_eq_ok.mp h
  obtain ⟨w₁, hmint, rfl⟩ := run_orPanic_eq_ok.mp hfirst
  have hminted := keeps.mint hmint
  obtain ⟨r, s₂, hsend, h⟩ := run_bind_eq_ok.mp h
  cases hr : (app.modules.sendCoinsFromModuleToAccount moduleName address coins).run w₁ with
  | ok _ w₂ =>
    rw [run_attempt_of_ok (run_inWorld_of_ok hr)] at hsend
    cases hsend
    obtain ⟨-, rfl⟩ := run_pure_eq_ok.mp h
    exact IsTrans.trans _ _ _ hminted (keeps.send hr)
  | error e w₂ =>
    cases e with
    | panic e =>
      rw [run_attempt_of_panic (run_inWorld_of_error hr)] at hsend
      cases hsend
    | err e =>
      rw [run_attempt_of_err (run_inWorld_of_error hr)] at hsend
      cases hsend
      obtain ⟨w₃, hgov, rfl⟩ := run_orPanic_eq_ok.mp h
      exact IsTrans.trans _ _ _ (IsTrans.trans _ _ _ hminted (keeps.send_refused hr)) (keeps.sendToModule hgov)

/-- The settlement of a deposit stays within what each of its calls stays within. -/
theorem rel_settleDeposit {R : W → W → Prop} [IsTrans W R] (hlaw : app.sdk.Lawful) (keeps : BankKeeps app R)
    (hdenom : isValidDenom denom) (hpos : 0 < amount)
    (h : (settleDeposit app msg info denom amount vesting target).run s = .ok u t) : R s.world t.world := by
  cases target with
  | error err =>
    obtain ⟨w', hmint, -, rfl⟩ := (mintToGovernanceAddress_eq_ok hdenom hpos hlaw).mp h
    exact keeps.mint hmint
  | ok address =>
    simp only [settleDeposit, run_bind_eq_ok, run_subtractOffset_eq_ok, run_attempt_emit hlaw, run_pure_eq_ok] at h
    obtain ⟨_, s₁, hsend, _, _, ⟨-, rfl⟩, _, _, hemit, -, rfl⟩ := h
    cases hemit
    have hsent := rel_mintAndSend keeps hsend
    exact hsent

/-- The lockup of a deposit in nanoseconds; one that cannot be read is not used. -/
def lockupOf (sdk : Sdk) (msg : MsgDepositFromEthereum) : Duration :=
  match sdk.newIntFromString msg.lockup with
  | some lockup => vestingOf lockup
  | none => 0

/-- A deposit without a lockup that can be read goes to governance. -/
theorem run_depositFromEthereum_of_unread (hamount : app.sdk.newIntFromString msg.amount = some amount)
    (hlockup : app.sdk.newIntFromString msg.lockup = none)
    (h : (depositFromEthereum app msg).run s = .ok u t) : ∃ info, s.bridge.supplyDeltaInfo = some info ∧
      isValidDenom s.bridge.params.bridgeDenom ∧
      (settleDeposit app msg info s.bridge.params.bridgeDenom amount 0 (.error [])).run s = .ok u t := by
  simp only [depositFromEthereum, processDepositEvent, run_bind_eq_ok, run_getStore_eq_ok, mustGetSupplyDeltaInfo,
    run_mustGet_eq_ok, run_ofOutcome_eq_ok, required_eq_ok, hamount, hlockup, newCoin_eq_ok] at h
  obtain ⟨_, _, ⟨rfl, rfl⟩, info, _, ⟨hinfo, rfl⟩, _, _, ⟨hsome, rfl⟩, _, _, ⟨⟨hdenom, -, rfl⟩, rfl⟩, _, _, ⟨-, rfl⟩, h⟩ := h
  obtain rfl := Option.some.inj hsome
  exact ⟨info, hinfo, hdenom, h⟩

/-- A deposit that ends normally has first stored the depositor's account or nothing, and then
minted its amount. -/
theorem run_deposit_parts (laws : CoinLaws app.sdk) (accounts : AccountLaws app) (keeps : KeepsAccounts app)
    (hinjective : Function.Injective app.sdk.accAddressString) (htidy : Tidy app s.world)
    (hamount : app.sdk.newIntFromString msg.amount = some amount) (hpos : 0 < amount)
    (h : (depositFromEthereum app msg).run s = .ok u t) :
    isValidDenom s.bridge.params.bridgeDenom ∧ ∃ info target s₁,
      (settleDeposit app msg info s.bridge.params.bridgeDenom amount (lockupOf app.sdk msg) target).run s₁ = .ok u t ∧
      (s₁ = s ∨ ∃ acc a, isHexAddress msg.depositor ∧ isAddressBlocked app s msg.depositor = .ok false ∧
        depositedAt app s msg.depositor (lockupOf app.sdk msg) [⟨s.bridge.params.bridgeDenom, amount⟩] = .ok acc ∧
        target = .ok (fromHex msg.depositor) ∧ s₁ = { s with world := s₁.world } ∧
        Stores app s.world (fromHex msg.depositor) a s₁.world ∧ (a = acc ∨ ∃ number, a = acc.numbered number)) := by
  unfold lockupOf
  cases hlockup : app.sdk.newIntFromString msg.lockup with
  | none =>
    obtain ⟨info, -, hdenom, hsettle⟩ := run_depositFromEthereum_of_unread hamount hlockup h
    exact ⟨hdenom, info, _, s, hsettle, .inl rfl⟩
  | some lockup =>
    obtain ⟨info, -, hdenom, -, target, s₁, htarget, hsettle⟩ :=
      (run_depositFromEthereum_eq_ok hamount hpos hlockup).mp h
    exact ⟨hdenom, info, target, s₁, hsettle,
      run_depositTarget_cases laws accounts keeps hinjective htidy htarget⟩

/-- A handled deposit either took place or left a mark in the index only. -/
theorem run_handleDeposit_cases {r : Reply Unit} (h : (handleDepositFromEthereum app msg).run s = .ok r t) :
    (depositFromEthereum app msg).run s = .ok () t ∨ t = { s with bridge := s.bridge.recordFailure } := by
  obtain ⟨ended, s₁, htry, h⟩ := run_bind_eq_ok.mp h
  obtain ⟨-, rfl⟩ := run_pure_eq_ok.mp h
  by_cases hsigner : app.keeper.authority = msg.authority
  · cases hbody : (depositFromEthereum app msg).run s with
    | ok a s₂ =>
      rw [run_tryExec_of_ok hsigner hbody] at htry
      cases htry
      exact .inl rfl
    | error e s₂ =>
      rw [run_tryExec_of_error hsigner hbody] at htry
      cases htry
      exact .inr rfl
  · rw [run_tryExec_of_signer hsigner] at htry
    cases htry

end Effect

/-! ## A ledger in time -/

structure Moment (W : Type) where
  state : State W
  time : Time

/-- A balance that falls stays above what the account locks. -/
def WithinSpendable (app : App W) (denom : GoString) (w w' : W) (time : Time) : Prop :=
  ∀ address, app.modules.getBalance w' address denom < app.modules.getBalance w address denom →
    0 ≤ app.modules.getBalance w' address denom ∧
    ∀ a, app.modules.getAccount w address = some (.ethOwned a) → ∃ locked,
      a.lockedCoins app.sdk time = .ok locked ∧ amountOf locked denom ≤ app.modules.getBalance w' address denom

/-- A deposit is handled, or other things happen: time passes, other accounts come and change,
and the bank moves what is spendable. -/
inductive LedgerStep (app : App W) (denom : GoString) : Moment W → Move → Moment W → Prop
  | deposit {s t : State W} {time : Time} {msg : MsgDepositFromEthereum} {amount : ℤ} {r : Reply Unit}
      (hdenom : s.bridge.params.bridgeDenom = denom) (hamount : app.sdk.newIntFromString msg.amount = some amount)
      (hpos : 0 < amount) (hrun : (handleDepositFromEthereum app msg).run s = .ok r t) :
      LedgerStep app denom ⟨s, time⟩ (.deposit s.bridge.params (lockupOf app.sdk msg) amount) ⟨t, time⟩
  | other {s t : State W} {time time' : Time} (hle : time ≤ time') (haccounts : KeepsOwned app s.world t.world)
      (hspent : WithinSpendable app denom s.world t.world time') :
      LedgerStep app denom ⟨s, time⟩ (.advance time') ⟨t, time'⟩

/-- What an address holds and locks, as one account would. -/
def holderAt (app : App W) (denom : GoString) (m : Moment W) (address : Bytes) : Holder :=
  ⟨.multiContinuousVesting ⟨app.sdk.accAddressString address, none, 0, 0⟩
    (schedulesAt app.modules m.state.world address) [], app.modules.getBalance m.state.world address denom, m.time⟩

/-- Every address covers what it locks. -/
structure InCustody (app : App W) (denom : GoString) (moves : List Move) (m : Moment W) : Prop where
  tidy : Tidy app m.state.world
  covered : ∀ address, Covered denom moves (holderAt app denom m address)

variable {denom : GoString} {moves : List Move} {move : Move} {m m' : Moment W}

namespace Covered

variable {h h' : Holder}

/-- Only the schedules, the balance and the time count. -/
theorem congr (hc : Covered denom moves h) (hschedules : h'.account.schedules = h.account.schedules)
    (hbalance : h.balance ≤ h'.balance) (htime : h'.time = h.time) : Covered denom moves h' where
  sound := hschedules ▸ hc.sound
  locked_le := by
    rw [hschedules, htime]
    exact hc.locked_le.trans hbalance
  original_le d := by
    rw [hschedules]
    exact hc.original_le d
  deposited_nonneg := hc.deposited_nonneg

/-- A move of someone else. -/
theorem snoc (hc : Covered denom moves h) (hmove : 0 ≤ move.deposited) : Covered denom (moves ++ [move]) h where
  sound := hc.sound
  locked_le := hc.locked_le
  original_le d := by
    have hle := hc.original_le d
    rw [deposited_append]
    omega
  deposited_nonneg := by
    have hle := hc.deposited_nonneg
    rw [deposited_append]
    omega

theorem balance_nonneg (hc : Covered denom moves h) : 0 ≤ h.balance :=
  (total_nonneg (hc.sound.unvested_nonneg denom (unixSeconds h.time))).trans hc.locked_le

end Covered

/-- The bank refuses no account but those that the keeper blocks. -/
def RefusesBlocked (app : App W) (denom : GoString) : Prop :=
  ∀ {m : Money} {amount : ℤ} {address : Bytes}, 0 ≤ m.balance (app.modules.moduleAddress moduleName) denom →
    Refuses app.modules m denom amount address → app.sdk.accAddressString address ∈ app.keeper.blockedAddresses

theorem not_mem_of_isAddressBlocked {text : GoString} (hhex : isHexAddress text)
    (h : isAddressBlocked app s text = .ok false) :
    app.sdk.accAddressString (fromHex text) ∉ app.keeper.blockedAddresses := by
  obtain ⟨blocked, hall, h⟩ := except_bind_eq_ok.mp h
  rw [stringToBytes_of_isHexAddress _ hhex, ok_bind] at h
  have hfree : app.sdk.accAddressString (fromHex text) ∉ blocked := by simpa using Except.ok.inj h
  obtain ⟨validators, -, hall⟩ := except_bind_eq_ok.mp hall
  obtain ⟨operators, -, hall⟩ := except_bind_eq_ok.mp hall
  obtain rfl := Except.ok.inj hall
  intro hmem
  apply hfree
  simp [hmem]

section Laws

variable (hlaw : app.sdk.Lawful) (laws : CoinLaws app.sdk) (bank : BankLaws app.modules)
  (accounts : AccountLaws app) (keeps : KeepsAccounts app)
  (hinjective : Function.Injective app.sdk.accAddressString) (hrefuses : RefusesBlocked app denom)

include hlaw laws bank accounts keeps hinjective hrefuses

theorem InCustody.deposit {amount : ℤ} {u : Unit} {time : Time} (h : InCustody app denom moves ⟨s, time⟩)
    (hdenom : s.bridge.params.bridgeDenom = denom) (hamount : app.sdk.newIntFromString msg.amount = some amount)
    (hpos : 0 < amount) (hrun : (depositFromEthereum app msg).run s = .ok u t) :
    InCustody app denom (moves ++ [.deposit s.bridge.params (lockupOf app.sdk msg) amount]) ⟨t, time⟩ := by
  have hmove : 0 ≤ (Move.deposit s.bridge.params (lockupOf app.sdk msg) amount).deposited := hpos.le
  obtain ⟨hvalid, info, target, s₁, hsettle, hfirst⟩ :=
    run_deposit_parts laws accounts keeps hinjective h.tidy hamount hpos hrun
  rw [hdenom] at hvalid hsettle hfirst
  have hkeeps := rel_settleDeposit hlaw keeps.bank hvalid hpos hsettle
  obtain ⟨hschedules, account, hsettled, hreaches⟩ := settled_settleDeposit hlaw bank hvalid hpos hsettle
  have hbalance : ∀ address, app.modules.getBalance t.world address denom =
      app.modules.getBalance s₁.world address denom + if address = account then amount else 0 := by
    intro address
    have hmoney := congrArg (fun m => m.balance address denom) hsettled.money
    simpa only [moneyOf, Money.mint, Money.credit, and_true] using hmoney
  rcases hfirst with rfl | ⟨acc, a, hhex, hfree, hd, rfl, -, hstores, hnumber⟩
  · -- No account was stored, so that nobody locks more than before.
    refine ⟨hkeeps.tidy h.tidy, fun address => ((h.covered address).snoc hmove).congr ?_ ?_ rfl⟩
    · exact congrFun hschedules address
    · change app.modules.getBalance s₁.world address denom ≤ app.modules.getBalance t.world address denom
      rw [hbalance]
      split_ifs <;> omega
  · have hsame : ∀ address, app.modules.getBalance s₁.world address denom =
        app.modules.getBalance s.world address denom := by
      intro address
      exact congrArg (fun m => m.balance address denom) hstores.money
    -- The bridge holds no negative balance, so that the bank takes the account.
    have hreached : account = fromHex msg.depositor := by
      refine hreaches.resolve_right fun hrefused => ?_
      refine not_mem_of_isAddressBlocked hhex hfree (hrefuses ?_ hrefused.2)
      change 0 ≤ app.modules.getBalance s₁.world _ denom
      rw [hsame]
      exact (h.covered _).balance_nonneg
    subst hreached
    have hgrown : a.schedules = acc.schedules := by
      rcases hnumber with rfl | ⟨number, rfl⟩
      · rfl
      · exact acc.schedules_numbered number
    refine ⟨hkeeps.tidy (hstores.tidy h.tidy), fun address => ?_⟩
    by_cases haddress : address = fromHex msg.depositor
    · subst haddress
      have hbefore : Covered denom moves ⟨targetAccount app.sdk (app.modules.getAccount s.world (fromHex msg.depositor))
          (fromHex msg.depositor) msg.depositor, app.modules.getBalance s.world (fromHex msg.depositor) denom, time⟩ :=
        (h.covered _).congr (schedules_targetAccount app s.world _ _) le_rfl rfl
      refine (hbefore.deposit laws (newCoin_eq_ok.mpr ⟨hvalid, hpos.le, rfl⟩) (newCoins_of_pos hvalid hpos) hd).congr
        ?_ ?_ rfl
      · change schedulesAt app.modules t.world (fromHex msg.depositor) = acc.schedules
        rw [hschedules, hstores.schedules, if_pos rfl, hgrown]
      · change app.modules.getBalance s.world _ denom + amount ≤ app.modules.getBalance t.world _ denom
        rw [hbalance, hsame, if_pos rfl]
    · refine ((h.covered address).snoc hmove).congr ?_ ?_ rfl
      · change schedulesAt app.modules t.world address = schedulesAt app.modules s.world address
        rw [hschedules, hstores.schedules, if_neg haddress]
      · change app.modules.getBalance s.world address denom ≤ app.modules.getBalance t.world address denom
        rw [hbalance, hsame, if_neg haddress, add_zero]

omit hlaw bank accounts keeps hinjective hrefuses in
theorem InCustody.other {time time' : Time} (h : InCustody app denom moves ⟨s, time⟩) (hle : time ≤ time')
    (haccounts : KeepsOwned app s.world t.world) (hspent : WithinSpendable app denom s.world t.world time') :
    InCustody app denom moves ⟨t, time'⟩ := by
  refine ⟨haccounts.tidy h.tidy, fun address => ?_⟩
  have hlater := (h.covered address).advance hle
  have hcovers : total (schedulesAt app.modules s.world address) (·.unvested denom (unixSeconds time')) ≤
      app.modules.getBalance t.world address denom := by
    by_cases hfalls : app.modules.getBalance t.world address denom < app.modules.getBalance s.world address denom
    · obtain ⟨hnonneg, howned⟩ := hspent address hfalls
      have hsound := hlater.sound
      change Sound (schedulesAt app.modules s.world address) at hsound
      unfold schedulesAt at hsound ⊢
      split at hsound
      next a haccount =>
        obtain ⟨locked, hlocked, hle⟩ := howned a haccount
        rwa [(lockedCoins_spec laws hsound hlocked).2] at hle
      next => exact hnonneg
    · exact hlater.locked_le.trans (not_lt.mp hfalls)
  exact (hlater.rebalance hcovers).congr (haccounts.schedules address) le_rfl rfl

theorem InCustody.step (h : InCustody app denom moves m) (hstep : LedgerStep app denom m move m') :
    InCustody app denom (moves ++ [move]) m' := by
  cases hstep with
  | @deposit s t time msg amount r hdenom hamount hpos hrun =>
    rcases run_handleDeposit_cases hrun with hrun | rfl
    · exact h.deposit hlaw laws bank accounts keeps hinjective hrefuses hdenom hamount hpos hrun
    · have hmove : 0 ≤ (Move.deposit s.bridge.params (lockupOf app.sdk msg) amount).deposited := hpos.le
      exact ⟨h.tidy, fun address => ((h.covered address).snoc hmove).congr rfl le_rfl rfl⟩
  | @other s t time time' hle haccounts hspent =>
    have hother := h.other laws hle haccounts hspent
    exact ⟨hother.tidy, fun address => (hother.covered address).snoc le_rfl⟩

/-- However deposits and other business follow each other, no account that is owned by an
Ethereum address ever locks more than it holds, and what it locks is computed as long as the
decimals of all deposits do not overflow. -/
theorem every_account_covered {m₀ : Moment W} (htidy : Tidy app m₀.state.world)
    (hfresh : ∀ address, schedulesAt app.modules m₀.state.world address = [])
    (hnonneg : ∀ address, 0 ≤ app.modules.getBalance m₀.state.world address denom)
    (hrun : Runs (LedgerStep app denom) m₀ moves m) {address : Bytes} {a : EthOwnedAccount}
    (haccount : app.modules.getAccount m.state.world address = some (.ethOwned a)) :
    (∀ locked, a.lockedCoins app.sdk m.time = .ok locked →
      amountOf locked denom ≤ app.modules.getBalance m.state.world address denom) ∧
    (FitsDec (deposited moves) → ∃ locked, a.lockedCoins app.sdk m.time = .ok locked) := by
  have hstart : InCustody app denom [] m₀ := by
    refine ⟨htidy, fun address => ?_⟩
    have hnone : Covered denom [] ⟨.base ⟨[], none, 0, 0⟩ [], 0, m₀.time⟩ :=
      ⟨fun _ hinfo => absurd hinfo List.not_mem_nil, le_rfl, fun _ => le_rfl, le_rfl⟩
    exact hnone.congr (hfresh address) (hnonneg address) rfl
  have hcustody : InCustody app denom moves m := hrun.invariant (I := InCustody app denom) hstart
    fun h hstep => h.step hlaw laws bank accounts keeps hinjective hrefuses hstep
  have hcovered : Covered denom moves ⟨a, app.modules.getBalance m.state.world address denom, m.time⟩ := by
    refine (hcustody.covered address).congr ?_ le_rfl rfl
    change a.schedules = schedulesAt app.modules m.state.world address
    rw [schedulesAt, haccount]
  constructor
  · intro locked hlocked
    rw [(lockedCoins_spec laws hcovered.sound hlocked).2]
    exact hcovered.locked_le
  · intro hfits
    exact lockedCoins_ok laws hcovered.sound (fun d => hfits.mono (hcovered.original_le d)) m.time

end Laws

/-! ## The reference ledger -/

section Reference

open Reference

theorem account_of_foldlM {step : Ledger → Coin → Except (Fault GoString) Ledger}
    (hstep : ∀ {w c w'}, step w c = .ok w' → w'.account = w.account) {coins : Coins} {w w' : Ledger}
    (h : coins.foldlM step w = .ok w') : w'.account = w.account := by
  induction coins generalizing w with
  | nil =>
    cases h
    rfl
  | cons c coins ih =>
    obtain ⟨w₁, hfirst, hrest⟩ := except_bind_eq_ok.mp h
    exact (ih hrest).trans (hstep hfirst)

theorem account_of_mint {address : Bytes} {w w' : Ledger} {c : Coin} (h : Ledger.mint address w c = .ok w') :
    w'.account = w.account := by
  unfold Ledger.mint at h
  split at h
  · cases h
    rfl
  · cases h

theorem account_of_transfer {sender receiver : Bytes} {w w' : Ledger} {c : Coin}
    (h : Ledger.transfer sender receiver w c = .ok w') : w'.account = w.account := by
  unfold Ledger.transfer at h
  split at h
  · cases h
    rfl
  · cases h

theorem keepsOwned_of_account {w w' : Ledger} (h : w'.account = w.account) : KeepsOwned Reference.app w w' where
  owned {address a} := by
    change w'.account address = _ ↔ w.account address = _
    rw [h]
  tidy htidy address acc hacc := htidy address acc ((congrFun h address).symm.trans hacc)

theorem account_of_forCoins {step : Ledger → Coin → Except (Fault GoString) Ledger}
    (hstep : ∀ {w c w'}, step w c = .ok w' → w'.account = w.account) {coins : Coins} {w w' : Ledger} {u : Unit}
    (h : (Ledger.forCoins step coins).run w = .ok u w') : w'.account = w.account := by
  change Ledger.forCoins step coins w = _ at h
  unfold Ledger.forCoins at h
  split at h
  next hfold =>
    cases h
    exact account_of_foldlM hstep hfold
  next => cases h

/-- The reference bank touches no account. -/
theorem bankKeeps_account : BankKeeps Reference.app (fun w w' => w'.account = w.account) where
  mint := account_of_forCoins account_of_mint
  send := account_of_forCoins account_of_transfer
  send_refused {name address coins e w w'} h := by
    change Ledger.forCoins _ coins w = _ at h
    unfold Ledger.forCoins at h
    split at h
    · cases h
    · cases h
      rfl
  sendToModule := account_of_forCoins account_of_transfer

theorem keepsAccounts : KeepsAccounts Reference.app where
  bank := bankKeeps_account.mono keepsOwned_of_account
  number {a acc w w'} h := by
    cases h
    cases a <;> exact ⟨_, rfl⟩

theorem refusesBlocked (denom : GoString) : RefusesBlocked Reference.app denom := by
  rintro m amount address hnonneg ⟨w, w₁, e, w₂, rfl, hmint, hsend⟩
  exfalso
  have hminted := (bankLaws.mint hmint).1
  have hbalance := congrArg (fun m => m.balance (moduleAddress moduleName) denom) hminted
  simp only [moneyOf, Money.mint, Money.credit] at hbalance
  obtain ⟨hrefused, -⟩ := run_forCoins_single_error.mp hsend
  unfold Ledger.transfer at hrefused
  split at hrefused
  · cases hrefused
  · next hshort =>
    apply hshort
    change amount ≤ modules.getBalance w₁ (moduleAddress moduleName) denom
    change 0 ≤ modules.getBalance w (moduleAddress moduleName) denom at hnonneg
    rw [hbalance]
    exact le_add_of_nonneg_left hnonneg

/-- The account of the depositor after the deposit. -/
def lockedDepositor : EthOwnedAccount :=
  .continuousVesting ⟨⟨bech32String depositor, none, 1, 0⟩, [⟨ufuel, 100⟩], 0, 100⟩ (ethText depositor)

theorem account_after_deposit : (afterOwnDeposit 100).world.account depositor = some (.ethOwned lockedDepositor) := by
  decide +kernel

theorem lockedCoins_halfway :
    lockedDepositor.lockedCoins Reference.sdk (50 * 10 ^ 9) = .ok [⟨ufuel, 50⟩] := by
  decide +kernel

theorem handleDeposit_hundred : (handleDepositFromEthereum Reference.app (ownDeposit 100)).run Reference.state =
    .ok (reply () (.ok ())) (afterOwnDeposit 100) := by
  have hsigner : Reference.app.keeper.authority = (ownDeposit 100).authority := rfl
  rw [handleDepositFromEthereum, run_bind_of_ok (run_tryExec_of_ok hsigner run_ownDeposit_hundred)]
  rfl

/-- Half a lockup later the depositor may spend half of the deposit. -/
def halfSpent (w : Ledger) : Ledger := w.addBalance depositor ufuel (-50)

theorem account_halfSpent (w : Ledger) : (halfSpent w).account = w.account := rfl

theorem getAccount_reference (w : Ledger) (address : Bytes) :
    Reference.app.modules.getAccount w address = w.account address := rfl

theorem withinSpendable_halfSpent {w : Ledger} (haccount : w.account depositor = some (.ethOwned lockedDepositor))
    (hbalance : w.balance depositor ufuel = 100) :
    WithinSpendable Reference.app ufuel w (halfSpent w) (50 * 10 ^ 9) := by
  have hspent : ∀ address, (halfSpent w).balance address ufuel =
      w.balance address ufuel + if address = depositor then -50 else 0 := by
    intro address
    simp [halfSpent, Ledger.addBalance]
  intro address hfalls
  change (halfSpent w).balance address ufuel < w.balance address ufuel at hfalls
  change 0 ≤ (halfSpent w).balance address ufuel ∧ ∀ a, w.account address = some (.ethOwned a) →
    ∃ locked, _ ∧ amountOf locked ufuel ≤ (halfSpent w).balance address ufuel
  rw [hspent] at hfalls ⊢
  split_ifs at hfalls ⊢ with hdepositor
  · subst hdepositor
    rw [hbalance]
    refine ⟨by decide, fun a ha => ?_⟩
    cases Option.some.inj (haccount.symm.trans ha)
    exact ⟨_, lockedCoins_halfway, by decide⟩
  · omega

theorem ledgerStep_hundred : LedgerStep Reference.app ufuel ⟨Reference.state, 0⟩
    (.deposit Reference.params (lockupOf Reference.sdk (ownDeposit 100)) 100) ⟨afterOwnDeposit 100, 0⟩ := by
  have hamount : Reference.app.sdk.newIntFromString (ownDeposit 100).amount = some 100 := by
    change Reference.newIntFromString (decimal 100) = some 100
    decide +kernel
  exact .deposit rfl hamount (by decide) handleDeposit_hundred

theorem every_account_covered_reference : ∃ locked, lockedDepositor.lockedCoins Reference.sdk (50 * 10 ^ 9) = .ok locked ∧
    amountOf locked ufuel ≤ (halfSpent (afterOwnDeposit 100).world).balance depositor ufuel := by
  have hspend : LedgerStep Reference.app ufuel ⟨afterOwnDeposit 100, 0⟩ _
      ⟨{ afterOwnDeposit 100 with world := halfSpent (afterOwnDeposit 100).world }, 50 * 10 ^ 9⟩ :=
    .other (by decide) (keepsOwned_of_account (account_halfSpent _)) (withinSpendable_halfSpent account_after_deposit (by decide +kernel))
  have hkept : Reference.app.modules.getAccount (halfSpent (afterOwnDeposit 100).world) depositor =
      some (.ethOwned lockedDepositor) := by
    rw [getAccount_reference, account_halfSpent]
    exact account_after_deposit
  obtain ⟨hle, hlocked⟩ := every_account_covered Reference.sdk_lawful Reference.sdk_coinLaws bankLaws accountLaws
    keepsAccounts Reference.bech32String_injective (refusesBlocked ufuel) (fun _ _ h => by cases h) (fun _ => rfl)
    (fun _ => le_rfl) ((Runs.single ledgerStep_hundred).snoc hspend) hkept
  obtain ⟨locked, hlocked⟩ := hlocked (by unfold FitsDec; decide +kernel)
  exact ⟨locked, hlocked, hle locked hlocked⟩

end Reference

end FuelSequencer.Bridge
