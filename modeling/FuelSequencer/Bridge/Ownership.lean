import FuelSequencer.Bridge.AccountJson
import FuelSequencer.Bridge.Custody

/-! # Accounts owned by Ethereum addresses

Deposits create owned accounts, turn plain accounts into owned ones and grow their
schedules. Whatever the order, each owned account lies under the address that its owner
maps to and passes its validation, so that an export of the accounts can be imported.
-/
namespace FuelSequencer.Bridge
open Go Wire Exec Lib Wiring

variable {W : Type} {app : App W} {codec : AccountCodec} {sdk : Sdk} {address : Bytes} {a acc : EthOwnedAccount}
  {infos infos' : List VestingInfo} {coins : Coins} {startTime endTime : ℤ}

/-! ## Accounts in order -/

/-- The owner is a text of the address, and all that validation looks at is in order. -/
structure InOrder (sdk : Sdk) (codec : AccountCodec) (address : Bytes) (a : EthOwnedAccount) : Prop where
  owner_hex : isHexAddress a.owner
  owner_eq : fromHex a.owner = address
  base : codec.validateBaseAccount a.baseAccount = .ok ()
  infos : ∀ info ∈ a.schedules, info.validate sdk = .ok ()
  starts : (a.schedules.map VestingInfo.startTime).Nodup

theorem InOrder.validate (h : InOrder sdk codec address a) : a.validate sdk codec = .ok () := by
  have hblank := isBlank_of_isHexAddress h.owner_hex
  have hbase := h.base
  unfold EthOwnedAccount.validate
  rw [failIf_of_not (by simp [hblank]), ok_bind]
  cases a with
  | base b owner => exact hbase
  | continuousVesting account owner => exact hbase
  | multiContinuousVesting b infos owner =>
    exact except_bind_eq_ok.mpr ⟨(), except_forM_eq_ok.mpr h.infos, hbase⟩

/-- The checks of the SDK: a plain sum of valid coins is valid, and an account without a key
passes, whatever its number. -/
structure ValidationLaws (sdk : Sdk) (codec : AccountCodec) : Prop where
  add_valid : ∀ {a b c : Coins}, coinsIsValid a → coinsIsValid b → sdk.coinsAdd a b = .ok c → coinsIsValid c
  no_key : ∀ {b : BaseAccount}, b.pubKey = none → codec.validateBaseAccount b = .ok ()
  number : ∀ (b : BaseAccount) (number : UInt64),
    codec.validateBaseAccount { b with accountNumber := number } = codec.validateBaseAccount b

/-! ## What a deposit does to an account in order -/

/-- Every schedule passes its validation after coins were added to one. -/
theorem validate_addToInfos (laws : CoinLaws sdk) (checks : ValidationLaws sdk codec)
    (hinfos : ∀ info ∈ infos, info.validate sdk = .ok ()) (hcoins : coinsIsValid coins) (hne : coins ≠ [])
    (hstart : 0 ≤ startTime) (hlt : startTime < endTime)
    (h : addToInfos sdk coins startTime endTime infos = .ok infos') :
    ∀ info ∈ infos', info.validate sdk = .ok () := by
  have hpositive : ∀ {coins : Coins}, coinsIsValid coins → coins ≠ [] → sdk.coinsIsAllPositive coins := by
    intro coins hvalid hne
    exact (laws.isAllPositive coins).mpr ⟨hne, fun c hc => ((of_decide_eq_true hvalid).2 c hc).2⟩
  rcases addToInfos_cases h with ⟨-, rfl⟩ | ⟨before, info, after, vesting, rfl, -, -, hvesting, rfl⟩
  · intro info hinfo
    rcases List.mem_append.mp hinfo with hinfo | hinfo
    · exact hinfos info hinfo
    · obtain rfl := List.mem_singleton.mp hinfo
      exact VestingInfo.validate_eq_ok.mpr ⟨⟨hstart, hlt⟩, hcoins, hpositive hcoins hne⟩
  · have hold := VestingInfo.validate_eq_ok.mp (hinfos info (List.mem_append_right _ List.mem_cons_self))
    have hvalid := checks.add_valid hold.2.1 hcoins hvesting
    have hnonempty : vesting ≠ [] := by
      -- The sum has a coin of each denomination that was added.
      rintro rfl
      obtain ⟨c, rest, rfl⟩ := List.exists_cons_of_ne_nil hne
      have hwf := wellFormed_of_coinsIsValid hcoins
      have hsum := (laws.add (wellFormed_of_coinsIsValid hold.2.1) hwf hvesting).2 c.denom
      have hamount := amountOf_of_mem hwf.sorted (List.mem_cons_self (a := c) (l := rest))
      have hpos := ((of_decide_eq_true hcoins).2 c List.mem_cons_self).2
      have hnonneg := (wellFormed_of_coinsIsValid hold.2.1).amountOf_nonneg c.denom
      rw [amountOf_nil] at hsum
      omega
    intro info' hinfo'
    rcases List.mem_append.mp hinfo' with hinfo' | hinfo'
    · exact hinfos info' (List.mem_append_left _ hinfo')
    · rcases List.mem_cons.mp hinfo' with rfl | hinfo'
      · exact VestingInfo.validate_eq_ok.mpr ⟨hold.1, hvalid, hpositive hvalid hnonempty⟩
      · exact hinfos info' (List.mem_append_right _ (List.mem_cons_of_mem _ hinfo'))

theorem owner_depositedAccount (laws : CoinLaws sdk) {params : Params} {vesting : Duration}
    (hd : depositedAccount sdk params vesting coins a = .ok acc) : acc.owner = a.owner := by
  unfold depositedAccount at hd
  split at hd
  · obtain ⟨times, -, hd⟩ := except_bind_eq_ok.mp hd
    exact (addVestingCoins_eq_ok laws hd).2.1
  · rw [Except.ok.inj hd]

/-- A lockup of whole seconds from a start after the epoch keeps the account in order. -/
theorem InOrder.deposited (laws : CoinLaws sdk) (checks : ValidationLaws sdk codec) (h : InOrder sdk codec address a)
    {params : Params} {vesting : Duration} (hcoins : coinsIsValid coins) (hne : coins ≠ [])
    (hstart : 0 ≤ unixSeconds params.vestingStartTime) (hseconds : (10 ^ 9 : ℤ) ∣ vesting)
    (hd : depositedAccount sdk params vesting coins a = .ok acc) : InOrder sdk codec address acc := by
  have howner := owner_depositedAccount laws hd
  have hbase := baseAccount_depositedAccount laws hd
  refine ⟨by rw [howner]; exact h.owner_hex, by rw [howner]; exact h.owner_eq, by rw [hbase]; exact h.base, ?_, ?_⟩
  · rcases depositedAccount_cases laws hd with ⟨-, rfl⟩ | ⟨hpos, hinfos⟩
    · exact h.infos
    · obtain ⟨seconds, rfl⟩ := hseconds
      rw [mul_comm, unixSeconds_add_seconds] at hinfos
      exact validate_addToInfos laws checks h.infos hcoins hne hstart (by linarith) hinfos
  · rcases depositedAccount_cases laws hd with ⟨-, rfl⟩ | ⟨-, hinfos⟩
    · exact h.starts
    · exact nodup_starts_addToInfos h.starts hinfos

theorem InOrder.numbered (checks : ValidationLaws sdk codec) (h : InOrder sdk codec address a) (number : UInt64) :
    InOrder sdk codec address (a.numbered number) := by
  have howner : (a.numbered number).owner = a.owner := by cases a <;> rfl
  have hbase : (a.numbered number).baseAccount = { a.baseAccount with accountNumber := number } := by cases a <;> rfl
  refine ⟨by rw [howner]; exact h.owner_hex, by rw [howner]; exact h.owner_eq, ?_, ?_, ?_⟩
  · rw [hbase, checks.number]
    exact h.base
  · rw [a.schedules_numbered]
    exact h.infos
  · rw [a.schedules_numbered]
    exact h.starts

/-! ## Runs -/

/-- Every plain account passes the check of the SDK. -/
def PlainValid (app : App W) (codec : AccountCodec) (w : W) : Prop :=
  ∀ address b, app.modules.getAccount w address = some (.other b) → codec.validateBaseAccount b = .ok ()

/-- The account that a deposit finds or creates is in order. -/
theorem inOrder_targetAccount (checks : ValidationLaws app.sdk codec) {w : W} {ethAddress : GoString}
    (hhex : isHexAddress ethAddress) (hplain : PlainValid app codec w)
    (hall : ∀ {a}, app.modules.getAccount w (fromHex ethAddress) = some (.ethOwned a) →
      InOrder app.sdk codec (fromHex ethAddress) a) :
    InOrder app.sdk codec (fromHex ethAddress)
      (targetAccount app.sdk (app.modules.getAccount w (fromHex ethAddress)) (fromHex ethAddress) ethAddress) := by
  have hbase : ∀ b, codec.validateBaseAccount b = .ok () →
      InOrder app.sdk codec (fromHex ethAddress) (.base b ethAddress) := fun b hb =>
    ⟨hhex, rfl, hb, fun _ hinfo => absurd hinfo List.not_mem_nil, List.nodup_nil⟩
  cases haccount : app.modules.getAccount w (fromHex ethAddress) with
  | none => exact hbase _ (checks.no_key rfl)
  | some existing =>
    cases existing with
    | ethOwned a => exact hall haccount
    | other b => exact hbase b (hplain _ b haccount)

/-- A move whose lockup, if it has one, lasts whole seconds from after the epoch. -/
def Move.WholeSeconds : Move → Prop
  | .deposit params vesting _ => 0 ≤ unixSeconds params.vestingStartTime ∧ (10 ^ 9 : ℤ) ∣ vesting
  | _ => True

/-- Every owned account is in order, under its address. -/
structure OwnedInOrder (app : App W) (codec : AccountCodec) (w : W) : Prop where
  tidy : Tidy app w
  plain : PlainValid app codec w
  owned : ∀ {address a}, app.modules.getAccount w address = some (.ethOwned a) → InOrder app.sdk codec address a

/-- Steps after which the other modules have left only valid plain accounts. -/
def ValidStep (app : App W) (codec : AccountCodec) (denom : GoString) (m : Moment W) (move : Move) (m' : Moment W) : Prop :=
  LedgerStep app denom m move m' ∧ move.WholeSeconds ∧ PlainValid app codec m'.state.world

section Laws

variable {denom : GoString} {m m' : Moment W} {move : Move} {moves : List Move} (hlaw : app.sdk.Lawful)
  (laws : CoinLaws app.sdk) (checks : ValidationLaws app.sdk codec) (accounts : AccountLaws app)
  (keeps : KeepsAccounts app) (hinjective : Function.Injective app.sdk.accAddressString)

include hlaw laws checks accounts keeps hinjective

theorem OwnedInOrder.step (h : OwnedInOrder app codec m.state.world) (hstep : ValidStep app codec denom m move m') :
    OwnedInOrder app codec m'.state.world := by
  obtain ⟨hstep, hmove, hplain⟩ := hstep
  cases hstep with
  | @deposit s t time msg amount r hdenom hamount hpos hrun =>
    rcases run_handleDeposit_cases hrun with hrun | rfl
    · obtain ⟨hvalid, info, target, s₁, hsettle, hfirst⟩ :=
        run_deposit_parts laws accounts keeps hinjective h.tidy hamount hpos hrun
      have hkeeps := rel_settleDeposit hlaw keeps.bank hvalid hpos hsettle
      rcases hfirst with rfl | ⟨acc, a, hhex, -, hd, -, -, hstores, hnumber⟩
      · exact ⟨hkeeps.tidy h.tidy, hplain, fun haccount => h.owned (hkeeps.owned.mp haccount)⟩
      · refine ⟨hkeeps.tidy (hstores.tidy h.tidy), hplain, fun {address a'} haccount => ?_⟩
        have hcoins : coinsIsValid [⟨s.bridge.params.bridgeDenom, amount⟩] := by
          simp [coinsIsValid, hvalid, hpos]
        have hacc : InOrder app.sdk codec (fromHex msg.depositor) acc :=
          (inOrder_targetAccount checks hhex h.plain h.owned).deposited laws checks hcoins (by simp) hmove.1 hmove.2 hd
        have ha : InOrder app.sdk codec (fromHex msg.depositor) a := by
          rcases hnumber with rfl | ⟨number, rfl⟩
          · exact hacc
          · exact hacc.numbered checks number
        have hbefore := hkeeps.owned.mp haccount
        rw [hstores.account] at hbefore
        split_ifs at hbefore with haddress
        · cases hbefore
          rw [haddress]
          exact ha
        · exact h.owned hbefore
    · exact ⟨h.tidy, hplain, h.owned⟩
  | @other s t time time' hle haccounts hspent =>
    exact ⟨haccounts.tidy h.tidy, hplain, fun haccount => h.owned (haccounts.owned.mp haccount)⟩

/-- In every run whose lockups last whole seconds, each owned account passes its validation,
carries the address it is stored under and is owned by the Ethereum address of the same
bytes; no start occurs twice in its schedules. -/
theorem owned_accounts_valid {m₀ : Moment W} (htidy : Tidy app m₀.state.world)
    (hplain : PlainValid app codec m₀.state.world)
    (hfresh : ∀ address a, app.modules.getAccount m₀.state.world address ≠ some (.ethOwned a))
    (hrun : Runs (ValidStep app codec denom) m₀ moves m)
    (haccount : app.modules.getAccount m.state.world address = some (.ethOwned a)) :
    a.validate app.sdk codec = .ok () ∧ a.baseAccount.address = app.sdk.accAddressString address ∧
      generateSequencerAddressFromEthereumAddress app.sdk a.owner = .ok address ∧
      (a.schedules.map VestingInfo.startTime).Nodup := by
  have hstart : OwnedInOrder app codec m₀.state.world :=
    ⟨htidy, hplain, fun {address a} h => absurd h (hfresh address a)⟩
  have hinv : OwnedInOrder app codec m.state.world :=
    hrun.invariant (I := fun _ m => OwnedInOrder app codec m.state.world) hstart
      fun h hstep => h.step hlaw laws checks accounts keeps hinjective hstep
  have horder := hinv.owned haccount
  refine ⟨horder.validate, hinv.tidy _ _ haccount, ?_, horder.starts⟩
  rw [generateSequencerAddress_of_isHexAddress _ horder.owner_hex, horder.owner_eq]

end Laws

/-! ## The reference environment -/

section Reference

open Reference

theorem pos_addCoin {c : Coin} {coins : Coins} (hc : 0 < c.amount) (h : ∀ d ∈ coins, 0 < d.amount) :
    ∀ e ∈ addCoin c coins, 0 < e.amount := by
  induction coins with
  | nil =>
    intro e he
    cases List.mem_singleton.mp he
    exact hc
  | cons d coins ih =>
    obtain ⟨hd, hrest⟩ := List.forall_mem_cons.mp h
    rw [addCoin]
    split_ifs
    · refine List.forall_mem_cons.mpr ⟨?_, hrest⟩
      exact add_pos hd hc
    · exact List.forall_mem_cons.mpr ⟨hc, h⟩
    · exact List.forall_mem_cons.mpr ⟨hd, ih hrest⟩

theorem pos_addCoins {a b : Coins} (ha : ∀ c ∈ a, 0 < c.amount) (hb : ∀ c ∈ b, 0 < c.amount) :
    ∀ c ∈ addCoins a b, 0 < c.amount := by
  induction b generalizing a with
  | nil => exact ha
  | cons c b ih =>
    obtain ⟨hc, hrest⟩ := List.forall_mem_cons.mp hb
    exact ih (pos_addCoin hc ha) hrest

theorem validationLaws : ValidationLaws Reference.sdk accountCodec where
  add_valid {a b c} ha hb h := by
    obtain rfl : addCoins a b = c := Except.ok.inj h
    obtain ⟨hsorted, ha⟩ := of_decide_eq_true ha
    obtain ⟨-, hb⟩ := of_decide_eq_true hb
    have hdenoms := denoms_addCoins (fun c hc => (ha c hc).1) fun c hc => (hb c hc).1
    have hpos := pos_addCoins (fun c hc => (ha c hc).2) fun c hc => (hb c hc).2
    exact decide_eq_true ⟨sorted_addCoins hsorted b, fun c hc => ⟨hdenoms c hc, hpos c hc⟩⟩
  no_key h := if_pos h
  number b number := rfl

/-- The reference modules know no plain accounts before and after a deposit. -/
theorem plainValid_after_deposit : PlainValid Reference.app accountCodec (afterOwnDeposit 100).world := by
  have hamount : Reference.app.sdk.newIntFromString (ownDeposit 100).amount = some 100 := by
    change Reference.newIntFromString (decimal 100) = some 100
    decide +kernel
  have htrans : IsTrans Ledger (fun w w' => w'.account = w.account) := ⟨fun _ _ _ h h' => h'.trans h⟩
  obtain ⟨hdenom, info, target, s₁, hsettle, hfirst⟩ := run_deposit_parts Reference.sdk_coinLaws accountLaws
    keepsAccounts Reference.bech32String_injective (fun _ _ h => by cases h) hamount (by decide) run_ownDeposit_hundred
  have hsame := rel_settleDeposit Reference.sdk_lawful bankKeeps_account hdenom (by decide) hsettle
  intro address b hb
  rw [getAccount_reference, hsame] at hb
  rcases hfirst with rfl | ⟨acc, a, -, -, -, -, -, hstores, -⟩
  · cases hb
  · rw [← getAccount_reference, hstores.account] at hb
    split_ifs at hb <;> cases hb

theorem owned_accounts_valid_reference : lockedDepositor.validate Reference.sdk accountCodec = .ok () ∧
    generateSequencerAddressFromEthereumAddress Reference.sdk lockedDepositor.owner = .ok depositor := by
  have hlockup : lockupOf Reference.sdk (ownDeposit 100) = 100 * 10 ^ 9 := by decide +kernel
  have hseconds : (Move.deposit Reference.params (lockupOf Reference.sdk (ownDeposit 100)) 100).WholeSeconds := by
    refine ⟨by decide, ?_⟩
    rw [hlockup]
    exact Dvd.intro_left 100 rfl
  have haccount : Reference.app.modules.getAccount (afterOwnDeposit 100).world depositor =
      some (.ethOwned lockedDepositor) := by
    rw [getAccount_reference]
    exact account_after_deposit
  have hrun : Runs (ValidStep Reference.app accountCodec ufuel) ⟨Reference.state, 0⟩ _ ⟨afterOwnDeposit 100, 0⟩ :=
    Runs.single ⟨ledgerStep_hundred, hseconds, plainValid_after_deposit⟩
  -- The state is not to be evaluated from here on.
  generalize afterOwnDeposit 100 = t at haccount hrun
  obtain ⟨hvalid, -, howner, -⟩ := owned_accounts_valid Reference.sdk_lawful Reference.sdk_coinLaws validationLaws
    accountLaws keepsAccounts Reference.bech32String_injective (fun _ _ h => by cases h) (fun _ _ h => by cases h)
    (fun _ _ h => by cases h) hrun haccount
  exact ⟨hvalid, howner⟩

end Reference

end FuelSequencer.Bridge
