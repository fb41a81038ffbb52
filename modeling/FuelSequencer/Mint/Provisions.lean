import FuelSequencer.Bridge.Crediting
import FuelSequencer.Exec.Runs

/-! # The provisions of the mint module

At the beginning of each block the module mints a part of the year's provisions to the
collector of fees. The provisions are the inflation of the total supply that the bridge's
params name, not of the coins in circulation, so what is minted does not compound: as long
as the params stay, every block mints the same.
-/
namespace FuelSequencer.Mint
open Go Wire Exec Lib Bridge Wiring

variable {W : Type}

/-! ## The module -/

/-- Inflation and provisions are decimals. -/
structure Minter where
  inflation : ℤ
  annualProvisions : ℤ

structure MintParams where
  mintDenom : GoString
  inflationMax : ℤ
  inflationMin : ℤ
  blocksPerYear : UInt64

/-- What reading the module's store yields, and the state of the other modules. -/
structure MintState (W : Type) where
  minter : Except GoString Minter
  params : Except GoString MintParams
  world : W

/-- The values of the event that the module emits. -/
structure MintEvent where
  bondedRatio : ℤ
  inflation : ℤ
  annualProvisions : ℤ
  amount : ℤ
deriving DecidableEq

def mintModuleName : GoString := str "mint"
def feeCollectorName : GoString := str "fee_collector"

def Minter.nextAnnualProvisions (m : Minter) (totalSupply : ℤ) : Except GoString ℤ :=
  decMulInt m.inflation totalSupply

def Minter.blockProvision (m : Minter) (params : MintParams) : Outcome GoString Coin := do
  let provisionAmt ← panicking (decQuoInt m.annualProvisions (int64 params.blocksPerYear.toNat))
  let amount ← panicking (decTruncateInt provisionAmt)
  newCoin params.mintDenom amount

def mintCoins (modules : Modules W) (newCoins : Coins) : Prog GoString W Unit :=
  if newCoins = [] then pure () else modules.mintCoins mintModuleName newCoins

def addCollectedFees (modules : Modules W) (fees : Coins) : Prog GoString W Unit :=
  modules.sendCoinsFromModuleToModule mintModuleName feeCollectorName fees

/-- With one inflation for both bounds it is in force, otherwise the stored one is. -/
def inflationInForce (params : MintParams) (m : Minter) : ℤ :=
  if params.inflationMin = params.inflationMax then params.inflationMin else m.inflation

def onWorld (x : Prog GoString W Unit) : Prog GoString (MintState W) Unit :=
  zoom MintState.world (fun w s => { s with world := w }) x

def beginBlocker (modules : Modules W) (bridgeParams : Params) : Prog GoString (MintState W) MintEvent := do
  let s ← get
  let minter ← ofOutcome (wrapping id s.minter)
  let params ← ofOutcome (wrapping id s.params)
  let totalSupply := bridgeParams.bridgeDenomTotalSupply
  let dummyBondedRatio := 0
  let minter := { minter with inflation := inflationInForce params minter }
  let annualProvisions ← ofOutcome (panicking (minter.nextAnnualProvisions totalSupply))
  let minter := { minter with annualProvisions := annualProvisions }
  modify fun s => { s with minter := .ok minter }
  let mintedCoin ← ofOutcome (minter.blockProvision params)
  let mintedCoins ← ofOutcome (newCoins mintedCoin)
  onWorld (mintCoins modules mintedCoins)
  onWorld (addCollectedFees modules mintedCoins)
  return ⟨dummyBondedRatio, minter.inflation, minter.annualProvisions, mintedCoin.amount⟩

/-! ## One block's part of a year -/

/-- What a block mints: its part of the inflation of the supply, rounded down. -/
def provision (inflation totalSupply : ℤ) (blocksPerYear : ℕ) : ℤ :=
  inflation * totalSupply / (blocksPerYear * precisionReuse)

section Provision

variable {inflation totalSupply : ℤ} {blocks n : ℕ}

theorem provision_nonneg (hinflation : 0 ≤ inflation) (hsupply : 0 ≤ totalSupply) :
    0 ≤ provision inflation totalSupply blocks := by
  apply Int.ediv_nonneg
  · exact mul_nonneg hinflation hsupply
  · exact mul_nonneg (Int.natCast_nonneg _) (by decide)

/-- The blocks of a year mint no more than its provisions. -/
theorem provision_le (hinflation : 0 ≤ inflation) (hsupply : 0 ≤ totalSupply) (hblocks : 0 < blocks)
    (hn : n ≤ blocks) : n * provision inflation totalSupply blocks * precisionReuse ≤ inflation * totalSupply := by
  have hpos : (0 : ℤ) < blocks * precisionReuse := mul_pos (by exact_mod_cast hblocks) (by decide)
  have hnonneg : 0 ≤ provision inflation totalSupply blocks * precisionReuse :=
    mul_nonneg (provision_nonneg hinflation hsupply) (by decide)
  have hcount : (n : ℤ) ≤ blocks := by exact_mod_cast hn
  calc n * provision inflation totalSupply blocks * precisionReuse
      = n * (provision inflation totalSupply blocks * precisionReuse) := by ring
    _ ≤ blocks * (provision inflation totalSupply blocks * precisionReuse) :=
        mul_le_mul_of_nonneg_right hcount hnonneg
    _ = provision inflation totalSupply blocks * (blocks * precisionReuse) := by ring
    _ ≤ inflation * totalSupply := Int.ediv_mul_le _ hpos.ne'

/-- What they leave of them is less than one coin for each block. -/
theorem lt_provision (hblocks : 0 < blocks) : inflation * totalSupply <
    (blocks * provision inflation totalSupply blocks + blocks) * precisionReuse := by
  have hpos : (0 : ℤ) < blocks * precisionReuse := mul_pos (by exact_mod_cast hblocks) (by decide)
  have hlt := Int.lt_ediv_add_one_mul_self (inflation * totalSupply) hpos
  calc inflation * totalSupply
      < (provision inflation totalSupply blocks + 1) * (blocks * precisionReuse) := hlt
    _ = (blocks * provision inflation totalSupply blocks + blocks) * precisionReuse := by ring

end Provision

/-- Params with which the module can pay its provisions. -/
structure Payable (params : MintParams) (inflation totalSupply : ℤ) : Prop where
  denom : isValidDenom params.mintDenom
  inflation_nonneg : 0 ≤ inflation
  supply_nonneg : 0 ≤ totalSupply
  blocks_pos : 0 < params.blocksPerYear.toNat
  blocks_lt : params.blocksPerYear.toNat < 2 ^ 63
  fits : inflation * totalSupply < 2 ^ maxDecBitLen

variable {params : MintParams} {inflation totalSupply : ℤ}

theorem Payable.provision_lt (h : Payable params inflation totalSupply) :
    provision inflation totalSupply params.blocksPerYear.toNat < 2 ^ maxBitLen := by
  have hblocks : (1 : ℤ) ≤ params.blocksPerYear.toNat := by exact_mod_cast h.blocks_pos
  have hprec : (0 : ℤ) < precisionReuse := by decide
  have hpos : (0 : ℤ) < params.blocksPerYear.toNat * precisionReuse := mul_pos (by omega) hprec
  apply Int.ediv_lt_of_lt_mul hpos
  calc inflation * totalSupply < 2 ^ maxDecBitLen := h.fits
    _ = 2 ^ maxBitLen * 2 ^ 59 := pow_add 2 256 59
    _ ≤ 2 ^ maxBitLen * precisionReuse := mul_le_mul_of_nonneg_left (by decide) (by decide)
    _ ≤ 2 ^ maxBitLen * (params.blocksPerYear.toNat * precisionReuse) := by
        apply mul_le_mul_of_nonneg_left _ (by decide)
        exact le_mul_of_one_le_left hprec.le hblocks

/-- The module computes the provision, in two cuts toward zero. -/
theorem Payable.blockProvision (h : Payable params inflation totalSupply) (m : Minter)
    (hm : m.annualProvisions = inflation * totalSupply) : m.blockProvision params =
      .ok ⟨params.mintDenom, provision inflation totalSupply params.blocksPerYear.toNat⟩ := by
  have hproduct : 0 ≤ inflation * totalSupply := mul_nonneg h.inflation_nonneg h.supply_nonneg
  have hblocks : int64 params.blocksPerYear.toNat = params.blocksPerYear.toNat := by
    have hlt := h.blocks_lt
    exact int64_eq_self (by omega) (by omega)
  have hne : (params.blocksPerYear.toNat : ℤ) ≠ 0 := by
    have hpos := h.blocks_pos
    omega
  have hcut : ((inflation * totalSupply).tdiv params.blocksPerYear.toNat).tdiv precisionReuse =
      provision inflation totalSupply params.blocksPerYear.toNat := by
    rw [Int.tdiv_eq_ediv_of_nonneg hproduct, Int.tdiv_eq_ediv_of_nonneg (Int.ediv_nonneg hproduct (by omega)),
      Int.ediv_ediv_of_nonneg (by omega)]
    rfl
  have hnonneg : 0 ≤ provision inflation totalSupply params.blocksPerYear.toNat :=
    provision_nonneg h.inflation_nonneg h.supply_nonneg
  have hlt := h.provision_lt
  have htruncated : decTruncateInt ((inflation * totalSupply).tdiv params.blocksPerYear.toNat) =
      .ok (provision inflation totalSupply params.blocksPerYear.toNat) := by
    unfold decTruncateInt
    dsimp only
    rw [hcut, if_pos]
    rw [← Int.natAbs_of_nonneg hnonneg] at hlt
    exact_mod_cast hlt
  rw [Minter.blockProvision, hm, hblocks, decQuoInt, if_neg hne]
  change (panicking (decTruncateInt ((inflation * totalSupply).tdiv params.blocksPerYear.toNat)) >>= _) = _
  rw [htruncated]
  exact newCoin_eq_ok.mpr ⟨h.denom, hnonneg, rfl⟩

/-! ## The beginning of a block -/

theorem mint_zero (m : Money) (address : Bytes) (denom : GoString) : m.mint address denom 0 = m := by
  simp [Money.mint, Money.credit]

/-- What the bank does for the module with the coins of one denom. -/
structure ProvisionLaws (modules : Modules W) : Prop where
  mint : ∀ {denom : GoString} {amount : ℤ} {w w' : W},
    (modules.mintCoins mintModuleName [⟨denom, amount⟩]).run w = .ok () w' →
      moneyOf modules w' = (moneyOf modules w).mint (modules.moduleAddress mintModuleName) denom amount
  mint_ok : ∀ {denom : GoString} {amount : ℤ} {w : W}, isValidDenom denom → 0 < amount →
    0 ≤ modules.getSupply w denom → modules.getSupply w denom + amount < 2 ^ maxBitLen →
      ∃ w', (modules.mintCoins mintModuleName [⟨denom, amount⟩]).run w = .ok () w'
  collect : ∀ {denom : GoString} {amount : ℤ} {w w' : W},
    (modules.sendCoinsFromModuleToModule mintModuleName feeCollectorName [⟨denom, amount⟩]).run w = .ok () w' →
      moneyOf modules w' = (moneyOf modules w).move (modules.moduleAddress mintModuleName)
        (modules.moduleAddress feeCollectorName) denom amount
  collect_ok : ∀ {denom : GoString} {amount : ℤ} {w : W}, 0 < amount →
    amount ≤ modules.getBalance w (modules.moduleAddress mintModuleName) denom →
      ∃ w', (modules.sendCoinsFromModuleToModule mintModuleName feeCollectorName [⟨denom, amount⟩]).run w = .ok () w'
  /-- No coins are no transfer. -/
  collect_nil : ∀ w : W, (modules.sendCoinsFromModuleToModule mintModuleName feeCollectorName []).run w = .ok () w

variable {modules : Modules W} {bridgeParams : Params} {s t : MintState W} {minter : Minter} {event : MintEvent}

/-- What a block mints with the params and the minter. -/
def blockAmount (params : MintParams) (minter : Minter) (bridgeParams : Params) : ℤ :=
  provision (inflationInForce params minter) bridgeParams.bridgeDenomTotalSupply params.blocksPerYear.toNat

/-- The minter with the inflation in force and the year's provisions. -/
def minterOf (params : MintParams) (minter : Minter) (bridgeParams : Params) : Minter :=
  ⟨inflationInForce params minter, inflationInForce params minter * bridgeParams.bridgeDenomTotalSupply⟩

theorem nextAnnualProvisions_eq {m : Minter} (hnonneg : 0 ≤ m.inflation * totalSupply)
    (hfits : m.inflation * totalSupply < 2 ^ maxDecBitLen) :
    m.nextAnnualProvisions totalSupply = .ok (m.inflation * totalSupply) := by
  have hsmall : (m.inflation * totalSupply).natAbs < 2 ^ maxDecBitLen := by
    rw [← Int.natAbs_of_nonneg hnonneg] at hfits
    exact_mod_cast hfits
  rw [Minter.nextAnnualProvisions, decMulInt, if_pos hsmall]

theorem run_onWorld_eq_ok {x : Prog GoString W Unit} {u : Unit} :
    (onWorld x).run s = .ok u t ↔ ∃ w, x.run s.world = .ok () w ∧ t = { s with world := w } := by
  cases h : x.run s.world with
  | ok a w =>
    rw [onWorld, run_zoom_of_ok h]
    simp [eq_comm]
  | error e w =>
    rw [onWorld, run_zoom_of_error h]
    simp

theorem run_store_eq_ok {m : Minter} {u : PUnit} :
    (modify fun s : MintState W => { s with minter := .ok m } : Prog GoString (MintState W) PUnit).run s = .ok u t ↔
      t = { s with minter := .ok m } := by
  change EStateM.Result.ok PUnit.unit _ = _ ↔ _
  simp [eq_comm]

/-- With params that can be paid, the module stores the year's provisions and pays its part of them. -/
theorem run_beginBlocker_eq_ok (hminter : s.minter = .ok minter) (hparams : s.params = .ok params)
    (h : Payable params (inflationInForce params minter) bridgeParams.bridgeDenomTotalSupply) :
    (beginBlocker modules bridgeParams).run s = .ok event t ↔
      event = ⟨0, (minterOf params minter bridgeParams).inflation,
        (minterOf params minter bridgeParams).annualProvisions, blockAmount params minter bridgeParams⟩ ∧
      ∃ coins w₁ w₂, newCoins ⟨params.mintDenom, blockAmount params minter bridgeParams⟩ = .ok coins ∧
        (mintCoins modules coins).run s.world = .ok () w₁ ∧ (addCollectedFees modules coins).run w₁ = .ok () w₂ ∧
        t = ⟨.ok (minterOf params minter bridgeParams), s.params, w₂⟩ := by
  have hnext : Minter.nextAnnualProvisions ⟨inflationInForce params minter, minter.annualProvisions⟩
      bridgeParams.bridgeDenomTotalSupply =
        .ok (inflationInForce params minter * bridgeParams.bridgeDenomTotalSupply) :=
    nextAnnualProvisions_eq (mul_nonneg h.inflation_nonneg h.supply_nonneg) h.fits
  have hprovision : Minter.blockProvision ⟨inflationInForce params minter,
      inflationInForce params minter * bridgeParams.bridgeDenomTotalSupply⟩ params =
        .ok ⟨params.mintDenom, blockAmount params minter bridgeParams⟩ := h.blockProvision _ rfl
  simp only [beginBlocker, run_bind_eq_ok, run_get_eq_ok, run_ofOutcome_eq_ok, wrapping_eq_ok, panicking_eq_ok,
    run_store_eq_ok, run_onWorld_eq_ok, run_pure_eq_ok]
  constructor
  · rintro ⟨_, _, ⟨rfl, rfl⟩, m, _, ⟨hm, rfl⟩, p, _, ⟨hp, rfl⟩, provisions, _, ⟨hprovisions, rfl⟩, _, _, rfl, coin, _,
      ⟨hcoin, rfl⟩, coins, _, ⟨hcoins, rfl⟩, _, _, ⟨w₁, hmint, rfl⟩, _, _, ⟨w₂, hsend, rfl⟩, hevent, rfl⟩
    cases hminter.symm.trans hm
    cases hparams.symm.trans hp
    cases hnext.symm.trans hprovisions
    cases hprovision.symm.trans hcoin
    exact ⟨hevent.symm, coins, w₁, w₂, hcoins, hmint, hsend, rfl⟩
  · rintro ⟨rfl, coins, w₁, w₂, hcoins, hmint, hsend, rfl⟩
    exact ⟨_, _, ⟨rfl, rfl⟩, minter, _, ⟨hminter, rfl⟩, params, _, ⟨hparams, rfl⟩, _, _, ⟨hnext, rfl⟩, ⟨⟩, _, rfl, _, _,
      ⟨hprovision, rfl⟩, coins, _, ⟨hcoins, rfl⟩, (), _, ⟨w₁, hmint, rfl⟩, (), _, ⟨w₂, hsend, rfl⟩, rfl, rfl⟩

/-- The amount goes to the collector of fees, and it is new supply. -/
theorem money_of_payment (laws : ProvisionLaws modules) {denom : GoString} {amount : ℤ} {coins : Coins} {w w₁ w₂ : W}
    (hcoins : newCoins ⟨denom, amount⟩ = .ok coins) (hmint : (mintCoins modules coins).run w = .ok () w₁)
    (hsend : (addCollectedFees modules coins).run w₁ = .ok () w₂) :
    moneyOf modules w₂ = (moneyOf modules w).mint (modules.moduleAddress feeCollectorName) denom amount := by
  unfold newCoins at hcoins
  dsimp only at hcoins
  split at hcoins
  · next hzero =>
    cases hcoins
    obtain ⟨-, rfl⟩ := run_pure_eq_ok.mp hmint
    cases (laws.collect_nil w₁).symm.trans hsend
    rw [hzero, mint_zero]
  · obtain ⟨_, -, hcoins⟩ := except_bind_eq_ok.mp hcoins
    cases hcoins
    rw [laws.collect hsend, laws.mint hmint, Money.move_mint]

/-- A payment that the supply has room for is made. -/
theorem exists_payment (laws : ProvisionLaws modules) {denom : GoString} {amount : ℤ} {w : W}
    (hdenom : isValidDenom denom) (hamount : 0 ≤ amount) (hsupply : 0 ≤ modules.getSupply w denom)
    (hroom : modules.getSupply w denom + amount < 2 ^ maxBitLen)
    (hbalance : 0 ≤ modules.getBalance w (modules.moduleAddress mintModuleName) denom) :
    ∃ coins w₁ w₂, newCoins ⟨denom, amount⟩ = .ok coins ∧ (mintCoins modules coins).run w = .ok () w₁ ∧
      (addCollectedFees modules coins).run w₁ = .ok () w₂ := by
  rcases hamount.eq_or_lt with hzero | hpos
  · exact ⟨[], w, w, if_pos hzero.symm, rfl, laws.collect_nil w⟩
  · obtain ⟨w₁, hmint⟩ := laws.mint_ok hdenom hpos hsupply hroom
    have hmoney := congrArg (fun m => m.balance (modules.moduleAddress mintModuleName) denom) (laws.mint hmint)
    have hle : amount ≤ modules.getBalance w₁ (modules.moduleAddress mintModuleName) denom := by
      simp only [moneyOf, Money.mint, Money.credit, and_self, if_true] at hmoney
      omega
    obtain ⟨w₂, hsend⟩ := laws.collect_ok hpos hle
    exact ⟨_, w₁, w₂, newCoins_of_pos hdenom hpos, hmint, hsend⟩

/-! ## Runs -/

inductive MintLabel where
  | begun (event : MintEvent)
  /-- The rest of a block. -/
  | between

/-- Only the module writes its minter. -/
inductive MintStep (modules : Modules W) (bridgeParams : Params) : MintState W → MintLabel → MintState W → Prop
  | begun {s t : MintState W} {event : MintEvent} (h : (beginBlocker modules bridgeParams).run s = .ok event t) :
      MintStep modules bridgeParams s (.begun event) t
  | between {s : MintState W} {w : W} : MintStep modules bridgeParams s .between { s with world := w }

def MintLabel.amount : MintLabel → Option ℤ
  | .begun event => some event.amount
  | .between => none

/-- What the blocks of a run minted. -/
def amounts (ls : List MintLabel) : List ℤ := ls.filterMap MintLabel.amount

theorem inflationInForce_minterOf (params : MintParams) (minter : Minter) (bridgeParams : Params) :
    inflationInForce params (minterOf params minter bridgeParams) = inflationInForce params minter := by
  unfold inflationInForce minterOf
  by_cases h : params.inflationMin = params.inflationMax
  · rw [if_pos h, if_pos h]
  · rw [if_neg h, if_neg h]
    exact if_neg h

theorem blockAmount_congr {m : Minter} (bridgeParams : Params)
    (h : inflationInForce params m = inflationInForce params minter) :
    blockAmount params m bridgeParams = blockAmount params minter bridgeParams := by
  rw [blockAmount, h]
  rfl

/-- Along a run the inflation in force stays what it was, and so does the amount of a block. -/
structure Steady (params : MintParams) (minter : Minter) (bridgeParams : Params) (ls : List MintLabel)
    (t : MintState W) : Prop where
  params_eq : t.params = .ok params
  minter_eq : ∃ m, t.minter = .ok m ∧ inflationInForce params m = inflationInForce params minter
  amounts_eq : amounts ls = List.replicate (amounts ls).length (blockAmount params minter bridgeParams)

theorem Steady.step {ls : List MintLabel} {l : MintLabel} {u : MintState W}
    (hpayable : Payable params (inflationInForce params minter) bridgeParams.bridgeDenomTotalSupply)
    (h : Steady params minter bridgeParams ls t) (hstep : MintStep modules bridgeParams t l u) :
    Steady params minter bridgeParams (ls ++ [l]) u := by
  obtain ⟨m, hm, hforce⟩ := h.minter_eq
  cases hstep with
  | between =>
    have hsame : amounts (ls ++ [.between]) = amounts ls := by simp [amounts, MintLabel.amount]
    exact ⟨h.params_eq, ⟨m, hm, hforce⟩, by rw [hsame]; exact h.amounts_eq⟩
  | begun hrun =>
    rw [← hforce] at hpayable
    obtain ⟨rfl, coins, w₁, w₂, -, -, -, rfl⟩ := (run_beginBlocker_eq_ok hm h.params_eq hpayable).mp hrun
    refine ⟨h.params_eq, ⟨_, rfl, (inflationInForce_minterOf _ _ _).trans hforce⟩, ?_⟩
    have hamount := blockAmount_congr bridgeParams hforce
    have hsnoc : ∀ event : MintEvent, amounts (ls ++ [.begun event]) = amounts ls ++ [event.amount] := by
      intro event
      simp [amounts, MintLabel.amount]
    rw [hsnoc, List.length_append, List.length_singleton, List.replicate_succ', ← h.amounts_eq, hamount]

/-- While the params stay, and whatever happens between the beginnings of blocks: every block mints
the same amount, those of a year together at most the year's provisions and less than one coin for
each block below them; and the next block does mint the amount, to the collector of fees, if the
supply has room for it. -/
theorem yearly_provisions (laws : ProvisionLaws modules) (hminter : s.minter = .ok minter)
    (hparams : s.params = .ok params)
    (hpayable : Payable params (inflationInForce params minter) bridgeParams.bridgeDenomTotalSupply)
    {ls : List MintLabel} (hrun : Runs (MintStep modules bridgeParams) s ls t) :
    (∀ amount ∈ amounts ls, amount = blockAmount params minter bridgeParams) ∧
    ((amounts ls).length ≤ params.blocksPerYear.toNat → (amounts ls).sum * precisionReuse ≤
      inflationInForce params minter * bridgeParams.bridgeDenomTotalSupply) ∧
    ((amounts ls).length = params.blocksPerYear.toNat →
      inflationInForce params minter * bridgeParams.bridgeDenomTotalSupply <
        ((amounts ls).sum + params.blocksPerYear.toNat) * precisionReuse) ∧
    (0 ≤ modules.getSupply t.world params.mintDenom →
      modules.getSupply t.world params.mintDenom + blockAmount params minter bridgeParams < 2 ^ maxBitLen →
      0 ≤ modules.getBalance t.world (modules.moduleAddress mintModuleName) params.mintDenom →
      ∃ event u, (beginBlocker modules bridgeParams).run t = .ok event u ∧
        moneyOf modules u.world = (moneyOf modules t.world).mint (modules.moduleAddress feeCollectorName)
          params.mintDenom (blockAmount params minter bridgeParams)) := by
  have hsteady : Steady params minter bridgeParams ls t := by
    refine hrun.invariant (I := Steady params minter bridgeParams) ?_ fun h hstep => h.step hpayable hstep
    exact ⟨hparams, ⟨minter, hminter, rfl⟩, rfl⟩
  have hsum : (amounts ls).sum = (amounts ls).length * blockAmount params minter bridgeParams := by
    have hconst := congrArg List.sum hsteady.amounts_eq
    rwa [List.sum_replicate, nsmul_eq_mul] at hconst
  refine ⟨?_, fun hle => ?_, fun hyear => ?_, fun hsupply hroom hbalance => ?_⟩
  · intro amount hmem
    rw [hsteady.amounts_eq] at hmem
    exact List.eq_of_mem_replicate hmem
  · rw [hsum]
    exact provision_le hpayable.inflation_nonneg hpayable.supply_nonneg hpayable.blocks_pos hle
  · rw [hsum, hyear]
    exact lt_provision hpayable.blocks_pos
  · obtain ⟨m, hm, hforce⟩ := hsteady.minter_eq
    have hamount := blockAmount_congr bridgeParams hforce
    have hnonneg : 0 ≤ blockAmount params minter bridgeParams :=
      provision_nonneg hpayable.inflation_nonneg hpayable.supply_nonneg
    obtain ⟨coins, w₁, w₂, hcoins, hmint, hsend⟩ :=
      exists_payment laws hpayable.denom hnonneg hsupply hroom hbalance
    have hmoney := money_of_payment laws hcoins hmint hsend
    rw [← hforce] at hpayable
    rw [← hamount] at hcoins
    exact ⟨_, _, (run_beginBlocker_eq_ok hm hsteady.params_eq hpayable).mpr
      ⟨rfl, coins, w₁, w₂, hcoins, hmint, hsend, rfl⟩, hmoney⟩

theorem provisionLaws : ProvisionLaws Reference.modules where
  mint h := (bankLaws.mint h).1
  mint_ok {denom amount w} _ hamount hsupply hlt := by
    refine ⟨_, run_forCoins_single.mpr (if_pos ?_)⟩
    change (w.supply denom + amount).natAbs < 2 ^ maxBitLen
    change 0 ≤ w.supply denom at hsupply
    change w.supply denom + amount < 2 ^ maxBitLen at hlt
    rw [← Int.natAbs_of_nonneg (by omega : 0 ≤ w.supply denom + amount)] at hlt
    exact_mod_cast hlt
  collect h := (transfer_eq_ok (run_forCoins_single.mp h)).1
  collect_ok _ hle := ⟨_, run_forCoins_single.mpr (if_pos hle)⟩
  collect_nil _ := rfl

/-- Five percent a year, in blocks of five seconds. -/
def referenceParams : MintParams := ⟨Reference.ufuel, 5 * 10 ^ 16, 5 * 10 ^ 16, 6311520⟩

def referenceMinter : Minter := ⟨13 * 10 ^ 16, 0⟩

def referenceMint : MintState Reference.Ledger := ⟨.ok referenceMinter, .ok referenceParams, Reference.ledger⟩

def referenceEvent : MintEvent := ⟨0, 5 * 10 ^ 16, 5 * 10 ^ 34, 7922021953⟩

theorem referenceParams_payable : Payable referenceParams (inflationInForce referenceParams referenceMinter)
    Reference.params.bridgeDenomTotalSupply where
  denom := by decide +kernel
  inflation_nonneg := by decide
  supply_nonneg := by decide
  blocks_pos := by decide
  blocks_lt := by decide
  fits := by decide +kernel

theorem yearly_provisions_reference : ∃ t,
    Runs (MintStep Reference.modules Reference.params) referenceMint [.begun referenceEvent, .between] t ∧
      ∃ event u, (beginBlocker Reference.modules Reference.params).run t = .ok event u ∧
        moneyOf Reference.modules u.world = (moneyOf Reference.modules Reference.ledger).mint
          (Reference.modules.moduleAddress feeCollectorName) Reference.ufuel 7922021953 := by
  have hbegun := eq_ok_of_value (by decide +kernel : value ((beginBlocker Reference.modules
    Reference.params).run referenceMint) = some referenceEvent)
  have hrun := (Runs.single (MintStep.begun hbegun)).snoc (MintStep.between (w := Reference.ledger))
  have hamount : blockAmount referenceParams referenceMinter Reference.params = 7922021953 := by decide
  have hpaid := (yearly_provisions provisionLaws rfl rfl referenceParams_payable hrun).2.2.2
  rw [hamount] at hpaid
  exact ⟨_, hrun, hpaid (by decide) (by decide) (by decide)⟩

end FuelSequencer.Mint
