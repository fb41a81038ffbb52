import FuelSequencer.App.Reference
import FuelSequencer.Bridge.Vesting

/-! # The schedules of an account

Whatever its type, an account locks what its schedules have not released yet. Original,
released and locked amounts are sums over the schedules, one denomination at a time.
-/
namespace FuelSequencer.Bridge
open Go Wire Exec Lib Wiring

/-- A continuous vesting account has one schedule. -/
def EthOwnedAccount.schedules : EthOwnedAccount → List VestingInfo
  | .base _ _ => []
  | .continuousVesting account _ => [⟨account.originalVesting, account.startTime, account.endTime⟩]
  | .multiContinuousVesting _ infos _ => infos

namespace VestingInfo

def original (info : VestingInfo) (denom : GoString) : ℤ := amountOf info.originalVesting denom

/-- What the schedule has released of a denomination at a second. -/
def vested (info : VestingInfo) (denom : GoString) (now : ℤ) : ℤ :=
  released (info.original denom) info.startTime info.endTime now

def unvested (info : VestingInfo) (denom : GoString) (now : ℤ) : ℤ :=
  info.original denom - info.vested denom now

end VestingInfo

/-- A quantity of each schedule, added up. -/
def total (infos : List VestingInfo) (quantity : VestingInfo → ℤ) : ℤ := (infos.map quantity).sum

/-- The coins of every schedule are well formed. -/
def Sound (infos : List VestingInfo) : Prop := ∀ info ∈ infos, WellFormed info.originalVesting

variable {sdk : Sdk} {infos : List VestingInfo} {info : VestingInfo} {coins : Coins} {denom : GoString}
  {now : ℤ} {blockTime : Time} {a : EthOwnedAccount}

@[simp] theorem total_nil (quantity : VestingInfo → ℤ) : total [] quantity = 0 := rfl

@[simp] theorem total_cons (info : VestingInfo) (infos : List VestingInfo) (quantity : VestingInfo → ℤ) :
    total (info :: infos) quantity = quantity info + total infos quantity := rfl

theorem total_mono {f g : VestingInfo → ℤ} (h : ∀ info ∈ infos, f info ≤ g info) :
    total infos f ≤ total infos g := List.sum_le_sum h

theorem total_congr {f g : VestingInfo → ℤ} (h : ∀ info ∈ infos, f info = g info) :
    total infos f = total infos g := congrArg List.sum (List.map_congr_left h)

theorem total_nonneg {f : VestingInfo → ℤ} (h : ∀ info ∈ infos, 0 ≤ f info) : 0 ≤ total infos f := by
  refine List.sum_nonneg fun x hx => ?_
  obtain ⟨info, hinfo, rfl⟩ := List.mem_map.mp hx
  exact h info hinfo

theorem le_total {f : VestingInfo → ℤ} (h : ∀ info ∈ infos, 0 ≤ f info) (hinfo : info ∈ infos) :
    f info ≤ total infos f := by
  refine List.single_le_sum (fun x hx => ?_) _ (List.mem_map_of_mem hinfo)
  obtain ⟨info', hinfo', rfl⟩ := List.mem_map.mp hx
  exact h info' hinfo'

theorem total_unvested (infos : List VestingInfo) (denom : GoString) (now : ℤ) :
    total infos (·.unvested denom now) = total infos (·.original denom) - total infos (·.vested denom now) := by
  induction infos with
  | nil => rfl
  | cons info infos ih =>
    rw [total_cons, total_cons, total_cons, ih, VestingInfo.unvested]
    ring

namespace Sound

theorem original_nonneg (h : Sound infos) (denom : GoString) : ∀ info ∈ infos, 0 ≤ info.original denom :=
  fun info hinfo => (h info hinfo).amountOf_nonneg denom

theorem vested_bounds (h : Sound infos) (denom : GoString) (now : ℤ) :
    0 ≤ total infos (·.vested denom now) ∧
      total infos (·.vested denom now) ≤ total infos (·.original denom) :=
  ⟨total_nonneg fun info hinfo => (released_bounds (h.original_nonneg denom info hinfo)).1,
    total_mono fun info hinfo => (released_bounds (h.original_nonneg denom info hinfo)).2⟩

theorem vested_mono (h : Sound infos) (denom : GoString) {now' : ℤ} (hle : now ≤ now') :
    total infos (·.vested denom now) ≤ total infos (·.vested denom now') :=
  total_mono fun info hinfo => released_mono_time (h.original_nonneg denom info hinfo) hle

theorem unvested_nonneg (h : Sound infos) (denom : GoString) (now : ℤ) :
    ∀ info ∈ infos, 0 ≤ info.unvested denom now :=
  fun info hinfo => sub_nonneg.mpr (released_bounds (h.original_nonneg denom info hinfo)).2

theorem unvested_anti (h : Sound infos) (denom : GoString) {now' : ℤ} (hle : now ≤ now') :
    total infos (·.unvested denom now') ≤ total infos (·.unvested denom now) := by
  rw [total_unvested, total_unvested]
  exact sub_le_sub_left (h.vested_mono denom hle) _

end Sound

/-! ## The sums the program computes -/

section Sums

variable {part : VestingInfo → Outcome GoString Coins} {amount : VestingInfo → GoString → ℤ} {acc result : Coins}

/-- The part of a schedule is well formed and holds the amounts. -/
def Yields (part : VestingInfo → Outcome GoString Coins) (amount : VestingInfo → GoString → ℤ)
    (info : VestingInfo) : Prop :=
  ∀ coins, part info = .ok coins → WellFormed coins ∧ ∀ denom, amountOf coins denom = amount info denom

theorem foldlM_sum_spec (laws : CoinLaws sdk) (hpart : ∀ info ∈ infos, Yields part amount info)
    (hacc : WellFormed acc)
    (h : infos.foldlM (fun total info => do
      let coins ← part info
      panicking (sdk.coinsAdd total coins)) acc = .ok result) :
    WellFormed result ∧ ∀ denom, amountOf result denom = amountOf acc denom + total infos (amount · denom) := by
  induction infos generalizing acc with
  | nil =>
    obtain rfl := Except.ok.inj h
    exact ⟨hacc, fun denom => (add_zero _).symm⟩
  | cons info infos ih =>
    rw [List.foldlM_cons] at h
    obtain ⟨next, hnext, h⟩ := except_bind_eq_ok.mp h
    obtain ⟨coins, hcoins, hadd⟩ := except_bind_eq_ok.mp hnext
    obtain ⟨hwf, hamount⟩ := hpart info List.mem_cons_self coins hcoins
    obtain ⟨hsum, hsums⟩ := laws.add hacc hwf (panicking_eq_ok.mp hadd)
    obtain ⟨hresult, hresults⟩ := ih (fun i hi => hpart i (List.mem_cons_of_mem _ hi)) hsum h
    refine ⟨hresult, fun denom => ?_⟩
    rw [hresults, hsums, hamount, total_cons, add_assoc]

theorem sumCoins_spec (laws : CoinLaws sdk) (hpart : ∀ info ∈ infos, Yields part amount info)
    (h : sumCoins sdk part infos = .ok result) :
    WellFormed result ∧ ∀ denom, amountOf result denom = total infos (amount · denom) := by
  obtain ⟨hresult, hamounts⟩ := foldlM_sum_spec laws hpart .nil h
  exact ⟨hresult, fun denom => by rw [hamounts, amountOf_nil, zero_add]⟩

theorem foldlM_sum_ok (laws : CoinLaws sdk) (hpart : ∀ info ∈ infos, Yields part amount info)
    (hok : ∀ info ∈ infos, ∃ coins, part info = .ok coins)
    (hnonneg : ∀ info ∈ infos, ∀ denom, 0 ≤ amount info denom) (hacc : WellFormed acc)
    (hfits : ∀ denom, amountOf acc denom + total infos (amount · denom) < 2 ^ maxBitLen) :
    ∃ result, infos.foldlM (fun total info => do
      let coins ← part info
      panicking (sdk.coinsAdd total coins)) acc = .ok result := by
  induction infos generalizing acc with
  | nil => exact ⟨acc, rfl⟩
  | cons info infos ih =>
    have hrest : ∀ denom, 0 ≤ total infos (amount · denom) := fun denom =>
      total_nonneg fun i hi => hnonneg i (List.mem_cons_of_mem _ hi) denom
    obtain ⟨coins, hcoins⟩ := hok info List.mem_cons_self
    obtain ⟨hwf, hamount⟩ := hpart info List.mem_cons_self coins hcoins
    have hfirst : ∀ denom, amountOf acc denom + amountOf coins denom < 2 ^ maxBitLen := fun denom => by
      have hall := hfits denom
      rw [total_cons] at hall
      rw [hamount]
      linarith [hrest denom]
    obtain ⟨next, hadd⟩ := laws.add_ok hacc hwf hfirst
    obtain ⟨hsum, hsums⟩ := laws.add hacc hwf hadd
    obtain ⟨result, hresult⟩ := ih (fun i hi => hpart i (List.mem_cons_of_mem _ hi))
      (fun i hi => hok i (List.mem_cons_of_mem _ hi)) (fun i hi => hnonneg i (List.mem_cons_of_mem _ hi))
      hsum fun denom => by
        rw [hsums, hamount, add_assoc, ← total_cons info infos (amount · denom)]
        exact hfits denom
    refine ⟨result, ?_⟩
    rw [List.foldlM_cons, hcoins, ok_bind, panicking_eq_ok.mpr hadd, ok_bind, hresult]

theorem sumCoins_ok (laws : CoinLaws sdk) (hpart : ∀ info ∈ infos, Yields part amount info)
    (hok : ∀ info ∈ infos, ∃ coins, part info = .ok coins)
    (hnonneg : ∀ info ∈ infos, ∀ denom, 0 ≤ amount info denom)
    (hfits : ∀ denom, total infos (amount · denom) < 2 ^ maxBitLen) :
    ∃ result, sumCoins sdk part infos = .ok result :=
  foldlM_sum_ok laws hpart hok hnonneg .nil fun denom => by
    rw [amountOf_nil, zero_add]
    exact hfits denom

end Sums

/-! ## Coins of a multi account -/

namespace EthOwnedMultiContinuousVestingAccount

theorem yields_original (hsound : Sound infos) :
    ∀ info ∈ infos, Yields (fun info => .ok info.originalVesting) VestingInfo.original info := by
  rintro info hinfo _ ⟨⟩
  exact ⟨hsound info hinfo, fun _ => rfl⟩

theorem yields_vested (hsound : Sound infos) (blockTime : Time) :
    ∀ info ∈ infos, Yields (·.getVestedCoins blockTime) (·.vested · (unixSeconds blockTime)) info :=
  fun info hinfo _ h => vestedCoins_spec (hsound info hinfo) h

theorem getVestingCoins_spec (laws : CoinLaws sdk) (hsound : Sound infos)
    (h : getVestingCoins sdk infos blockTime = .ok coins) :
    WellFormed coins ∧
      ∀ denom, amountOf coins denom = total infos (·.unvested denom (unixSeconds blockTime)) := by
  obtain ⟨original, horiginal, h⟩ := except_bind_eq_ok.mp h
  obtain ⟨vested, hvested, h⟩ := except_bind_eq_ok.mp h
  obtain ⟨howf, hoamount⟩ := sumCoins_spec laws (yields_original hsound) horiginal
  obtain ⟨hvwf, hvamount⟩ := sumCoins_spec laws (yields_vested hsound blockTime) hvested
  obtain ⟨hwf, hamount⟩ := laws.sub howf hvwf (panicking_eq_ok.mp h)
  exact ⟨hwf, fun denom => by rw [hamount, hoamount, hvamount, total_unvested]⟩

variable (hsound : Sound infos) (hfits : ∀ denom, FitsDec (total infos (·.original denom)))

include hsound hfits

theorem getOriginalVesting_ok (laws : CoinLaws sdk) :
    ∃ original, getOriginalVesting sdk infos = .ok original :=
  sumCoins_ok laws (yields_original hsound) (fun info _ => ⟨info.originalVesting, rfl⟩)
    (fun info hinfo denom => hsound.original_nonneg denom info hinfo) fun denom => (hfits denom).lt

/-- Each coin is at most the total of its denomination. -/
theorem fitsDec_coin : ∀ info ∈ infos, ∀ c ∈ info.originalVesting, FitsDec c.amount := by
  intro info hinfo c hc
  refine (hfits c.denom).mono ?_
  rw [← amountOf_of_mem (hsound info hinfo).sorted hc]
  exact le_total (f := (·.original c.denom)) (hsound.original_nonneg c.denom) hinfo

theorem getVestedCoins_ok (laws : CoinLaws sdk) (blockTime : Time) :
    ∃ vested, getVestedCoins sdk infos blockTime = .ok vested := by
  refine sumCoins_ok laws (yields_vested hsound blockTime) (fun info hinfo => ?_) (fun info hinfo denom => ?_)
    fun denom => ?_
  · exact vestedCoins_ok (hsound info hinfo) (fitsDec_coin hsound hfits info hinfo) _ _ blockTime
  · exact (released_bounds (hsound.original_nonneg denom info hinfo)).1
  · exact (hsound.vested_bounds denom _).2.trans_lt (hfits denom).lt

theorem getVestingCoins_ok (laws : CoinLaws sdk) (blockTime : Time) :
    ∃ vesting, getVestingCoins sdk infos blockTime = .ok vesting := by
  obtain ⟨original, horiginal⟩ := getOriginalVesting_ok hsound hfits laws
  obtain ⟨vested, hvested⟩ := getVestedCoins_ok hsound hfits laws blockTime
  obtain ⟨howf, hoamount⟩ := sumCoins_spec laws (yields_original hsound) horiginal
  obtain ⟨hvwf, hvamount⟩ := sumCoins_spec laws (yields_vested hsound blockTime) hvested
  obtain ⟨vesting, hvesting⟩ := laws.sub_ok howf hvwf (fun denom => hoamount denom ▸ (hfits denom).lt)
    fun denom => by
      rw [hoamount, hvamount]
      exact (hsound.vested_bounds denom _).2
  refine ⟨vesting, ?_⟩
  rw [getVestingCoins, horiginal, ok_bind, hvested, ok_bind, panicking_eq_ok.mpr hvesting]

end EthOwnedMultiContinuousVestingAccount

/-! ## Schedules that pass their validation -/

theorem VestingInfo.validate_eq_ok {u : Unit} :
    info.validate sdk = .ok u ↔ (0 ≤ info.startTime ∧ info.startTime < info.endTime) ∧
      coinsIsValid info.originalVesting ∧ sdk.coinsIsAllPositive info.originalVesting := by
  simp only [VestingInfo.validate, except_bind_eq_ok, failIf_eq_ok, exists_const, not_lt, not_or, not_not,
    ge_iff_le, not_le, and_assoc]

theorem sound_of_validate (h : ∀ info ∈ infos, info.validate sdk = .ok ()) : Sound infos :=
  fun info hinfo => wellFormed_of_coinsIsValid (VestingInfo.validate_eq_ok.mp (h info hinfo)).2.1

theorem lt_of_validate (h : info.validate sdk = .ok ()) : info.startTime < info.endTime :=
  (VestingInfo.validate_eq_ok.mp h).1.2

open EthOwnedMultiContinuousVestingAccount in
/-- The schedules of a multi account release its coins without loss: what is vested and
what is vesting is the original amount at every time, and vested coins stay vested. -/
theorem vested_and_vesting (laws : CoinLaws sdk) (hvalid : ∀ info ∈ infos, info.validate sdk = .ok ())
    (hfits : ∀ denom, FitsDec (total infos (·.original denom))) (blockTime : Time) :
    ∃ original vested vesting, getOriginalVesting sdk infos = .ok original ∧
      getVestedCoins sdk infos blockTime = .ok vested ∧ getVestingCoins sdk infos blockTime = .ok vesting ∧
      ∀ denom, amountOf original denom = total infos (·.original denom) ∧
        (0 ≤ amountOf vested denom ∧ amountOf vested denom ≤ amountOf original denom) ∧
        amountOf vested denom + amountOf vesting denom = amountOf original denom ∧
        (∀ later vested', blockTime ≤ later → getVestedCoins sdk infos later = .ok vested' →
          amountOf vested denom ≤ amountOf vested' denom) ∧
        ((∀ info ∈ infos, unixSeconds blockTime ≤ info.startTime) → amountOf vested denom = 0) ∧
        ((∀ info ∈ infos, info.endTime ≤ unixSeconds blockTime) →
          amountOf vested denom = amountOf original denom) := by
  have hsound := sound_of_validate hvalid
  obtain ⟨original, horiginal⟩ := getOriginalVesting_ok hsound hfits laws
  obtain ⟨vested, hvested⟩ := getVestedCoins_ok hsound hfits laws blockTime
  obtain ⟨vesting, hvesting⟩ := getVestingCoins_ok hsound hfits laws blockTime
  obtain ⟨-, horiginal'⟩ := sumCoins_spec laws (yields_original hsound) horiginal
  obtain ⟨-, hvested'⟩ := sumCoins_spec laws (yields_vested hsound blockTime) hvested
  obtain ⟨-, hvesting'⟩ := getVestingCoins_spec laws hsound hvesting
  refine ⟨original, vested, vesting, horiginal, hvested, hvesting, fun denom => ?_⟩
  rw [horiginal', hvested', hvesting']
  refine ⟨rfl, hsound.vested_bounds denom _, ?_, ?_, ?_, ?_⟩
  · rw [total_unvested]
    ring
  · intro later vested' hlater hvestedLater
    rw [(sumCoins_spec laws (yields_vested hsound later) hvestedLater).2]
    exact hsound.vested_mono denom (Int.ediv_le_ediv (by norm_num) hlater)
  · intro hstart
    exact List.sum_eq_zero fun x hx => by
      obtain ⟨info, hinfo, rfl⟩ := List.mem_map.mp hx
      exact released_of_le_start (hstart info hinfo)
  · intro hend
    refine total_congr fun info hinfo => ?_
    have hlt := lt_of_validate (hvalid info hinfo)
    exact released_of_end_le (hlt.trans_le (hend info hinfo)) (hend info hinfo)

/-- Two overlapping schedules of two denominations. -/
def twoInfos : List VestingInfo :=
  [⟨[⟨str "fuel", 100⟩, ⟨str "test", 7⟩], 10, 20⟩, ⟨[⟨str "fuel", 33⟩], 15, 18⟩]

theorem fitsDec_twoInfos (denom : GoString) : FitsDec (total twoInfos (·.original denom)) := by
  have hfits : FitsDec 140 := by
    unfold FitsDec
    decide +kernel
  refine hfits.mono ?_
  simp only [twoInfos, total_cons, total_nil, VestingInfo.original, amountOf_cons, amountOf_nil]
  split_ifs <;> norm_num

/-- While both schedules run, the parts of the first denomination add up to all of it. -/
theorem vested_and_vesting_twoInfos : ∃ vested vesting,
    EthOwnedMultiContinuousVestingAccount.getVestedCoins Reference.sdk twoInfos (16 * 10 ^ 9) = .ok vested ∧
    EthOwnedMultiContinuousVestingAccount.getVestingCoins Reference.sdk twoInfos (16 * 10 ^ 9) = .ok vesting ∧
    amountOf vested (str "fuel") + amountOf vesting (str "fuel") = 133 := by
  have hvalid : ∀ info ∈ twoInfos, info.validate Reference.sdk = .ok () := by decide +kernel
  obtain ⟨original, vested, vesting, -, hvested, hvesting, hamounts⟩ :=
    vested_and_vesting Reference.sdk_coinLaws hvalid fitsDec_twoInfos (16 * 10 ^ 9)
  refine ⟨vested, vesting, hvested, hvesting, ?_⟩
  obtain ⟨htotal, -, hsum, -⟩ := hamounts (str "fuel")
  rw [hsum, htotal]
  decide +kernel

/-! ## Locked coins of an account -/

theorem lockedCoinsFromVesting_spec (laws : CoinLaws sdk) {locked : Coins} (hcoins : WellFormed coins)
    (h : lockedCoinsFromVesting sdk coins = .ok locked) :
    WellFormed locked ∧ ∀ denom, amountOf locked denom = amountOf coins denom := by
  unfold lockedCoinsFromVesting at h
  rw [laws.min_nil] at h
  obtain ⟨hwf, hamount⟩ := laws.sub hcoins .nil (panicking_eq_ok.mp h)
  exact ⟨hwf, fun denom => by rw [hamount, amountOf_nil, sub_zero]⟩

theorem lockedCoinsFromVesting_ok (laws : CoinLaws sdk) (hcoins : WellFormed coins)
    (hfits : ∀ denom, amountOf coins denom < 2 ^ maxBitLen) :
    ∃ locked, lockedCoinsFromVesting sdk coins = .ok locked := by
  obtain ⟨locked, h⟩ := laws.sub_ok hcoins .nil hfits fun denom => hcoins.amountOf_nonneg denom
  refine ⟨locked, ?_⟩
  rw [lockedCoinsFromVesting, laws.min_nil, panicking_eq_ok.mpr h]

/-- A continuous account computes what a multi account with its one schedule does. -/
theorem ContinuousVestingAccount.getVestingCoins_spec (laws : CoinLaws sdk) {a : ContinuousVestingAccount}
    (hsound : WellFormed a.originalVesting) (h : a.getVestingCoins sdk blockTime = .ok coins) :
    WellFormed coins ∧ ∀ denom, amountOf coins denom =
      VestingInfo.unvested ⟨a.originalVesting, a.startTime, a.endTime⟩ denom (unixSeconds blockTime) := by
  obtain ⟨vested, hvested, h⟩ := except_bind_eq_ok.mp h
  obtain ⟨hvwf, hvamount⟩ := vestedCoins_spec hsound hvested
  obtain ⟨hwf, hamount⟩ := laws.sub hsound hvwf (panicking_eq_ok.mp h)
  exact ⟨hwf, fun denom => by rw [hamount, hvamount]; rfl⟩

theorem ContinuousVestingAccount.getVestingCoins_ok (laws : CoinLaws sdk) {a : ContinuousVestingAccount}
    (hsound : WellFormed a.originalVesting) (hfits : ∀ denom, FitsDec (amountOf a.originalVesting denom))
    (blockTime : Time) : ∃ coins, a.getVestingCoins sdk blockTime = .ok coins := by
  obtain ⟨vested, hvested⟩ := vestedCoins_ok hsound
    (fun c hc => amountOf_of_mem hsound.sorted hc ▸ hfits c.denom) a.startTime a.endTime blockTime
  obtain ⟨hvwf, hvamount⟩ := vestedCoins_spec hsound hvested
  obtain ⟨coins, hcoins⟩ := laws.sub_ok hsound hvwf (fun denom => (hfits denom).lt) fun denom => by
    rw [hvamount]
    exact (released_bounds (hsound.amountOf_nonneg denom)).2
  refine ⟨coins, ?_⟩
  rw [ContinuousVestingAccount.getVestingCoins, ContinuousVestingAccount.getVestedCoins, hvested, ok_bind,
    panicking_eq_ok.mpr hcoins]

/-- An account of any type locks what its schedules have not released. -/
theorem lockedCoins_spec (laws : CoinLaws sdk) (hsound : Sound a.schedules)
    (h : a.lockedCoins sdk blockTime = .ok coins) :
    WellFormed coins ∧
      ∀ denom, amountOf coins denom = total a.schedules (·.unvested denom (unixSeconds blockTime)) := by
  cases a with
  | base _ _ =>
    obtain rfl := Except.ok.inj h
    exact ⟨.nil, fun _ => rfl⟩
  | continuousVesting account _ =>
    obtain ⟨vesting, hvesting, h⟩ := except_bind_eq_ok.mp h
    obtain ⟨hvwf, hvamount⟩ := account.getVestingCoins_spec laws (hsound _ List.mem_cons_self) hvesting
    obtain ⟨hwf, hamount⟩ := lockedCoinsFromVesting_spec laws hvwf h
    exact ⟨hwf, fun denom => by rw [hamount, hvamount]; exact (add_zero _).symm⟩
  | multiContinuousVesting _ infos _ =>
    obtain ⟨vesting, hvesting, h⟩ := except_bind_eq_ok.mp h
    obtain ⟨hvwf, hvamount⟩ :=
      EthOwnedMultiContinuousVestingAccount.getVestingCoins_spec laws hsound hvesting
    obtain ⟨hwf, hamount⟩ := lockedCoinsFromVesting_spec laws hvwf h
    exact ⟨hwf, fun denom => by rw [hamount, hvamount]⟩

theorem Sound.unvested_le (h : Sound infos) (denom : GoString) (now : ℤ) :
    total infos (·.unvested denom now) ≤ total infos (·.original denom) := by
  rw [total_unvested]
  exact sub_le_self _ (h.vested_bounds denom now).1

theorem lockedCoins_ok (laws : CoinLaws sdk) (hsound : Sound a.schedules)
    (hfits : ∀ denom, FitsDec (total a.schedules (·.original denom))) (blockTime : Time) :
    ∃ coins, a.lockedCoins sdk blockTime = .ok coins := by
  have hlocked : ∀ denom,
      total a.schedules (·.unvested denom (unixSeconds blockTime)) < 2 ^ maxBitLen := fun denom =>
    (hsound.unvested_le denom _).trans_lt (hfits denom).lt
  cases a with
  | base _ _ => exact ⟨[], rfl⟩
  | continuousVesting account _ =>
    have hwf := hsound _ List.mem_cons_self
    obtain ⟨vesting, hvesting⟩ := account.getVestingCoins_ok laws hwf
      (fun denom => (hfits denom).mono (add_zero _).ge) blockTime
    obtain ⟨hvwf, hvamount⟩ := account.getVestingCoins_spec laws hwf hvesting
    obtain ⟨coins, hcoins⟩ := lockedCoinsFromVesting_ok laws hvwf fun denom => by
      rw [hvamount]
      exact (add_zero _).ge.trans_lt (hlocked denom)
    exact ⟨coins, except_bind_eq_ok.mpr ⟨vesting, hvesting, hcoins⟩⟩
  | multiContinuousVesting _ infos _ =>
    obtain ⟨vesting, hvesting⟩ :=
      EthOwnedMultiContinuousVestingAccount.getVestingCoins_ok hsound hfits laws blockTime
    obtain ⟨hvwf, hvamount⟩ :=
      EthOwnedMultiContinuousVestingAccount.getVestingCoins_spec laws hsound hvesting
    obtain ⟨coins, hcoins⟩ := lockedCoinsFromVesting_ok laws hvwf fun denom => by
      rw [hvamount]
      exact hlocked denom
    exact ⟨coins, except_bind_eq_ok.mpr ⟨vesting, hvesting, hcoins⟩⟩

end FuelSequencer.Bridge
