import FuelSequencer.Bridge.Schedules

/-! # Adding vesting coins to an account

However often coins are added, and whatever type the account has by then, its schedules
are a map from start seconds: the first addition with a start fixes the end, later ones
with the same start add their coins.
-/
namespace FuelSequencer.Bridge
open Go Wire Exec Lib Wiring

/-- One call of `AddVestingCoins`. -/
structure Addition where
  coins : Coins
  startTime : Time
  endTime : Time

namespace Addition

def start (add : Addition) : ℤ := unixSeconds add.startTime
def finish (add : Addition) : ℤ := unixSeconds add.endTime

end Addition

def addVesting (sdk : Sdk) (a : EthOwnedAccount) (additions : List Addition) : Outcome GoString EthOwnedAccount :=
  additions.foldlM (fun a add => a.addVestingCoins sdk add.coins add.startTime add.endTime) a

namespace EthOwnedAccount

def owner : EthOwnedAccount → GoString
  | .base _ owner => owner
  | .continuousVesting _ owner => owner
  | .multiContinuousVesting _ _ owner => owner

def baseAccount : EthOwnedAccount → BaseAccount
  | .base account _ => account
  | .continuousVesting account _ => account.baseAccount
  | .multiContinuousVesting account _ _ => account

def getOriginalVesting (sdk : Sdk) : EthOwnedAccount → Outcome GoString Coins
  | .base _ _ => .ok []
  | .continuousVesting account _ => .ok account.originalVesting
  | .multiContinuousVesting _ infos _ => EthOwnedMultiContinuousVestingAccount.getOriginalVesting sdk infos

end EthOwnedAccount

/-! ## The abstract map -/

/-- A start second is mapped to the end second and the amount of each denomination. -/
abbrev ScheduleMap := ℤ → Option (ℤ × (GoString → ℤ))

/-- Only the first end of a start counts. -/
def ScheduleMap.insert (m : ScheduleMap) (start finish : ℤ) (amount : GoString → ℤ) : ScheduleMap :=
  Function.update m start <| some <| match m start with
    | none => (finish, amount)
    | some entry => (entry.1, fun denom => entry.2 denom + amount denom)

/-- What is not released of an entry. -/
def unvestedEntry (start : ℤ) (entry : ℤ × (GoString → ℤ)) (denom : GoString) (now : ℤ) : ℤ :=
  entry.2 denom - released (entry.2 denom) start entry.1 now

/-- The amounts added with a start. -/
def addedWith (additions : List Addition) (start : ℤ) (denom : GoString) : ℤ :=
  ((additions.filter fun add => add.start = start).map fun add => amountOf add.coins denom).sum

/-- The map of a history: the first end with each start, and all amounts added with it. -/
def historyMap (additions : List Addition) : ScheduleMap := fun start =>
  (additions.find? fun add => add.start = start).map fun first => (first.finish, addedWith additions start)

def added (additions : List Addition) (denom : GoString) : ℤ :=
  (additions.map fun add => amountOf add.coins denom).sum

/-- The unvested parts of a map's entries at the starts. -/
def mapLocked (m : ScheduleMap) (starts : Finset ℤ) (denom : GoString) (now : ℤ) : ℤ :=
  ∑ start ∈ starts, (m start).elim 0 fun entry => unvestedEntry start entry denom now

/-- The map an account's schedules give. -/
def scheduleMap (infos : List VestingInfo) : ScheduleMap := fun start =>
  (infos.find? fun info => info.startTime = start).map fun info => (info.endTime, info.original)

/-! ## What an addition can do to the schedules -/

variable {sdk : Sdk} {infos infos' : List VestingInfo} {coins : Coins} {startTime endTime : ℤ}

theorem addToInfos_cases (h : addToInfos sdk coins startTime endTime infos = .ok infos') :
    (startTime ∉ infos.map VestingInfo.startTime ∧ infos' = infos ++ [⟨coins, startTime, endTime⟩]) ∨
    ∃ before info after vesting, infos = before ++ info :: after ∧ info.startTime = startTime ∧
      startTime ∉ before.map VestingInfo.startTime ∧ sdk.coinsAdd info.originalVesting coins = .ok vesting ∧
      infos' = before ++ { info with originalVesting := vesting } :: after := by
  induction infos generalizing infos' with
  | nil => exact .inl ⟨List.not_mem_nil, (Except.ok.inj h).symm⟩
  | cons info infos ih =>
    unfold addToInfos at h
    split at h
    next heq =>
      obtain ⟨vesting, hvesting, h⟩ := except_bind_eq_ok.mp h
      exact .inr ⟨[], info, infos, vesting, rfl, heq, List.not_mem_nil, panicking_eq_ok.mp hvesting,
        (Except.ok.inj h).symm⟩
    next hne =>
      obtain ⟨rest, hrest, h⟩ := except_bind_eq_ok.mp h
      obtain rfl := Except.ok.inj h
      have hnot : ∀ {before : List VestingInfo}, startTime ∉ before.map VestingInfo.startTime →
          startTime ∉ (info :: before).map VestingInfo.startTime := fun hbefore hmem =>
        (List.mem_cons.mp hmem).elim (fun heq => hne heq.symm) hbefore
      rcases ih hrest with ⟨hfresh, rfl⟩ | ⟨before, info', after, vesting, rfl, heq, hbefore, hvesting, rfl⟩
      · exact .inl ⟨hnot hfresh, rfl⟩
      · exact .inr ⟨info :: before, info', after, vesting, rfl, heq, hnot hbefore, hvesting, rfl⟩

theorem total_append (infos infos' : List VestingInfo) (quantity : VestingInfo → ℤ) :
    total (infos ++ infos') quantity = total infos quantity + total infos' quantity := by
  rw [total, List.map_append, List.sum_append]
  rfl

/-- The amounts of a schedule that takes the coins. -/
theorem original_add (laws : CoinLaws sdk) (hcoins : WellFormed coins) {info : VestingInfo}
    (hinfo : WellFormed info.originalVesting) {vesting : Coins}
    (hvesting : sdk.coinsAdd info.originalVesting coins = .ok vesting) (denom : GoString) :
    VestingInfo.original { info with originalVesting := vesting } denom =
      info.original denom + amountOf coins denom :=
  (laws.add hinfo hcoins hvesting).2 denom

section Addition

variable (laws : CoinLaws sdk) (hsound : Sound infos) (hcoins : WellFormed coins)
  (h : addToInfos sdk coins startTime endTime infos = .ok infos')

include laws hsound hcoins h

theorem sound_addToInfos : Sound infos' := by
  rcases addToInfos_cases h with ⟨-, rfl⟩ | ⟨before, info, after, vesting, rfl, -, -, hvesting, rfl⟩
  · intro info hinfo
    rcases List.mem_append.mp hinfo with hinfo | hinfo
    · exact hsound info hinfo
    · obtain rfl := List.mem_singleton.mp hinfo
      exact hcoins
  · have hmem : info ∈ before ++ info :: after := List.mem_append_right _ List.mem_cons_self
    intro info' hinfo'
    rcases List.mem_append.mp hinfo' with hinfo' | hinfo'
    · exact hsound info' (List.mem_append_left _ hinfo')
    · rcases List.mem_cons.mp hinfo' with rfl | hinfo'
      · exact (laws.add (hsound info hmem) hcoins hvesting).1
      · exact hsound info' (List.mem_append_right _ (List.mem_cons_of_mem _ hinfo'))

theorem total_original_addToInfos (denom : GoString) :
    total infos' (·.original denom) = total infos (·.original denom) + amountOf coins denom := by
  rcases addToInfos_cases h with ⟨-, rfl⟩ | ⟨before, info, after, vesting, rfl, -, -, hvesting, rfl⟩
  · rw [total_append, total_cons, total_nil, add_zero]
    rfl
  · have hmem : info ∈ before ++ info :: after := List.mem_append_right _ List.mem_cons_self
    rw [total_append, total_append, total_cons, total_cons, original_add laws hcoins (hsound info hmem) hvesting]
    ring

/-- At most the added coins become locked: on a schedule that has released a part, the
share of the larger amount is rounded to no less than before. -/
theorem total_unvested_addToInfos (denom : GoString) (now : ℤ) :
    total infos' (·.unvested denom now) ≤ total infos (·.unvested denom now) + amountOf coins denom := by
  rcases addToInfos_cases h with ⟨-, rfl⟩ | ⟨before, info, after, vesting, rfl, -, -, hvesting, rfl⟩
  · rw [total_append, total_cons, total_nil, add_zero]
    have hnonneg : 0 ≤ released (amountOf coins denom) startTime endTime now :=
      (released_bounds (hcoins.amountOf_nonneg denom)).1
    exact add_le_add_right (sub_le_self _ hnonneg) _
  · have hmem : info ∈ before ++ info :: after := List.mem_append_right _ List.mem_cons_self
    have hinfo := original_add laws hcoins (hsound info hmem) hvesting denom
    have hadded := hcoins.amountOf_nonneg denom
    have hgrow : info.vested denom now ≤ VestingInfo.vested { info with originalVesting := vesting } denom now :=
      released_mono_amount (hsound.original_nonneg denom info hmem) (by rw [hinfo]; omega)
    rw [total_append, total_append, total_cons, total_cons]
    unfold VestingInfo.unvested
    rw [hinfo]
    linarith

theorem scheduleMap_addToInfos :
    scheduleMap infos' = (scheduleMap infos).insert startTime endTime (amountOf coins) := by
  funext start
  unfold ScheduleMap.insert
  rcases addToInfos_cases h with ⟨hfresh, rfl⟩ | ⟨before, info, after, vesting, rfl, hinfo, hbefore, hvesting, rfl⟩
  · have hnone : infos.find? (fun info => info.startTime = startTime) = none :=
      List.find?_eq_none.mpr fun info hinfo => by
        simpa using fun heq => hfresh (List.mem_map.mpr ⟨info, hinfo, heq⟩)
    by_cases hstart : start = startTime
    · subst hstart
      have hamount : VestingInfo.original ⟨coins, start, endTime⟩ = amountOf coins := rfl
      simpa [scheduleMap, List.find?_append, hnone] using hamount
    · rw [Function.update_of_ne hstart]
      simp [scheduleMap, List.find?_append, Ne.symm hstart]
  · have hmem : info ∈ before ++ info :: after := List.mem_append_right _ List.mem_cons_self
    have hnone : before.find? (fun info => info.startTime = startTime) = none :=
      List.find?_eq_none.mpr fun info' hinfo' => by
        simpa using fun heq => hbefore (List.mem_map.mpr ⟨info', hinfo', heq⟩)
    by_cases hstart : start = startTime
    · subst hstart
      have hamount : VestingInfo.original { info with originalVesting := vesting } =
          fun denom => info.original denom + amountOf coins denom :=
        funext (original_add laws hcoins (hsound info hmem) hvesting)
      simpa [scheduleMap, List.find?_append, hnone, hinfo] using hamount
    · rw [Function.update_of_ne hstart]
      simp [scheduleMap, List.find?_append, hinfo, Ne.symm hstart]

end Addition

theorem nodup_starts_addToInfos (hnodup : (infos.map VestingInfo.startTime).Nodup)
    (h : addToInfos sdk coins startTime endTime infos = .ok infos') :
    (infos'.map VestingInfo.startTime).Nodup := by
  rcases addToInfos_cases h with ⟨hfresh, rfl⟩ | ⟨before, info, after, vesting, rfl, -, -, -, rfl⟩
  · rw [List.map_append]
    exact hnodup.append (List.nodup_singleton _) (List.disjoint_singleton.mpr hfresh)
  · simpa using hnodup

/-! ## The three types of accounts -/

variable {a a' : EthOwnedAccount} {add : Addition} {additions : List Addition} {account : BaseAccount}
  {owner denom : GoString}

/-- An account of any type adds coins to its schedules in the same way. -/
theorem addVestingCoins_eq_ok (laws : CoinLaws sdk) {startTime endTime : Time}
    (h : a.addVestingCoins sdk coins startTime endTime = .ok a') :
    addToInfos sdk coins (unixSeconds startTime) (unixSeconds endTime) a.schedules = .ok a'.schedules ∧
      a'.owner = a.owner ∧ a'.baseAccount = a.baseAccount := by
  cases a with
  | base account owner =>
    obtain ⟨vesting, hvesting, h⟩ := except_bind_eq_ok.mp h
    obtain ⟨-, rfl⟩ := laws.newContinuousVestingAccount (wrapping_eq_ok.mp hvesting)
    obtain rfl := Except.ok.inj h
    exact ⟨rfl, rfl, rfl⟩
  | continuousVesting account owner =>
    unfold EthOwnedAccount.addVestingCoins at h
    dsimp only at h
    split at h
    next heq =>
      obtain ⟨vesting, hvesting, h⟩ := except_bind_eq_ok.mp h
      obtain rfl := Except.ok.inj h
      refine ⟨?_, rfl, rfl⟩
      rw [EthOwnedAccount.schedules, addToInfos, if_pos heq, hvesting, ok_bind]
      rfl
    next =>
      obtain ⟨infos, hinfos, h⟩ := except_bind_eq_ok.mp h
      obtain rfl := Except.ok.inj h
      exact ⟨hinfos, rfl, rfl⟩
  | multiContinuousVesting account infos owner =>
    obtain ⟨infos', hinfos', h⟩ := except_bind_eq_ok.mp h
    obtain rfl := Except.ok.inj h
    exact ⟨hinfos', rfl, rfl⟩

theorem addToInfos_ok (laws : CoinLaws sdk) (hsound : Sound infos) (hcoins : WellFormed coins)
    (hfits : ∀ denom, total infos (·.original denom) + amountOf coins denom < 2 ^ maxBitLen) :
    ∃ infos', addToInfos sdk coins startTime endTime infos = .ok infos' := by
  induction infos with
  | nil => exact ⟨_, rfl⟩
  | cons info infos ih =>
    have hinfo := hsound info List.mem_cons_self
    have hrest : Sound infos := fun i hi => hsound i (List.mem_cons_of_mem _ hi)
    unfold addToInfos
    split
    · obtain ⟨vesting, hvesting⟩ := laws.add_ok hinfo hcoins fun denom => by
        have hall := hfits denom
        have hnonneg := total_nonneg (hrest.original_nonneg denom)
        rw [total_cons] at hall
        change info.original denom + _ < _
        linarith
      exact ⟨_, except_bind_eq_ok.mpr ⟨vesting, panicking_eq_ok.mpr hvesting, rfl⟩⟩
    · obtain ⟨infos', hinfos'⟩ := ih hrest fun denom => by
        have hall := hfits denom
        have hnonneg := hinfo.amountOf_nonneg denom
        rw [total_cons] at hall
        change 0 ≤ info.original denom at hnonneg
        linarith
      exact ⟨_, except_bind_eq_ok.mpr ⟨infos', hinfos', rfl⟩⟩

/-- A call that may be made on an account whatever its type. -/
structure Addition.Proper (add : Addition) : Prop where
  coins_ne_nil : add.coins ≠ []
  coins_valid : coinsIsValid add.coins
  start_lt : add.start < add.finish
  finish_nonneg : 0 ≤ add.finish

/-- The account passes its own validation, so that only its schedule can be refused. -/
def AcceptsVesting (sdk : Sdk) (account : BaseAccount) : Prop :=
  ∀ {coins : Coins} {startTime endTime : ℤ}, coins ≠ [] → coinsIsValid coins → startTime < endTime →
    0 ≤ endTime → sdk.newContinuousVestingAccount account coins startTime endTime =
      .ok ⟨account, coins, startTime, endTime⟩

theorem addVestingCoins_ok (laws : CoinLaws sdk) (hsound : Sound a.schedules)
    (haccepts : AcceptsVesting sdk a.baseAccount) (hadd : add.Proper)
    (hfits : ∀ denom, total a.schedules (·.original denom) + amountOf add.coins denom < 2 ^ maxBitLen) :
    ∃ a', a.addVestingCoins sdk add.coins add.startTime add.endTime = .ok a' := by
  have hcoins := wellFormed_of_coinsIsValid hadd.coins_valid
  cases a with
  | base account owner =>
    have hnew := haccepts hadd.coins_ne_nil hadd.coins_valid hadd.start_lt hadd.finish_nonneg
    exact ⟨_, except_bind_eq_ok.mpr ⟨_, wrapping_eq_ok.mpr hnew, rfl⟩⟩
  | continuousVesting account owner =>
    unfold EthOwnedAccount.addVestingCoins
    dsimp only
    split
    · obtain ⟨vesting, hvesting⟩ := laws.add_ok (hsound _ List.mem_cons_self) hcoins fun denom => by
        have hall := hfits denom
        rw [EthOwnedAccount.schedules, total_cons, total_nil, add_zero] at hall
        exact hall
      exact ⟨_, except_bind_eq_ok.mpr ⟨vesting, panicking_eq_ok.mpr hvesting, rfl⟩⟩
    · obtain ⟨infos, hinfos⟩ := addToInfos_ok laws hsound hcoins hfits
      exact ⟨_, except_bind_eq_ok.mpr ⟨infos, hinfos, rfl⟩⟩
  | multiContinuousVesting account infos owner =>
    obtain ⟨infos', hinfos'⟩ := addToInfos_ok laws hsound hcoins hfits
    exact ⟨_, except_bind_eq_ok.mpr ⟨infos', hinfos', rfl⟩⟩

/-! ## Whole histories -/

theorem addedWith_append (additions : List Addition) (add : Addition) (start : ℤ) :
    addedWith (additions ++ [add]) start = fun denom =>
      addedWith additions start denom + if add.start = start then amountOf add.coins denom else 0 := by
  funext denom
  by_cases hstart : add.start = start
  · simp [addedWith, List.filter_append, hstart]
  · simp [addedWith, List.filter_append, hstart]

theorem historyMap_append (additions : List Addition) (add : Addition) :
    historyMap (additions ++ [add]) = (historyMap additions).insert add.start add.finish (amountOf add.coins) := by
  funext start
  unfold ScheduleMap.insert
  by_cases hstart : start = add.start
  · subst hstart
    rw [Function.update_self]
    cases hfind : additions.find? fun a => a.start = add.start with
    | none =>
      have hnone : addedWith additions add.start = fun _ => 0 := by
        have hempty : additions.filter (fun a => a.start = add.start) = [] :=
          List.filter_eq_nil_iff.mpr (List.find?_eq_none.mp hfind)
        unfold addedWith
        rw [hempty]
        rfl
      simp [historyMap, List.find?_append, hfind, addedWith_append, hnone]
    | some first => simp [historyMap, List.find?_append, hfind, addedWith_append]
  · rw [Function.update_of_ne hstart]
    simp [historyMap, List.find?_append, Ne.symm hstart, addedWith_append]

theorem added_append (additions : List Addition) (add : Addition) (denom : GoString) :
    added (additions ++ [add]) denom = added additions denom + amountOf add.coins denom := by
  simp [added]

/-- What holds of the account after a history from a base account. -/
structure After (account : BaseAccount) (owner : GoString) (additions : List Addition)
    (a : EthOwnedAccount) : Prop where
  sound : Sound a.schedules
  starts : (a.schedules.map VestingInfo.startTime).Nodup
  entries : scheduleMap a.schedules = historyMap additions
  original : ∀ denom, total a.schedules (·.original denom) = added additions denom
  owner_eq : a.owner = owner
  baseAccount_eq : a.baseAccount = account

theorem After.init (account : BaseAccount) (owner : GoString) : After account owner [] (.base account owner) :=
  ⟨fun _ hinfo => absurd hinfo List.not_mem_nil, List.nodup_nil, rfl, fun _ => rfl, rfl, rfl⟩

theorem After.step (laws : CoinLaws sdk) (h : After account owner additions a) (hcoins : coinsIsValid add.coins)
    (hadd : a.addVestingCoins sdk add.coins add.startTime add.endTime = .ok a') :
    After account owner (additions ++ [add]) a' := by
  have hwf := wellFormed_of_coinsIsValid hcoins
  obtain ⟨hinfos, howner, hbase⟩ := addVestingCoins_eq_ok laws hadd
  exact {
    sound := sound_addToInfos laws h.sound hwf hinfos
    starts := nodup_starts_addToInfos h.starts hinfos
    entries := by
      rw [scheduleMap_addToInfos laws h.sound hwf hinfos, h.entries, historyMap_append]
      rfl
    original := fun denom => by
      rw [total_original_addToInfos laws h.sound hwf hinfos, h.original, added_append]
    owner_eq := howner.trans h.owner_eq
    baseAccount_eq := hbase.trans h.baseAccount_eq }

theorem addVesting_append (additions : List Addition) (add : Addition) :
    addVesting sdk a (additions ++ [add]) = (do
      let a ← addVesting sdk a additions
      a.addVestingCoins sdk add.coins add.startTime add.endTime) := by
  rw [addVesting, List.foldlM_append]
  simp only [List.foldlM_cons, List.foldlM_nil, bind_pure]
  rfl

theorem after_of_addVesting (laws : CoinLaws sdk) (hcoins : ∀ add ∈ additions, coinsIsValid add.coins)
    (h : addVesting sdk (.base account owner) additions = .ok a) : After account owner additions a := by
  induction additions using List.reverseRecOn generalizing a with
  | nil =>
    obtain rfl := Except.ok.inj h
    exact After.init account owner
  | append_singleton additions add ih =>
    rw [addVesting_append] at h
    obtain ⟨before, hbefore, h⟩ := except_bind_eq_ok.mp h
    exact (ih (fun a ha => hcoins a (List.mem_append_left _ ha)) hbefore).step laws
      (hcoins add (List.mem_append_right _ List.mem_cons_self)) h

theorem addVesting_ok (laws : CoinLaws sdk) (hkey : account.pubKey = none)
    (hproper : ∀ add ∈ additions, add.Proper) (hfits : ∀ denom, added additions denom < 2 ^ maxBitLen) :
    ∃ a, addVesting sdk (.base account owner) additions = .ok a := by
  induction additions using List.reverseRecOn with
  | nil => exact ⟨_, rfl⟩
  | append_singleton additions add ih =>
    have hadd := hproper add (List.mem_append_right _ List.mem_cons_self)
    have hbefore : ∀ add ∈ additions, add.Proper := fun a ha => hproper a (List.mem_append_left _ ha)
    have hnonneg := (wellFormed_of_coinsIsValid hadd.coins_valid).amountOf_nonneg
    obtain ⟨a, ha⟩ := ih hbefore fun denom => by
      have hall := hfits denom
      rw [added_append] at hall
      linarith [hnonneg denom]
    have hafter := after_of_addVesting laws (fun add hadd => (hbefore add hadd).coins_valid) ha
    have haccepts : AcceptsVesting sdk a.baseAccount :=
      hafter.baseAccount_eq ▸ laws.newContinuousVestingAccount_ok hkey
    obtain ⟨a', ha'⟩ := addVestingCoins_ok laws hafter.sound haccepts hadd fun denom => by
      rw [hafter.original, ← added_append]
      exact hfits denom
    exact ⟨a', by rw [addVesting_append, ha, ok_bind, ha']⟩

/-! ## Reading the map back -/

theorem scheduleMap_of_mem (hnodup : (infos.map VestingInfo.startTime).Nodup) {info : VestingInfo}
    (hinfo : info ∈ infos) : scheduleMap infos info.startTime = some (info.endTime, info.original) := by
  induction infos with
  | nil => cases hinfo
  | cons head infos ih =>
    obtain ⟨hhead, hnodup⟩ := List.nodup_cons.mp hnodup
    rcases List.mem_cons.mp hinfo with rfl | hinfo
    · simp [scheduleMap]
    · have hne : head.startTime ≠ info.startTime := fun heq =>
        hhead (heq ▸ List.mem_map_of_mem hinfo)
      rw [← ih hnodup hinfo]
      simp [scheduleMap, hne]

theorem total_unvested_eq_mapLocked (hnodup : (infos.map VestingInfo.startTime).Nodup) (denom : GoString)
    (now : ℤ) : total infos (·.unvested denom now) =
      mapLocked (scheduleMap infos) (infos.map VestingInfo.startTime).toFinset denom now := by
  rw [mapLocked, List.sum_toFinset _ hnodup, List.map_map]
  refine congrArg List.sum (List.map_congr_left fun info hinfo => ?_)
  rw [Function.comp_apply, scheduleMap_of_mem hnodup hinfo]
  rfl

theorem isSome_scheduleMap (infos : List VestingInfo) (start : ℤ) :
    (scheduleMap infos start).isSome ↔ start ∈ infos.map VestingInfo.startTime := by
  simp [scheduleMap]

theorem isSome_historyMap (additions : List Addition) (start : ℤ) :
    (historyMap additions start).isSome ↔ start ∈ additions.map Addition.start := by
  simp [historyMap]

/-- The start seconds of a history. -/
def startsOf (additions : List Addition) : Finset ℤ := (additions.map Addition.start).toFinset

theorem After.starts_eq (h : After account owner additions a) :
    (a.schedules.map VestingInfo.startTime).toFinset = startsOf additions := by
  ext start
  rw [startsOf, List.mem_toFinset, List.mem_toFinset, ← isSome_scheduleMap, h.entries, isSome_historyMap]

theorem After.length_schedules (h : After account owner additions a) :
    a.schedules.length = (startsOf additions).card := by
  rw [← h.starts_eq, List.toFinset_card_of_nodup h.starts, List.length_map]

theorem getOriginalVesting_spec (laws : CoinLaws sdk) (hsound : Sound a.schedules)
    (h : a.getOriginalVesting sdk = .ok coins) (denom : GoString) :
    amountOf coins denom = total a.schedules (·.original denom) := by
  cases a with
  | base _ _ =>
    obtain rfl := Except.ok.inj h
    rfl
  | continuousVesting account _ =>
    obtain rfl := Except.ok.inj h
    exact (add_zero _).symm
  | multiContinuousVesting _ infos _ =>
    exact (sumCoins_spec laws (EthOwnedMultiContinuousVestingAccount.yields_original hsound) h).2 denom

theorem getOriginalVesting_ok (laws : CoinLaws sdk) (hsound : Sound a.schedules)
    (hfits : ∀ denom, FitsDec (total a.schedules (·.original denom))) :
    ∃ coins, a.getOriginalVesting sdk = .ok coins := by
  cases a with
  | base _ _ => exact ⟨_, rfl⟩
  | continuousVesting _ _ => exact ⟨_, rfl⟩
  | multiContinuousVesting _ infos _ =>
    exact EthOwnedMultiContinuousVestingAccount.getOriginalVesting_ok hsound hfits laws

/-- The account shows the map of a history, through every function that reads it. -/
structure Represents (sdk : Sdk) (account : BaseAccount) (owner : GoString) (additions : List Addition)
    (a : EthOwnedAccount) : Prop where
  starts : (a.schedules.map VestingInfo.startTime).Nodup
  entries : scheduleMap a.schedules = historyMap additions
  original : ∀ coins, a.getOriginalVesting sdk = .ok coins →
    ∀ denom, amountOf coins denom = added additions denom
  locked : ∀ blockTime coins, a.lockedCoins sdk blockTime = .ok coins → ∀ denom, amountOf coins denom =
    mapLocked (historyMap additions) (startsOf additions) denom (unixSeconds blockTime)
  owner_eq : a.owner = owner
  baseAccount_eq : a.baseAccount = account
  length_le : a.schedules.length ≤ (startsOf additions).card

/-- Every history of additions leaves an account that represents the map of the history.
Proper additions within the bounds of the decimals do leave one, and its coins are computed. -/
theorem addVesting_represents (laws : CoinLaws sdk) (account : BaseAccount) (owner : GoString)
    (additions : List Addition) (hcoins : ∀ add ∈ additions, coinsIsValid add.coins) :
    (∀ a, addVesting sdk (.base account owner) additions = .ok a →
      Represents sdk account owner additions a) ∧
    (account.pubKey = none → (∀ add ∈ additions, add.Proper) →
      (∀ denom, FitsDec (added additions denom)) →
      ∃ a, addVesting sdk (.base account owner) additions = .ok a ∧
        (∃ coins, a.getOriginalVesting sdk = .ok coins) ∧
        ∀ blockTime, ∃ coins, a.lockedCoins sdk blockTime = .ok coins) := by
  constructor
  · intro a ha
    have hafter := after_of_addVesting laws hcoins ha
    exact {
      starts := hafter.starts
      entries := hafter.entries
      original := fun coins h denom => by
        rw [getOriginalVesting_spec laws hafter.sound h, hafter.original]
      locked := fun blockTime coins h denom => by
        rw [(lockedCoins_spec laws hafter.sound h).2, total_unvested_eq_mapLocked hafter.starts,
          hafter.entries, hafter.starts_eq]
      owner_eq := hafter.owner_eq
      baseAccount_eq := hafter.baseAccount_eq
      length_le := hafter.length_schedules.le }
  · intro hkey hproper hfits
    obtain ⟨a, ha⟩ : ∃ a, addVesting sdk (.base account owner) additions = .ok a :=
      addVesting_ok laws hkey hproper fun denom => (hfits denom).lt
    have hafter := after_of_addVesting laws hcoins ha
    have hfits' : ∀ denom, FitsDec (total a.schedules (·.original denom)) := fun denom =>
      hafter.original denom ▸ hfits denom
    exact ⟨a, ha, getOriginalVesting_ok laws hafter.sound hfits', lockedCoins_ok laws hafter.sound hfits'⟩

/-- Three additions with two starts: the account passes through all three types. -/
def threeAdditions : List Addition :=
  [⟨[⟨str "fuel", 100⟩], 10 * 10 ^ 9, 20 * 10 ^ 9⟩, ⟨[⟨str "fuel", 30⟩], 15 * 10 ^ 9, 40 * 10 ^ 9⟩,
    ⟨[⟨str "fuel", 5⟩], 10 * 10 ^ 9, 90 * 10 ^ 9⟩]

theorem threeAdditions_proper : ∀ add ∈ threeAdditions, add.Proper := by
  simp only [threeAdditions, List.forall_mem_cons]
  refine ⟨?_, ?_, ?_, fun _ h => absurd h List.not_mem_nil⟩ <;>
    exact ⟨by decide, by decide +kernel, by decide, by decide⟩

theorem fitsDec_threeAdditions (denom : GoString) : FitsDec (added threeAdditions denom) := by
  have hfits : FitsDec 135 := by
    unfold FitsDec
    decide +kernel
  refine hfits.mono ?_
  simp only [threeAdditions, added, List.map_cons, List.map_nil, List.sum_cons, List.sum_nil, amountOf_cons,
    amountOf_nil]
  split_ifs <;> norm_num

theorem addVesting_represents_threeAdditions : ∃ a locked,
    addVesting Reference.sdk (.base ⟨[], none, 0, 0⟩ (str "owner")) threeAdditions = .ok a ∧
      a.schedules.length ≤ 2 ∧ a.lockedCoins Reference.sdk (15 * 10 ^ 9) = .ok locked ∧
      amountOf locked (str "fuel") =
        mapLocked (historyMap threeAdditions) (startsOf threeAdditions) (str "fuel") 15 := by
  obtain ⟨hrepresents, hruns⟩ := addVesting_represents Reference.sdk_coinLaws ⟨[], none, 0, 0⟩ (str "owner")
    threeAdditions fun add hadd => (threeAdditions_proper add hadd).coins_valid
  obtain ⟨a, ha, -, hlocked⟩ := hruns rfl threeAdditions_proper fitsDec_threeAdditions
  obtain ⟨locked, hlocked⟩ := hlocked (15 * 10 ^ 9)
  have hmap := hrepresents a ha
  exact ⟨a, locked, ha, hmap.length_le.trans (by decide), hlocked, hmap.locked _ _ hlocked _⟩

end FuelSequencer.Bridge
