import FuelSequencer.Bridge.Mapping
import FuelSequencer.Bridge.VestingHistory

/-! # The JSON form of owned accounts

The three kinds of accounts are written as one record of an address, two numbers and the
owner. Reading it back sets the base account through the pointers that the account
embeds. In a fresh continuous account these are nil, and a fresh multi account has no
schedules.
-/
namespace FuelSequencer.Bridge
open Go Wire Exec Lib Wiring

/-! ## Texts in JSON -/

/-- A byte of a UTF-8 character after its first. -/
def isTail (b : UInt8) : Bool := 0x80 ≤ b ∧ b ≤ 0xBF

/-- The width of the UTF-8 character at the head of a text, zero if there is none. Bytes that are
missing are taken as zero, which is no tail. -/
def runeWidth : GoString → ℕ
  | [] => 0
  | a :: rest =>
    let b := rest.getD 0 0
    let c := rest.getD 1 0
    let d := rest.getD 2 0
    if a < 0x80 then 1
    else if 0xC2 ≤ a ∧ a ≤ 0xDF ∧ isTail b then 2
    else if (a = 0xE0 ∧ 0xA0 ≤ b ∨ 0xE1 ≤ a ∧ a ≤ 0xEC ∨ a = 0xED ∧ b ≤ 0x9F ∨ 0xEE ≤ a ∧ a ≤ 0xEF) ∧
      isTail b ∧ isTail c then 3
    else if (a = 0xF0 ∧ 0x90 ≤ b ∨ 0xF1 ≤ a ∧ a ≤ 0xF3 ∨ a = 0xF4 ∧ b ≤ 0x8F) ∧
      isTail b ∧ isTail c ∧ isTail d then 4
    else 0

def coerceLoop : ℕ → GoString → GoString
  | _, [] => []
  | 0, _ :: _ => []
  | fuel + 1, a :: rest =>
    let width := runeWidth (a :: rest)
    if width = 0 then [0xEF, 0xBF, 0xBD] ++ coerceLoop fuel rest
    else (a :: rest).take width ++ coerceLoop fuel ((a :: rest).drop width)

/-- The text that JSON keeps: each byte outside a UTF-8 character becomes the replacement character. -/
def coerceUtf8 (s : GoString) : GoString := coerceLoop s.length s

theorem coerceUtf8_of_ascii {s : GoString} (h : ∀ b ∈ s, b < 0x80) : coerceUtf8 s = s := by
  unfold coerceUtf8
  induction s with
  | nil => rfl
  | cons b s ih =>
    have hwidth : runeWidth (b :: s) = 1 := if_pos (h b List.mem_cons_self)
    simp only [List.length_cons, coerceLoop, hwidth, one_ne_zero, if_false]
    exact congrArg (b :: ·) (ih fun c hc => h c (List.mem_cons_of_mem b hc))

/-! ## Marshalling -/

structure EthOwnedAccountPretty where
  address : Bytes
  pubKey : GoString
  accountNumber : UInt64
  sequence : UInt64
  accountOwner : GoString
deriving DecidableEq, Repr

/-- The JSON library on the record, and the SDK's check of a base account. -/
structure AccountCodec where
  marshal : EthOwnedAccountPretty → Bytes
  unmarshal : Bytes → Except GoString EthOwnedAccountPretty
  validateBaseAccount : BaseAccount → Except GoString Unit

/-- The record is read back up to the bytes of its texts that are not UTF-8. The address is written
as the text of the account. -/
def AccountCodec.Lawful (codec : AccountCodec) : Prop :=
  ∀ p : EthOwnedAccountPretty, verifyAddressFormat p.address = .ok () → codec.unmarshal (codec.marshal p) =
    .ok { p with pubKey := coerceUtf8 p.pubKey, accountOwner := coerceUtf8 p.accountOwner }

def errInvalidAccountAddress (text : GoString) : GoString := text ++ str ": invalid account address"

def EthOwnedAccount.validate (sdk : Sdk) (codec : AccountCodec) (a : EthOwnedAccount) : Except GoString Unit := do
  failIf (isBlank a.owner) (errInvalidAccountAddress (str "AccountOwner cannot be empty"))
  match a with
  | .base baseAccount _ => codec.validateBaseAccount baseAccount
  | .continuousVesting account _ => codec.validateBaseAccount account.baseAccount
  | .multiContinuousVesting baseAccount infos _ => do
    infos.forM (·.validate sdk)
    codec.validateBaseAccount baseAccount

def EthOwnedAccount.marshalJSON (sdk : Sdk) (codec : AccountCodec) (a : EthOwnedAccount) : Except GoString Bytes := do
  let accAddr ← sdk.accAddressFromBech32 a.baseAccount.address
  return codec.marshal ⟨accAddr, [], a.baseAccount.accountNumber, a.baseAccount.sequence, a.owner⟩

/-! ## Unmarshalling -/

/-- The SDK's vesting accounts, with the pointers that they embed. -/
structure BaseVestingFields where
  baseAccount : Option BaseAccount
  originalVesting : Coins
  endTime : ℤ
deriving DecidableEq, Repr

structure ContinuousVestingFields where
  baseVestingAccount : Option BaseVestingFields
  startTime : ℤ
deriving DecidableEq, Repr

/-- The variable that is read into. -/
inductive Receiver where
  | base (baseAccount : Option BaseAccount) (owner : GoString)
  | continuousVesting (account : Option ContinuousVestingFields) (owner : GoString)
  | multiContinuousVesting (baseAccount : Option BaseAccount) (infos : List VestingInfo) (owner : GoString)
deriving DecidableEq, Repr

namespace Receiver

/-- The zero value of an account's kind. -/
def zero : EthOwnedAccount → Receiver
  | .base _ _ => .base none []
  | .continuousVesting _ _ => .continuousVesting none []
  | .multiContinuousVesting _ _ _ => .multiContinuousVesting none [] []

/-- The account, if no pointer is nil. -/
def account? : Receiver → Option EthOwnedAccount
  | .base baseAccount owner => baseAccount.map (.base · owner)
  | .continuousVesting account owner => do
    let cva ← account
    let bva ← cva.baseVestingAccount
    let baseAccount ← bva.baseAccount
    return .continuousVesting ⟨baseAccount, bva.originalVesting, cva.startTime, bva.endTime⟩ owner
  | .multiContinuousVesting baseAccount infos owner => baseAccount.map (.multiContinuousVesting · infos owner)

/-- The assignment to the base account, which a continuous account reaches through two pointers. -/
def setBaseAccount (baseAccount : BaseAccount) : Receiver → Outcome GoString Receiver
  | .base _ owner => .ok (.base (some baseAccount) owner)
  | .continuousVesting account owner => do
    let cva ← required account errNilPointer
    let bva ← required cva.baseVestingAccount errNilPointer
    return .continuousVesting
      (some { cva with baseVestingAccount := some { bva with baseAccount := some baseAccount } }) owner
  | .multiContinuousVesting _ infos owner => .ok (.multiContinuousVesting (some baseAccount) infos owner)

def setOwner (owner : GoString) : Receiver → Receiver
  | .base baseAccount _ => .base baseAccount owner
  | .continuousVesting account _ => .continuousVesting account owner
  | .multiContinuousVesting baseAccount infos _ => .multiContinuousVesting baseAccount infos owner

def unmarshalJSON (sdk : Sdk) (codec : AccountCodec) (a : Receiver) (bz : Bytes) : Outcome GoString Receiver := do
  let pretty ← wrapping id (codec.unmarshal bz)
  let a ← a.setBaseAccount ⟨sdk.accAddressString pretty.address, none, pretty.accountNumber, pretty.sequence⟩
  return a.setOwner pretty.accountOwner

end Receiver

/-- An account written and read into a fresh value of its kind. -/
def jsonCopy (sdk : Sdk) (codec : AccountCodec) (a : EthOwnedAccount) : Outcome GoString Receiver := do
  let bz ← wrapping id (a.marshalJSON sdk codec)
  (Receiver.zero a).unmarshalJSON sdk codec bz

/-! ## Copies -/

variable {sdk : Sdk} {codec : AccountCodec} {a b : EthOwnedAccount}

/-- The details of an account that a copy should keep. -/
structure SameDetails (sdk : Sdk) (a b : EthOwnedAccount) : Prop where
  address_eq : sdk.accAddressFromBech32 b.baseAccount.address = sdk.accAddressFromBech32 a.baseAccount.address
  accountNumber_eq : b.baseAccount.accountNumber = a.baseAccount.accountNumber
  sequence_eq : b.baseAccount.sequence = a.baseAccount.sequence
  owner_eq : b.owner = a.owner
  lockedCoins_eq : ∀ blockTime, b.lockedCoins sdk blockTime = a.lockedCoins sdk blockTime

/-- The copy returns, and is an account with the same details. -/
def CopiesFaithfully (sdk : Sdk) (codec : AccountCodec) (a : EthOwnedAccount) : Prop :=
  ∃ r b, jsonCopy sdk codec a = .ok r ∧ r.account? = some b ∧ SameDetails sdk a b

/-- The address is a text of an account, the owner is UTF-8, and nothing vests. -/
structure Copyable (sdk : Sdk) (a : EthOwnedAccount) : Prop where
  address : ∃ bz, sdk.accAddressFromBech32 a.baseAccount.address = .ok bz
  owner : coerceUtf8 a.owner = a.owner
  schedules : a.schedules = []

/-- The account that reading back yields, of a kind that keeps no pointers to vesting. -/
def restored (sdk : Sdk) (bz : Bytes) : EthOwnedAccount → Option EthOwnedAccount
  | .base account owner => some
    (.base ⟨sdk.accAddressString bz, none, account.accountNumber, account.sequence⟩ (coerceUtf8 owner))
  | .continuousVesting _ _ => none
  | .multiContinuousVesting account _ owner => some (.multiContinuousVesting
    ⟨sdk.accAddressString bz, none, account.accountNumber, account.sequence⟩ [] (coerceUtf8 owner))

/-- What becomes of an account whose address can be read. -/
theorem jsonCopy_of_address (laws : AddressLaws sdk) (hcodec : codec.Lawful) {bz : Bytes}
    (h : sdk.accAddressFromBech32 a.baseAccount.address = .ok bz) :
    (∃ r, jsonCopy sdk codec a = .ok r ∧ r.account? = restored sdk bz a) ∨
      jsonCopy sdk codec a = .error errNilPointer ∧ restored sdk bz a = none := by
  have hread := hcodec ⟨bz, [], a.baseAccount.accountNumber, a.baseAccount.sequence, a.owner⟩
    (laws.accAddress_format h)
  have hbytes : a.marshalJSON sdk codec =
      .ok (codec.marshal ⟨bz, [], a.baseAccount.accountNumber, a.baseAccount.sequence, a.owner⟩) := by
    rw [EthOwnedAccount.marshalJSON, h]
    rfl
  have hcopy : jsonCopy sdk codec a = (do
      let r ← (Receiver.zero a).setBaseAccount
        ⟨sdk.accAddressString bz, none, a.baseAccount.accountNumber, a.baseAccount.sequence⟩
      return r.setOwner (coerceUtf8 a.owner)) := by
    rw [jsonCopy, hbytes, wrapping, Except.mapError, ok_bind, Receiver.unmarshalJSON, hread]
    rfl
  rw [hcopy]
  cases a with
  | base account owner => exact Or.inl ⟨_, rfl, rfl⟩
  | continuousVesting account owner => exact Or.inr ⟨rfl, rfl⟩
  | multiContinuousVesting account infos owner => exact Or.inl ⟨_, rfl, rfl⟩

theorem address_of_jsonCopy {r : Receiver} (h : jsonCopy sdk codec a = .ok r) :
    ∃ bz, sdk.accAddressFromBech32 a.baseAccount.address = .ok bz := by
  obtain ⟨_, hbytes, -⟩ := except_bind_eq_ok.mp h
  obtain ⟨bz, hbz, -⟩ := except_bind_eq_ok.mp (wrapping_eq_ok.mp hbytes)
  exact ⟨bz, hbz⟩

/-- Before its schedules start, a valid account with schedules locks something. -/
theorem unvested_pos (laws : CoinLaws sdk) {infos : List VestingInfo}
    (hvalid : ∀ info ∈ infos, info.validate sdk = .ok ()) (hne : infos ≠ []) :
    ∃ denom, 0 < total infos (·.unvested denom 0) := by
  obtain ⟨info, hinfo⟩ := List.exists_mem_of_ne_nil infos hne
  obtain ⟨⟨hstart, -⟩, hcoins, hpositive⟩ := VestingInfo.validate_eq_ok.mp (hvalid info hinfo)
  obtain ⟨hnonempty, hamounts⟩ := (laws.isAllPositive info.originalVesting).mp hpositive
  obtain ⟨c, hc⟩ := List.exists_mem_of_ne_nil info.originalVesting hnonempty
  have hsound := sound_of_validate hvalid
  refine ⟨c.denom, lt_of_lt_of_le ?_ (le_total (hsound.unvested_nonneg c.denom 0) hinfo)⟩
  rw [VestingInfo.unvested, VestingInfo.vested, released_of_le_start hstart, sub_zero, VestingInfo.original,
    amountOf_of_mem (hsound info hinfo).sorted hc]
  exact hamounts c hc

/-- The copy of a multi account keeps what is locked only if there are no schedules. -/
theorem schedules_nil_of_lockedCoins_eq (laws : CoinLaws sdk) {infos : List VestingInfo} {account account' : BaseAccount}
    {owner owner' : GoString} (hvalid : ∀ info ∈ infos, info.validate sdk = .ok ())
    (h : ∀ blockTime, (EthOwnedAccount.multiContinuousVesting account' [] owner').lockedCoins sdk blockTime =
      (EthOwnedAccount.multiContinuousVesting account infos owner).lockedCoins sdk blockTime) : infos = [] := by
  by_contra hne
  obtain ⟨denom, hpos⟩ := unvested_pos laws hvalid hne
  have hnone : Sound (EthOwnedAccount.multiContinuousVesting account' [] owner').schedules := by
    intro info hinfo
    cases hinfo
  have hzero : FitsDec 0 := by
    rw [FitsDec, zero_mul]
    exact Int.pow_pos (by decide)
  obtain ⟨coins, hcoins⟩ := lockedCoins_ok laws hnone (fun _ => hzero) 0
  have hcopy : amountOf coins denom = 0 := (lockedCoins_spec laws hnone hcoins).2 denom
  rw [h 0] at hcoins
  have hsound : Sound (EthOwnedAccount.multiContinuousVesting account infos owner).schedules := sound_of_validate hvalid
  have horiginal : amountOf coins denom = total infos (·.unvested denom 0) := (lockedCoins_spec laws hsound hcoins).2 denom
  exact hpos.ne (hcopy.symm.trans horiginal)

/-- A valid account is copied faithfully exactly if its address can be read, its owner is UTF-8 and
it has no schedule. A fresh continuous account cannot be read into at all, and the copy of a multi
account has lost its schedules and locks nothing. -/
theorem copiesFaithfully_iff (laws : CoinLaws sdk) (addresses : AddressLaws sdk) (hcodec : codec.Lawful)
    (hvalid : a.validate sdk codec = .ok ()) : CopiesFaithfully sdk codec a ↔ Copyable sdk a := by
  constructor
  · rintro ⟨r, b, hr, hb, hsame⟩
    obtain ⟨bz, hbz⟩ := address_of_jsonCopy hr
    rcases jsonCopy_of_address addresses hcodec hbz with ⟨r', hr', hrestored⟩ | ⟨herror, -⟩
    · cases hr.symm.trans hr'
      rw [hb] at hrestored
      have howner := hsame.owner_eq
      have hlocked := hsame.lockedCoins_eq
      cases a with
      | base account owner =>
        cases hrestored
        exact ⟨⟨bz, hbz⟩, howner, rfl⟩
      | continuousVesting account owner => cases hrestored
      | multiContinuousVesting account infos owner =>
        cases hrestored
        obtain ⟨_, -, hvalid⟩ := except_bind_eq_ok.mp hvalid
        obtain ⟨_, hinfos, -⟩ := except_bind_eq_ok.mp hvalid
        exact ⟨⟨bz, hbz⟩, howner, schedules_nil_of_lockedCoins_eq laws (except_forM_eq_ok.mp hinfos) hlocked⟩
    · cases hr.symm.trans herror
  · rintro ⟨⟨bz, hbz⟩, howner, hschedules⟩
    have haddress : sdk.accAddressFromBech32 (sdk.accAddressString bz) =
        sdk.accAddressFromBech32 a.baseAccount.address := by
      rw [hbz, addresses.accAddressFromBech32_string (addresses.accAddress_format hbz)]
    rcases jsonCopy_of_address addresses hcodec hbz with ⟨r, hr, hrestored⟩ | ⟨-, hnone⟩
    · cases a with
      | base account owner => exact ⟨r, _, hr, hrestored, haddress, rfl, rfl, howner, fun _ => rfl⟩
      | continuousVesting account owner => cases hschedules
      | multiContinuousVesting account infos owner =>
        obtain rfl : infos = [] := hschedules
        exact ⟨r, _, hr, hrestored, haddress, rfl, rfl, howner, fun _ => rfl⟩
    · cases a with
      | continuousVesting account owner => cases hschedules
      | base account owner | multiContinuousVesting account infos owner => cases hnone

/-! ## The reference environment -/

section Reference

open Reference

/-- The record of the first account of the depositor. -/
def depositorPretty : EthOwnedAccountPretty := ⟨depositor, [], 1, 0, ethText depositor⟩

def depositorJson : Bytes :=
  str "\x7b\"address\":\"fuelsequencer1zyg3zyg3zyg3zyg3zyg3zyg3zyg3zyg3kddtjd\",\"public_key\":\"\"," ++
  str "\"account_number\":1,\"sequence\":0," ++
  str "\"account_owner\":\"0x1111111111111111111111111111111111111111\"\x7d"

/-- The fields of another record. -/
def prettyFields (p : EthOwnedAccountPretty) : List Field :=
  bytesField 1 p.address ++ bytesField 2 (coerceUtf8 p.pubKey) ++ uintField 3 p.accountNumber.toNat ++
    uintField 4 p.sequence.toNat ++ bytesField 5 (coerceUtf8 p.accountOwner)

/-- The JSON text of one record; the others are written in the form of a message. -/
def accountCodec : AccountCodec where
  marshal p := if p = depositorPretty then depositorJson else encodeFields (prettyFields p)
  unmarshal bz :=
    if bz = depositorJson then .ok depositorPretty
    else orEof ((decodeFields bz).map fun fs => ⟨bytesAt 1 fs, bytesAt 2 fs, UInt64.ofNat (uintAt 3 fs),
      UInt64.ofNat (uintAt 4 fs), bytesAt 5 fs⟩)
  validateBaseAccount account :=
    if account.pubKey = none then .ok () else .error (str "account address and pubkey address do not match")

theorem accountCodec_lawful : accountCodec.Lawful := by
  intro p _
  by_cases hp : p = depositorPretty
  · subst hp
    decide +kernel
  · have hne : encodeFields (prettyFields p) ≠ depositorJson := by
      intro heq
      have hnone : decodeFields depositorJson = none := by decide +kernel
      rw [← heq, decodeFields_encodeFields] at hnone
      cases hnone
    simp only [accountCodec, if_neg hp, if_neg hne, decodeFields_encodeFields, Option.map_some, orEof]
    simp [prettyFields, bytesAt, uintAt]

def depositorAccount : BaseAccount := ⟨bech32String depositor, none, 1, 0⟩

theorem copiesFaithfully_iff_reference :
    CopiesFaithfully Reference.sdk accountCodec (.base depositorAccount (ethText depositor)) := by
  have hvalid : (EthOwnedAccount.base depositorAccount (ethText depositor)).validate Reference.sdk accountCodec =
      .ok () := by decide +kernel
  refine (copiesFaithfully_iff Reference.sdk_coinLaws addressLaws accountCodec_lawful hvalid).mpr ⟨?_, ?_, rfl⟩
  · have haddress : fromBech32 (bech32String depositor) = .ok depositor := by decide +kernel
    exact ⟨depositor, haddress⟩
  · exact coerceUtf8_of_ascii (by decide +kernel)

/-- The accounts of the depositor with 100 coins that vest from second 10 to second 20. -/
def vestingDepositor : EthOwnedAccount :=
  .continuousVesting ⟨depositorAccount, [⟨str "fuel", 100⟩], 10, 20⟩ (ethText depositor)

def multiVestingDepositor : EthOwnedAccount :=
  .multiContinuousVesting depositorAccount [⟨[⟨str "fuel", 100⟩], 10, 20⟩] (ethText depositor)

/-- The copy of the multi account. -/
def unlockedDepositor : EthOwnedAccount := .multiContinuousVesting depositorAccount [] (ethText depositor)

/-- Both pass their validation. The copy of the first panics, and that of the second locks nothing at
second 10, when all the coins are locked. -/
theorem json_copy_unlocks :
    vestingDepositor.validate Reference.sdk accountCodec = .ok () ∧
    jsonCopy Reference.sdk accountCodec vestingDepositor = .error errNilPointer ∧
    ¬ CopiesFaithfully Reference.sdk accountCodec vestingDepositor ∧
    multiVestingDepositor.validate Reference.sdk accountCodec = .ok () ∧
    (jsonCopy Reference.sdk accountCodec multiVestingDepositor).map Receiver.account? = .ok (some unlockedDepositor) ∧
    multiVestingDepositor.lockedCoins Reference.sdk (10 * 10 ^ 9) = .ok [⟨str "fuel", 100⟩] ∧
    unlockedDepositor.lockedCoins Reference.sdk (10 * 10 ^ 9) = .ok [] ∧
    ¬ CopiesFaithfully Reference.sdk accountCodec multiVestingDepositor := by
  have hpanic : jsonCopy Reference.sdk accountCodec vestingDepositor = .error errNilPointer := by decide +kernel
  have hcopy : (jsonCopy Reference.sdk accountCodec multiVestingDepositor).map Receiver.account? =
      .ok (some unlockedDepositor) := by decide +kernel
  have hlocked : multiVestingDepositor.lockedCoins Reference.sdk (10 * 10 ^ 9) = .ok [⟨str "fuel", 100⟩] := by
    decide +kernel
  have hunlocked : unlockedDepositor.lockedCoins Reference.sdk (10 * 10 ^ 9) = .ok [] := by decide +kernel
  refine ⟨by decide +kernel, hpanic, ?_, by decide +kernel, hcopy, hlocked, hunlocked, ?_⟩
  · rintro ⟨r, b, hr, -, -⟩
    cases hpanic.symm.trans hr
  · rintro ⟨r, b, hr, hb, hsame⟩
    rw [hr, Except.map, hb] at hcopy
    obtain rfl : b = unlockedDepositor := Option.some.inj (Except.ok.inj hcopy)
    have hequal := hsame.lockedCoins_eq (10 * 10 ^ 9)
    rw [hlocked, hunlocked] at hequal
    cases hequal

end Reference

end FuelSequencer.Bridge
