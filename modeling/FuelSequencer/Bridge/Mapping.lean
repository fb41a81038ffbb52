import FuelSequencer.App.Reference

/-! # Ethereum and Sequencer addresses

An Ethereum address is 20 bytes and maps to the account of these bytes. The way back
reads the text of an account or of a validator, whose address may have another length,
and makes 20 bytes of it.
-/
namespace FuelSequencer.Bridge
open Go Wire Exec Lib Wiring

variable {sdk : Sdk} {ethAddress seqAddress : GoString} {bz : Bytes}

/-- `common.BytesToAddress` keeps the last bytes and puts zeros before fewer. -/
def bytesToAddress (b : Bytes) : Bytes :=
  let kept := b.drop (b.length - addressLength)
  List.replicate (addressLength - kept.length) 0 ++ kept

theorem length_bytesToAddress (b : Bytes) : (bytesToAddress b).length = addressLength := by
  simp only [bytesToAddress, List.length_append, List.length_replicate, List.length_drop]
  omega

theorem bytesToAddress_eq_self (h : bz.length = addressLength) : bytesToAddress bz = bz := by
  simp only [bytesToAddress, h, Nat.sub_self, List.drop_zero, List.replicate_zero, List.nil_append]

def generateEthereumAddressFromSequencerAddress (sdk : Sdk) (seqAddress : GoString) : Except GoString Bytes :=
  match sdk.accAddressFromBech32 seqAddress with
  | .ok accAddress => .ok (bytesToAddress accAddress)
  | .error err1 =>
    match sdk.valAddressFromBech32 seqAddress with
    | .ok valAddress => .ok (bytesToAddress valAddress)
    | .error _ => .error (str "could not parse address into a Sequencer address: " ++ err1)

/-- `SequencerAddressFromEthereumAddress`, the query. -/
def sequencerAddressFromEthereumAddress (sdk : Sdk) (ethereumAddress : GoString) : Except GoString GoString := do
  let sequencerAddress ← generateSequencerAddressFromEthereumAddress sdk ethereumAddress
  return sdk.accAddressString sequencerAddress

/-- `EthereumAddressFromSequencerAddress`, the query. -/
def ethereumAddressFromSequencerAddress (sdk : Sdk) (sequencerAddress : GoString) : Except GoString GoString := do
  let ethereumAddress ← generateEthereumAddressFromSequencerAddress sdk sequencerAddress
  return sdk.ethAddressString ethereumAddress

/-- The bytes of a text that is read as the address of an account or else of a validator. -/
inductive ReadAs (sdk : Sdk) (seqAddress : GoString) (bz : Bytes) : Prop where
  | account (h : sdk.accAddressFromBech32 seqAddress = .ok bz)
  | validator {err : GoString} (hacc : sdk.accAddressFromBech32 seqAddress = .error err)
      (h : sdk.valAddressFromBech32 seqAddress = .ok bz)

theorem ReadAs.unique {bz' : Bytes} (h : ReadAs sdk seqAddress bz) (h' : ReadAs sdk seqAddress bz') : bz = bz' := by
  cases h with
  | account h =>
    cases h' with
    | account h' => exact Except.ok.inj (h.symm.trans h')
    | validator hacc _ => cases h.symm.trans hacc
  | validator hacc h =>
    cases h' with
    | account h' => cases hacc.symm.trans h'
    | validator _ h' => exact Except.ok.inj (h.symm.trans h')

theorem generateEthereumAddress_eq_ok {address : Bytes} :
    generateEthereumAddressFromSequencerAddress sdk seqAddress = .ok address ↔
      ∃ bz, ReadAs sdk seqAddress bz ∧ address = bytesToAddress bz := by
  unfold generateEthereumAddressFromSequencerAddress
  constructor
  · intro h
    cases hacc : sdk.accAddressFromBech32 seqAddress with
    | ok bz =>
      rw [hacc] at h
      exact ⟨bz, .account hacc, (Except.ok.inj h).symm⟩
    | error err =>
      rw [hacc] at h
      cases hval : sdk.valAddressFromBech32 seqAddress with
      | ok bz =>
        simp only [hval] at h
        exact ⟨bz, .validator hacc hval, (Except.ok.inj h).symm⟩
      | error err' =>
        simp only [hval] at h
        cases h
  · rintro ⟨bz, hread, rfl⟩
    cases hread with
    | account hacc => rw [hacc]
    | validator hacc hval => rw [hacc, hval]

/-- What the Ethereum library does with the text of an address. -/
structure EthTextLaws (sdk : Sdk) : Prop where
  isHexAddress_string : ∀ {bz : Bytes}, bz.length = addressLength → isHexAddress (sdk.ethAddressString bz)
  fromHex_string : ∀ {bz : Bytes}, bz.length = addressLength → fromHex (sdk.ethAddressString bz) = bz

/-- An Ethereum address comes back from the text of its account. -/
theorem generateEthereumAddress_of_isHexAddress (laws : AddressLaws sdk) (h : isHexAddress ethAddress) :
    generateEthereumAddressFromSequencerAddress sdk (sdk.accAddressString (fromHex ethAddress)) =
      .ok (fromHex ethAddress) := by
  refine generateEthereumAddress_eq_ok.mpr ⟨fromHex ethAddress, .account ?_, ?_⟩
  · exact laws.accAddressFromBech32_string (verifyAddressFormat_fromHex h)
  · rw [bytesToAddress_eq_self (length_fromHex h)]

/-- The two queries: an address comes back in the library's own spelling. -/
theorem ethereumAddressFromSequencerAddress_of_query (laws : AddressLaws sdk) (hhex : isHexAddress ethAddress)
    (h : sequencerAddressFromEthereumAddress sdk ethAddress = .ok seqAddress) :
    ethereumAddressFromSequencerAddress sdk seqAddress = .ok (sdk.ethAddressString (fromHex ethAddress)) := by
  rw [sequencerAddressFromEthereumAddress, generateSequencerAddress_of_isHexAddress sdk hhex, ok_bind] at h
  rw [← Except.ok.inj h, ethereumAddressFromSequencerAddress, generateEthereumAddress_of_isHexAddress laws hhex]
  rfl

/-- The text of an address of any bytes maps to its last 20 bytes. -/
theorem generateSequencerAddress_bytesToAddress (texts : EthTextLaws sdk) (bz : Bytes) :
    generateSequencerAddressFromEthereumAddress sdk (sdk.ethAddressString (bytesToAddress bz)) =
      .ok (bytesToAddress bz) := by
  have hlength := length_bytesToAddress bz
  rw [generateSequencerAddress_of_isHexAddress sdk (texts.isHexAddress_string hlength), texts.fromHex_string hlength]

theorem bytesToAddress_eq_iff : bytesToAddress bz = bz ↔ bz.length = addressLength := by
  constructor
  · intro h
    rw [← h, length_bytesToAddress]
  · exact bytesToAddress_eq_self

/-- Every Ethereum address, in every hexadecimal form, maps to an account from whose text its 20
bytes come back, and different addresses map to accounts with different texts. A text of a
Sequencer address that the way back accepts is mapped to its own bytes again exactly if these are
20 bytes; longer ones lose their first bytes. -/
theorem addresses_correspond_iff (laws : AddressLaws sdk) (texts : EthTextLaws sdk) :
    (∀ ethAddress, isHexAddress ethAddress → (fromHex ethAddress).length = addressLength ∧
      ∃ accAddress, generateSequencerAddressFromEthereumAddress sdk ethAddress = .ok accAddress ∧
        generateEthereumAddressFromSequencerAddress sdk (sdk.accAddressString accAddress) = .ok (fromHex ethAddress)) ∧
    (∀ ethAddress ethAddress' accAddress accAddress',
      generateSequencerAddressFromEthereumAddress sdk ethAddress = .ok accAddress →
      generateSequencerAddressFromEthereumAddress sdk ethAddress' = .ok accAddress' →
      sdk.accAddressString accAddress = sdk.accAddressString accAddress' → fromHex ethAddress = fromHex ethAddress') ∧
    ∀ seqAddress address bz, generateEthereumAddressFromSequencerAddress sdk seqAddress = .ok address →
      ReadAs sdk seqAddress bz →
      (generateSequencerAddressFromEthereumAddress sdk (sdk.ethAddressString address) = .ok bz ↔
        bz.length = addressLength) := by
  refine ⟨?_, ?_, ?_⟩
  · intro ethAddress h
    exact ⟨length_fromHex h, _, generateSequencerAddress_of_isHexAddress sdk h,
      generateEthereumAddress_of_isHexAddress laws h⟩
  · intro ethAddress ethAddress' accAddress accAddress' h h' htext
    obtain ⟨_, hhex, -⟩ := except_bind_eq_ok.mp h
    obtain ⟨_, hhex', -⟩ := except_bind_eq_ok.mp h'
    rw [failIf_eq_ok, not_not] at hhex hhex'
    rw [generateSequencerAddress_of_isHexAddress sdk hhex] at h
    rw [generateSequencerAddress_of_isHexAddress sdk hhex'] at h'
    cases h
    cases h'
    exact accAddressString_inj laws (verifyAddressFormat_fromHex hhex) (verifyAddressFormat_fromHex hhex') htext
  · intro seqAddress address bz h hread
    obtain ⟨bz', hread', rfl⟩ := generateEthereumAddress_eq_ok.mp h
    obtain rfl := hread.unique hread'
    rw [generateSequencerAddress_bytesToAddress texts, Except.ok.injEq, bytesToAddress_eq_iff]

/-! ## The reference environment -/

section Reference

open Reference

theorem addressLaws : AddressLaws Reference.sdk where
  accAddressFromBech32_string := fromBech32_bech32String
  bech32StringToBytes_string := fromBech32_bech32String
  string_text bz _ := by
    obtain ⟨rest, hrest⟩ := bech32String_eq_cons bz
    rw [show Reference.sdk.accAddressString bz = _ from hrest]
    refine ⟨by simp [isBlank, blankLoop, spaceWidth], decide_eq_false fun hhex => ?_⟩
    -- the second letter of the human-readable part is no hexadecimal digit
    exact absurd (hhex.2 117 (List.mem_cons_of_mem _ List.mem_cons_self)) (by decide)
  accAddress_format := verifyAddressFormat_fromBech32
  valAddress_format {text bz} h := by
    change (if text = operatorAddress then _ else _) = Except.ok bz at h
    split at h
    · exact Except.ok.inj h ▸ rfl
    · cases h
  codec_format := verifyAddressFormat_fromBech32

theorem ethTextLaws : EthTextLaws Reference.sdk where
  isHexAddress_string h := isHexAddress_hexUpper h
  fromHex_string {bz} _ := fromHex_hexUpper bz

theorem addresses_correspond_iff_reference :
    generateEthereumAddressFromSequencerAddress Reference.sdk (bech32String depositor) = .ok depositor ∧
    generateSequencerAddressFromEthereumAddress Reference.sdk (ethText operator) = .ok operator := by
  obtain ⟨hback, -, hforth⟩ := addresses_correspond_iff addressLaws ethTextLaws
  obtain ⟨-, accAddress, hacc, heth⟩ := hback (ethText depositor) (by decide +kernel)
  have hdepositor : generateSequencerAddressFromEthereumAddress Reference.sdk (ethText depositor) = .ok depositor := by
    decide +kernel
  obtain rfl := Except.ok.inj (hacc.symm.trans hdepositor)
  have hhex : fromHex (ethText depositor) = depositor := fromHex_hexUpper depositor
  rw [hhex] at heth
  have haccount : Reference.sdk.accAddressFromBech32 operatorAddress = .error (str "decoding bech32 failed") := by
    decide +kernel
  refine ⟨heth, (hforth operatorAddress operator operator ?_ ?_).mpr rfl⟩
  · decide +kernel
  · exact .validator haccount (by decide +kernel)

/-- An account whose address has 32 bytes, as those derived by modules have, and its text. -/
def longAddress : Bytes := List.replicate 12 1 ++ depositor
def longText : GoString := str "fuelsequencer1qyqszqgpqyqszqgpqyq3zyg3zyg3zyg3zyg3zyg3zyg3zyg3zygs8nn2zp"

def longSdk : Sdk := { Reference.sdk with
  accAddressFromBech32 := fun text => if text = longText then .ok longAddress else fromBech32 text }

/-- The account maps to the Ethereum address of the depositor, which maps to the depositor. -/
theorem long_address_is_cut :
    ReadAs longSdk longText longAddress ∧
    generateEthereumAddressFromSequencerAddress longSdk longText = .ok depositor ∧
    generateSequencerAddressFromEthereumAddress longSdk (longSdk.ethAddressString depositor) = .ok depositor ∧
    generateEthereumAddressFromSequencerAddress longSdk (bech32String depositor) = .ok depositor ∧
    depositor ≠ longAddress :=
  ⟨.account (by decide +kernel), by decide +kernel, by decide +kernel, by decide +kernel, by decide⟩

end Reference

end FuelSequencer.Bridge
