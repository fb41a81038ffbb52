import FuelSequencer.Abci.Generate
import FuelSequencer.Bridge.Mapping

/-! # Blocked accounts

The block list is a set of texts from four sources, and an account is looked up
under the text that the SDK gives its bytes. The list blocks the accounts it is
meant to block exactly if each of them is on it under that text too.
-/
namespace FuelSequencer.Abci
open Go Wire Exec Lib Bridge Wiring

variable {W : Type} {app : App W} {s : State W} {validators blocked : List GoString} {address : Bytes}

/-- The texts that enter the block list as they are. -/
def listedTexts (app : App W) (s : State W) : List GoString :=
  app.keeper.blockedAddresses ++ s.bridge.params.additionalBlockedAddresses ++ [app.keeper.authority]

/-- The accounts that the bridge is meant to block. -/
inductive Barred (app : App W) (s : State W) (validators : List GoString) (address : Bytes) : Prop where
  | additional {text : GoString} (h : text ∈ s.bridge.params.additionalBlockedAddresses)
      (hdecode : app.sdk.accAddressFromBech32 text = .ok address)
  | keeper {text : GoString} (h : text ∈ app.keeper.blockedAddresses)
      (hdecode : app.sdk.accAddressFromBech32 text = .ok address)
  | authority (hdecode : app.sdk.accAddressFromBech32 app.keeper.authority = .ok address)
  | validator {operator : GoString} (h : operator ∈ validators)
      (hdecode : app.sdk.valAddressFromBech32 operator = .ok address)

/-- The operator addresses of the last validators can be read. -/
structure LastValidators (app : App W) (s : State W) (validators : List GoString) : Prop where
  answer : app.modules.getLastValidators s.world = .ok validators
  readable : ∀ operator ∈ validators, ∃ bz, app.sdk.valAddressFromBech32 operator = .ok bz

/-- Barred accounts are those of the listed texts and those of the validators. -/
theorem barred_iff : Barred app s validators address ↔
    (∃ text ∈ listedTexts app s, app.sdk.accAddressFromBech32 text = .ok address) ∨
      ∃ operator ∈ validators, app.sdk.valAddressFromBech32 operator = .ok address := by
  constructor
  · rintro (⟨h, hdecode⟩ | ⟨h, hdecode⟩ | hdecode | ⟨h, hdecode⟩)
    · exact .inl ⟨_, by simp [listedTexts, h], hdecode⟩
    · exact .inl ⟨_, by simp [listedTexts, h], hdecode⟩
    · exact .inl ⟨_, by simp [listedTexts], hdecode⟩
    · exact .inr ⟨_, h, hdecode⟩
  · rintro (⟨text, h, hdecode⟩ | ⟨operator, h, hdecode⟩)
    · rcases List.mem_append.mp h with h | h
      · rcases List.mem_append.mp h with h | h
        · exact .keeper h hdecode
        · exact .additional h hdecode
      · rw [List.mem_singleton.mp h] at hdecode
        exact .authority hdecode
    · exact .validator h hdecode

/-- The block list, and what is on it. -/
theorem getAllBlocked_of_lastValidators (hlast : LastValidators app s validators) :
    ∃ blocked, getAllBlockedBech32Addresses app s = .ok blocked ∧ ∀ text, text ∈ blocked ↔
      text ∈ listedTexts app s ∨
        ∃ operator ∈ validators, ∃ bz, app.sdk.valAddressFromBech32 operator = .ok bz ∧
          app.sdk.accAddressString bz = text := by
  obtain ⟨operators, hoperators⟩ : ∃ operators, List.Forall₂ (fun v text =>
      (do let valAddr ← app.sdk.valAddressFromBech32 v
          return app.sdk.accAddressString valAddr) = Except.ok text) validators operators := by
    have hall := hlast.readable
    clear hlast
    induction validators with
    | nil => exact ⟨[], .nil⟩
    | cons v validators ih =>
      obtain ⟨bz, hbz⟩ := hall v List.mem_cons_self
      obtain ⟨operators, hrest⟩ := ih fun w hw => hall w (List.mem_cons_of_mem _ hw)
      exact ⟨app.sdk.accAddressString bz :: operators, .cons (by rw [hbz]; rfl) hrest⟩
  refine ⟨app.keeper.blockedAddresses ++ s.bridge.params.additionalBlockedAddresses ++ operators ++
    [app.keeper.authority], ?_, ?_⟩
  · exact except_bind_eq_ok.mpr ⟨_, hlast.answer, except_bind_eq_ok.mpr ⟨_, except_mapM_eq_ok.mpr hoperators, rfl⟩⟩
  · intro text
    have hmem : text ∈ operators ↔ ∃ operator ∈ validators, ∃ bz, app.sdk.valAddressFromBech32 operator = .ok bz ∧
        app.sdk.accAddressString bz = text := by
      clear hlast
      induction hoperators with
      | nil => simp
      | cons h _ ih =>
        obtain ⟨bz, hbz, htext⟩ := except_bind_eq_ok.mp h
        obtain rfl := Except.ok.inj htext
        simp only [List.mem_cons, ih, exists_eq_or_imp, hbz, Except.ok.injEq, exists_eq_left', @eq_comm _ text]
    rw [← hmem]
    simp only [listedTexts, List.mem_append]
    tauto

/-! ## What blocking means -/

/-- A message of a barred account is refused under every text of the account and by every
sender; an account that is not barred is on no list. -/
structure Enforced (app : App W) (s : State W) (validators : List GoString) : Prop where
  barred_blocked : ∀ {address : Bytes} {text : GoString}, Barred app s validators address →
    stringToBytes app.sdk text = .ok address → isAddressBlocked app s text = .ok true
  barred_rejected : ∀ {address : Bytes} {blocked : List GoString} {sender : GoString} {msgs : List Msg} {msg : Msg}
    {signers : List Bytes}, Barred app s validators address → getAllBlockedBech32Addresses app s = .ok blocked →
      msg ∈ msgs → app.sdk.getMsgV1Signers msg = .ok signers → address ∈ signers →
        authenticateTx app.sdk sender msgs blocked ≠ .ok ()
  free_not_blocked : ∀ {address : Bytes} {text : GoString}, ¬ Barred app s validators address →
    stringToBytes app.sdk text = .ok address → isAddressBlocked app s text = .ok false
  free_not_listed : ∀ {address : Bytes} {blocked : List GoString}, ¬ Barred app s validators address →
    verifyAddressFormat address = .ok () → getAllBlockedBech32Addresses app s = .ok blocked →
      app.sdk.accAddressString address ∉ blocked

/-- Each listed account is also listed under the text that the SDK gives it, or is the account
of a validator. -/
def CanonicallyListed (app : App W) (s : State W) (validators : List GoString) : Prop :=
  ∀ text ∈ listedTexts app s, ∀ bz, app.sdk.accAddressFromBech32 text = .ok bz →
    app.sdk.accAddressString bz ∈ listedTexts app s ∨
      ∃ operator ∈ validators, app.sdk.valAddressFromBech32 operator = .ok bz

theorem isAddressBlocked_of_stringToBytes {text : GoString}
    (hblocked : getAllBlockedBech32Addresses app s = .ok blocked) (htext : stringToBytes app.sdk text = .ok address) :
    isAddressBlocked app s text = .ok (app.sdk.accAddressString address ∈ blocked : Bool) := by
  rw [isAddressBlocked, hblocked, ok_bind, htext]
  rfl

/-- An account whose text is on the list is barred. -/
theorem barred_of_mem_blocked (laws : AddressLaws app.sdk) (hlast : LastValidators app s validators)
    (hblocked : getAllBlockedBech32Addresses app s = .ok blocked) (hformat : verifyAddressFormat address = .ok ())
    (hmem : app.sdk.accAddressString address ∈ blocked) : Barred app s validators address := by
  obtain ⟨blocked', hblocked', hiff⟩ := getAllBlocked_of_lastValidators hlast
  obtain rfl := Except.ok.inj (hblocked.symm.trans hblocked')
  refine barred_iff.mpr ?_
  rcases (hiff _).mp hmem with hlisted | ⟨operator, hoperator, bz, hbz, htext⟩
  · exact .inl ⟨_, hlisted, laws.accAddressFromBech32_string hformat⟩
  · obtain rfl := accAddressString_inj laws (laws.valAddress_format hbz) hformat htext
    exact .inr ⟨operator, hoperator, hbz⟩

theorem mem_blocked_of_barred (hlast : LastValidators app s validators)
    (hblocked : getAllBlockedBech32Addresses app s = .ok blocked) (hlisted : CanonicallyListed app s validators)
    (hbarred : Barred app s validators address) : app.sdk.accAddressString address ∈ blocked := by
  obtain ⟨blocked', hblocked', hiff⟩ := getAllBlocked_of_lastValidators hlast
  obtain rfl := Except.ok.inj (hblocked.symm.trans hblocked')
  refine (hiff _).mpr ?_
  rcases barred_iff.mp hbarred with ⟨text, htext, hdecode⟩ | ⟨operator, hoperator, hdecode⟩
  · rcases hlisted text htext _ hdecode with h | ⟨operator, hoperator, hoperatorDecode⟩
    · exact .inl h
    · exact .inr ⟨operator, hoperator, _, hoperatorDecode, rfl⟩
  · exact .inr ⟨operator, hoperator, _, hdecode, rfl⟩

/-- The bridge blocks the accounts that it is meant to block, and no others, exactly if every
listed account is listed under the SDK's own text for it. -/
theorem enforced_iff_canonicallyListed (laws : AddressLaws app.sdk) (hlast : LastValidators app s validators) :
    Enforced app s validators ↔ CanonicallyListed app s validators := by
  obtain ⟨blocked, hblocked, hiff⟩ := getAllBlocked_of_lastValidators hlast
  constructor
  · intro henforced text htext bz hbz
    have hformat := laws.accAddress_format hbz
    have hbarred : Barred app s validators bz := barred_iff.mpr (.inl ⟨text, htext, hbz⟩)
    have hcanonical := stringToBytes_accAddressString laws hformat
    have htrue := henforced.barred_blocked hbarred hcanonical
    rw [isAddressBlocked_of_stringToBytes hblocked hcanonical, Except.ok.injEq, decide_eq_true_eq] at htrue
    rcases (hiff _).mp htrue with hlisted | ⟨operator, hoperator, bz', hbz', heq⟩
    · exact .inl hlisted
    · obtain rfl := accAddressString_inj laws (laws.valAddress_format hbz') hformat heq
      exact .inr ⟨operator, hoperator, hbz'⟩
  · intro hlisted
    refine ⟨?_, ?_, ?_, ?_⟩
    · intro address text hbarred htext
      rw [isAddressBlocked_of_stringToBytes hblocked htext,
        decide_eq_true (mem_blocked_of_barred hlast hblocked hlisted hbarred)]
    · intro address blocked' sender msgs msg signers hbarred hblocked' hmsg hsigners haddress hok
      obtain ⟨mapped, -, hall⟩ := authenticateTx_eq_ok.mp hok
      obtain ⟨-, signers', hsigners', hfree⟩ := hall msg hmsg
      obtain rfl := Except.ok.inj (hsigners.symm.trans hsigners')
      exact (hfree address haddress).2 (mem_blocked_of_barred hlast hblocked' hlisted hbarred)
    · intro address text hfree htext
      have hnot : app.sdk.accAddressString address ∉ blocked := fun hmem =>
        hfree (barred_of_mem_blocked laws hlast hblocked (verifyAddressFormat_of_stringToBytes laws htext) hmem)
      rw [isAddressBlocked_of_stringToBytes hblocked htext, decide_eq_false hnot]
    · intro address blocked' hfree hformat hblocked' hmem
      exact hfree (barred_of_mem_blocked laws hlast hblocked' hformat hmem)

/-! ## The reference environment -/

section Reference

open Reference

/-- The bridge module's account is blocked by the keeper. -/
def blockingApp : App Ledger := { Reference.app with keeper := ⟨authority, [bech32String bridgeAddress]⟩ }

/-- The state with one more blocked address, given as a text. -/
def stateBlocking (text : GoString) : State Ledger :=
  { state with bridge := { store with params := { params with additionalBlockedAddresses := [text] } } }

theorem lastValidators_stateBlocking (text : GoString) :
    LastValidators blockingApp (stateBlocking text) [operatorAddress] where
  answer := rfl
  readable operator h := ⟨Reference.operator, by rw [List.mem_singleton.mp h]; rfl⟩

theorem enforced_for_recipient : Enforced blockingApp (stateBlocking (bech32String recipient)) [operatorAddress] := by
  refine (enforced_iff_canonicallyListed addressLaws (lastValidators_stateBlocking _)).mpr fun text htext bz hbz => ?_
  have hall : ∀ text ∈ listedTexts blockingApp (stateBlocking (bech32String recipient)),
      (fromBech32 text).map bech32String = .ok text := by decide +kernel
  have htexts := hall text htext
  rw [show fromBech32 text = .ok bz from hbz] at htexts
  obtain rfl : bech32String bz = text := Except.ok.inj htexts
  exact .inl htext

/-- The text of the depositor's account in upper case. -/
def depositorUpper : GoString := str "FUELSEQUENCER1ZYG3ZYG3ZYG3ZYG3ZYG3ZYG3ZYG3ZYG3KDDTJD"

/-- An account that is listed in upper case is not blocked, and its messages pass. -/
theorem upper_case_entry_not_blocked :
    (stateBlocking depositorUpper).bridge.params.validate Reference.sdk = .ok () ∧
      Barred blockingApp (stateBlocking depositorUpper) [operatorAddress] depositor ∧
      (∀ text ∈ [ethText depositor, bech32String depositor, depositorUpper],
        stringToBytes Reference.sdk text = .ok depositor ∧
          isAddressBlocked blockingApp (stateBlocking depositorUpper) text = .ok false) ∧
      ∃ blocked, getAllBlockedBech32Addresses blockingApp (stateBlocking depositorUpper) = .ok blocked ∧
        Reference.sdk.getMsgV1Signers (.other transferAny) = .ok [depositor] ∧
        authenticateTx Reference.sdk (ethText depositor) [.other transferAny] blocked = .ok () := by
  refine ⟨by decide +kernel, .additional (List.mem_singleton.mpr rfl) (by decide +kernel), by decide +kernel, ?_⟩
  exact ⟨_, rfl, by decide +kernel, by decide +kernel⟩

end Reference

end FuelSequencer.Abci
