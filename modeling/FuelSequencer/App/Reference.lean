import FuelSequencer.Bridge.Accounts
import FuelSequencer.Bridge.Coins

/-! # A reference environment

Functions that do on small inputs what the SDK does: the decoder reads the wire form
back and resolves the messages it knows, the bank keeps supplies and balances, and the
ante chain rejects unsigned transactions. The addresses of the examples have no letters
in their hexadecimal text, so that no checksum case arises.
-/
namespace FuelSequencer.Reference
open Go Wire Exec Lib Bridge Wiring

/-! ## Messages -/

def readSupplyDelta (bz : Bytes) : Option MsgSupplyDelta :=
  (decodeFields bz).map fun fs => ⟨bytesAt 1 fs⟩

def readDepositFromEthereum (bz : Bytes) : Option MsgDepositFromEthereum :=
  (decodeFields bz).map fun fs => ⟨bytesAt 1 fs, bytesAt 2 fs, bytesAt 3 fs, bytesAt 4 fs, bytesAt 5 fs⟩

def readSkippedEventTx (bz : Bytes) : Option MsgSkippedEventTx :=
  (decodeFields bz).map fun fs => ⟨bytesAt 1 fs, bytesAt 2 fs, UInt64.ofNat (uintAt 3 fs),
    UInt64.ofNat (uintAt 4 fs), UInt64.ofNat (uintAt 5 fs), bytesAt 6 fs⟩

def readDepositEvent (bz : Bytes) : Option DepositEvent :=
  (decodeFields bz).map fun fs => ⟨bytesAt 1 fs, bytesAt 2 fs, bytesAt 3 fs, bytesAt 4 fs⟩

def readAuthorizeEvent (bz : Bytes) : Option AuthorizeEvent :=
  (decodeFields bz).map fun fs => ⟨bytesAt 1 fs, bytesAt 2 fs⟩

theorem readSupplyDelta_encode (m : MsgSupplyDelta) : readSupplyDelta (encodeFields m.fields) = some m := by
  rw [readSupplyDelta, decodeFields_encodeFields]
  simp [MsgSupplyDelta.fields, bytesAt]

theorem readDepositFromEthereum_encode (m : MsgDepositFromEthereum) :
    readDepositFromEthereum (encodeFields m.fields) = some m := by
  rw [readDepositFromEthereum, decodeFields_encodeFields]
  simp [MsgDepositFromEthereum.fields, bytesAt]

theorem readSkippedEventTx_encode (m : MsgSkippedEventTx) :
    readSkippedEventTx (encodeFields m.fields) = some m := by
  rw [readSkippedEventTx, decodeFields_encodeFields]
  simp [MsgSkippedEventTx.fields, bytesAt, uintAt]

theorem readDepositEvent_encode (m : DepositEvent) : readDepositEvent (encodeFields m.fields) = some m := by
  rw [readDepositEvent, decodeFields_encodeFields]
  simp [DepositEvent.fields, bytesAt]

def msgSendTypeUrl : GoString := str "/cosmos.bank.v1beta1.MsgSend"

def resolved {α : Type} (wrap : α → Msg) : Option α → Except GoString Msg
  | some m => .ok (wrap m)
  | none => .error (str "unexpected EOF")

def unpackAny (a : Any) : Except GoString Msg :=
  if a.typeUrl = msgSupplyDeltaTypeUrl then resolved .supplyDelta (readSupplyDelta a.value)
  else if a.typeUrl = msgDepositFromEthereumTypeUrl then
    resolved .depositFromEthereum (readDepositFromEthereum a.value)
  else if a.typeUrl = msgIndexTypeUrl then resolved .index (MsgIndex.read a.value)
  else if a.typeUrl = msgSkippedEventTxTypeUrl then resolved .skippedEventTx (readSkippedEventTx a.value)
  else if a.typeUrl = msgSendTypeUrl then .ok (.other a)
  else .error (str "unable to resolve type URL " ++ a.typeUrl)

def txDecode (bz : Bytes) : Except GoString Tx :=
  match readRawTx bz with
  | none => .error (str "tx parse error")
  | some (anys, _, gas) => (anys.mapM unpackAny).map fun msgs => ⟨msgs, some gas⟩

/-! ## Addresses and numbers -/

def depositor : Bytes := List.replicate 20 17
def recipient : Bytes := List.replicate 20 34
def operator : Bytes := List.replicate 20 7
def govAddress : Bytes := [0x7b, 0x5f, 0xe2, 0x2b, 0x54, 0x46, 0xf7, 0xc6, 0x2e, 0xa2, 0x7b, 0x8b, 0xd7, 0x1c,
  0xef, 0x94, 0xe0, 0x3f, 0x3d, 0xf2]
def bridgeAddress : Bytes := [0x17, 0xf2, 0x9b, 0x07, 0x31, 0x43, 0xd8, 0xcd, 0x97, 0xb5, 0xbb, 0xe4, 0x92, 0xbd,
  0xef, 0xfe, 0xc1, 0xc5, 0xfe, 0xe5]

def authority : GoString := str "fuelsequencer10d07y265gmmuvt4z0w9aw880jnsr700jdjfvk3"
def operatorAddress : GoString := str "fuelsequencervaloper1qurswpc8qurswpc8qurswpc8qurswpc8xpgz3t"

/-- The text of each address of the examples. -/
def bech32Table : List (Bytes × GoString) :=
  [(govAddress, authority),
    (bridgeAddress, str "fuelsequencer1zlefkpe3g0vvm9a4h0jf9000lmqutlh9v8x7se"),
    (depositor, str "fuelsequencer1zyg3zyg3zyg3zyg3zyg3zyg3zyg3zyg3kddtjd"),
    (recipient, str "fuelsequencer1yg3zyg3zyg3zyg3zyg3zyg3zyg3zyg3zesgd66"),
    (operator, str "fuelsequencer1qurswpc8qurswpc8qurswpc8qurswpc8yranqr")]

def hrp : GoString := str "fuelsequencer1"

/-- An address outside the table is written in hexadecimal digits. -/
def bech32String (address : Bytes) : GoString :=
  ((bech32Table.find? fun p => p.1 = address).map Prod.snd).getD (hrp ++ hexLower address)

def lower (b : UInt8) : UInt8 := if 65 ≤ b && b ≤ 90 then b + 32 else b

/-- Texts are read in lower or in upper case. -/
def uncased (text : GoString) : GoString :=
  if text.any fun b => 97 ≤ b ∧ b ≤ 122 then text else text.map lower

def fromBech32 (text : GoString) : Except GoString Bytes :=
  match bech32Table.find? fun p => p.2 = uncased text with
  | some p => .ok p.1
  | none =>
    let address := hexPairs ((uncased text).drop hrp.length)
    if uncased text = bech32String address ∧ (verifyAddressFormat address).isOk then .ok address
    else .error (str "decoding bech32 failed")

/-- Every text of an account starts with the human-readable part. -/
theorem bech32String_eq_cons (address : Bytes) : ∃ rest, bech32String address = 102 :: 117 :: rest := by
  unfold bech32String
  cases hfind : bech32Table.find? fun p => p.1 = address with
  | some p =>
    have htexts : ∀ p ∈ bech32Table, p.2 = 102 :: 117 :: p.2.drop 2 := by decide
    exact ⟨_, htexts p (List.mem_of_find?_eq_some hfind)⟩
  | none => exact ⟨_, rfl⟩

/-- No text of the table is in hexadecimal digits. -/
theorem find?_hexLower (address : Bytes) : (bech32Table.find? fun p => p.2 = hrp ++ hexLower address) = none := by
  have htexts : ∀ p ∈ bech32Table, hexLower (hexPairs (p.2.drop hrp.length)) ≠ p.2.drop hrp.length := by decide
  refine List.find?_eq_none.mpr fun p hp heq => htexts p hp ?_
  rw [of_decide_eq_true heq, List.drop_left, hexPairs_hexLower]

/-- The table is found by the text as by the address. -/
theorem find?_bech32String (address : Bytes) : (bech32Table.find? fun p => p.2 = bech32String address) =
    bech32Table.find? fun p => p.1 = address := by
  unfold bech32String
  cases hfind : bech32Table.find? fun p => p.1 = address with
  | some p =>
    have htexts : ∀ p ∈ bech32Table, bech32Table.find? (fun q => q.2 = p.2) = some p := by decide
    exact htexts p (List.mem_of_find?_eq_some hfind)
  | none => exact find?_hexLower address

theorem bech32String_of_none {address : Bytes} (h : (bech32Table.find? fun p => p.1 = address) = none) :
    bech32String address = hrp ++ hexLower address := by
  rw [bech32String, h, Option.map_none, Option.getD_none]

theorem fromBech32_bech32String {address : Bytes} (h : verifyAddressFormat address = .ok ()) :
    fromBech32 (bech32String address) = .ok address := by
  have huncased : uncased (bech32String address) = bech32String address := by
    obtain ⟨rest, hrest⟩ := bech32String_eq_cons address
    rw [hrest]
    exact if_pos rfl
  unfold fromBech32
  rw [huncased, find?_bech32String]
  cases hfind : bech32Table.find? fun p => p.1 = address with
  | some p => exact congrArg Except.ok (of_decide_eq_true (List.find?_some hfind :))
  | none =>
    have htext := bech32String_of_none hfind
    simp only [htext, List.drop_left, hexPairs_hexLower, h, Except.isOk, Except.toBool, and_self, if_true]

theorem bech32String_injective : Function.Injective bech32String := by
  intro a b h
  have hfind := find?_bech32String a
  rw [h, find?_bech32String b] at hfind
  cases ha : bech32Table.find? fun p => p.1 = a with
  | some p =>
    rw [ha] at hfind
    have hpa : p.1 = a := of_decide_eq_true (List.find?_some ha :)
    have hpb : p.1 = b := of_decide_eq_true (List.find?_some hfind :)
    exact hpa.symm.trans hpb
  | none =>
    rw [ha] at hfind
    rw [bech32String_of_none ha, bech32String_of_none hfind, List.append_cancel_left_eq] at h
    rw [← hexPairs_hexLower a, h, hexPairs_hexLower]

theorem verifyAddressFormat_fromBech32 {text : GoString} {address : Bytes} (h : fromBech32 text = .ok address) :
    verifyAddressFormat address = .ok () := by
  unfold fromBech32 at h
  split at h
  next p hfind =>
    have hformat : ∀ p ∈ bech32Table, verifyAddressFormat p.1 = .ok () := by decide
    exact Except.ok.inj h ▸ hformat p (List.mem_of_find?_eq_some hfind)
  next =>
    simp only at h
    split at h
    next hcond =>
      obtain ⟨-, hok⟩ := hcond
      obtain ⟨_, hformat⟩ := exists_of_isOk hok
      exact Except.ok.inj h ▸ hformat
    next => cases h

def valFromBech32 (text : GoString) : Except GoString Bytes :=
  if text = operatorAddress then .ok operator else .error (str "decoding bech32 failed")

def isDigit (b : UInt8) : Bool := 48 ≤ b && b ≤ 57

def newIntFromString (text : GoString) : Option ℤ :=
  if text ≠ [] ∧ text.all isDigit then
    let value := Nat.ofDigitChars 10 (text.map fun b => Char.ofNat b.toNat) 0
    if value < 2 ^ maxBitLen then some value else none
  else none

/-- Coins sorted by denom, with the amounts of one denom added up. -/
def addCoin (c : Coin) : Coins → Coins
  | [] => [c]
  | d :: coins =>
    if c.denom = d.denom then ⟨d.denom, d.amount + c.amount⟩ :: coins
    else if c.denom < d.denom then c :: d :: coins
    else d :: addCoin c coins

/-- The difference of two lists of coins, without what is zero. -/
def coinsDiff (a b : Coins) : Coins :=
  (b.foldl (fun coins c => addCoin ⟨c.denom, -c.amount⟩ coins) a).filter fun c => c.amount ≠ 0

def isAnyNegative (coins : Coins) : Bool := coins.any fun c => c.amount < 0

def coinAmount (coins : Coins) (denom : GoString) : ℤ :=
  ((coins.find? fun c => c.denom = denom).map Coin.amount).getD 0

def coinsString (coins : Coins) : GoString :=
  (str ",").intercalate (coins.map fun c => decimalInt c.amount ++ c.denom)

def signersOf (m : Msg) : Except GoString (List Bytes) :=
  match m with
  | .updateParams m => (fromBech32 m.authority).map ([·])
  | .supplyDelta m => (fromBech32 m.authority).map ([·])
  | .withdrawToEthereum m => (fromBech32 m.fromAddress).map ([·])
  | .depositFromEthereum m => (fromBech32 m.authority).map ([·])
  | .index m => (fromBech32 m.authority).map ([·])
  | .skippedEventTx m => (fromBech32 m.authority).map ([·])
  | .postBlob m => (fromBech32 m.fromAddress).map ([·])
  | .updateSequencingParams m => (fromBech32 m.authority).map ([·])
  | .other a => match decodeFields a.value with
    | some fs => (fromBech32 (bytesAt 1 fs)).map ([·])
    | none => .error (str "unexpected EOF")

def orEof {α : Type} : Option α → Except GoString α
  | some a => .ok a
  | none => .error (str "unexpected EOF")

def sdk : Sdk where
  accAddressString := bech32String
  accAddressFromBech32 := fromBech32
  valAddressFromBech32 := valFromBech32
  bech32StringToBytes := fromBech32
  ethAddressString address := str "0x" ++ hexUpper address
  newIntFromString := newIntFromString
  durationString d := decimalInt d ++ str "ns"
  toLower text := text.map lower
  eventString e := e.eventType.name
  msgIndexString m := m.authority
  timeString := decimalInt
  unmarshalDepositEvent bz := orEof (readDepositEvent bz)
  unmarshalAuthorizeEvent bz := orEof (readAuthorizeEvent bz)
  unmarshalAuthorizeTx bz := orEof (readTxBody bz)
  isProtoCodec := true
  unpackAny := unpackAny
  txDecode := txDecode
  getMsgV1Signers := signersOf
  validateBasicOther _ := .ok ()
  coinsAdd a b := .ok (b.foldl (fun coins c => addCoin c coins) a)
  coinsSub a b :=
    if isAnyNegative (coinsDiff a b) then .error (str "negative coin amount") else .ok (coinsDiff a b)
  coinsSafeSub a b := (coinsDiff a b, isAnyNegative (coinsDiff a b))
  coinsMin a b := ((a.filter fun c => b.any fun e => e.denom = c.denom).map fun c =>
    ⟨c.denom, min c.amount (coinAmount b c.denom)⟩).filter fun c => c.amount ≠ 0
  coinsIsAllPositive a := a ≠ [] ∧ ∀ c ∈ a, 0 < c.amount
  coinsIsAllGTE a b := b = [] ∨ (a ≠ [] ∧ ∀ c ∈ b, c.amount ≤ coinAmount a c.denom)
  coinsString := coinsString
  newContinuousVestingAccount account coins startTime endTime :=
    if startTime < endTime then .ok ⟨account, coins, startTime, endTime⟩
    else .error (str "vesting start-time cannot be before end-time")
  emitTypedEvent _ := .ok ()

/-! ## The laws of the SDK hold -/

theorem mapM_unpackAny_error {anys : List Any} {a : Any} {e : GoString} (ha : a ∈ anys)
    (h : unpackAny a = .error e) : ∃ e', anys.mapM unpackAny = .error e' := by
  induction anys with
  | nil => cases ha
  | cons b anys ih =>
    rw [List.mapM_cons]
    rcases List.mem_cons.mp ha with rfl | ha
    · exact ⟨e, by rw [h]; rfl⟩
    · obtain ⟨e', he'⟩ := ih ha
      cases hb : unpackAny b with
      | error e => exact ⟨e, rfl⟩
      | ok m => exact ⟨e', by rw [he']; rfl⟩

theorem unpackAny_supplyDelta (m : MsgSupplyDelta) : unpackAny m.toAny = .ok (.supplyDelta m) := by
  unfold unpackAny MsgSupplyDelta.toAny
  dsimp only
  rw [if_pos rfl]
  exact congrArg _ (readSupplyDelta_encode m)

theorem unpackAny_depositFromEthereum (m : MsgDepositFromEthereum) :
    unpackAny m.toAny = .ok (.depositFromEthereum m) := by
  unfold unpackAny MsgDepositFromEthereum.toAny
  dsimp only
  rw [if_neg (by decide : msgDepositFromEthereumTypeUrl ≠ msgSupplyDeltaTypeUrl), if_pos rfl]
  exact congrArg _ (readDepositFromEthereum_encode m)

theorem unpackAny_index (m : MsgIndex) : unpackAny m.toAny = .ok (.index m) := by
  unfold unpackAny MsgIndex.toAny
  dsimp only
  rw [if_neg (by decide : msgIndexTypeUrl ≠ msgSupplyDeltaTypeUrl),
    if_neg (by decide : msgIndexTypeUrl ≠ msgDepositFromEthereumTypeUrl), if_pos rfl]
  exact congrArg _ (MsgIndex.read_encode m)

theorem unpackAny_skippedEventTx (m : MsgSkippedEventTx) :
    unpackAny m.toAny = .ok (.skippedEventTx m) := by
  unfold unpackAny MsgSkippedEventTx.toAny
  dsimp only
  rw [if_neg (by decide : msgSkippedEventTxTypeUrl ≠ msgSupplyDeltaTypeUrl),
    if_neg (by decide : msgSkippedEventTxTypeUrl ≠ msgDepositFromEthereumTypeUrl),
    if_neg (by decide : msgSkippedEventTxTypeUrl ≠ msgIndexTypeUrl), if_pos rfl]
  exact congrArg _ (readSkippedEventTx_encode m)

theorem sdk_lawful : sdk.Lawful where
  txDecode_raw sequence {anys msgs} h := by
    change txDecode _ = _
    rw [txDecode, readRawTx_encode]
    dsimp only
    rw [(except_mapM_eq_ok.mpr h : anys.mapM unpackAny = .ok msgs)]
    rfl
  txDecode_raw_error sequence {anys a e} ha h := by
    obtain ⟨e', he'⟩ := mapM_unpackAny_error ha h
    refine ⟨e', ?_⟩
    change txDecode _ = _
    rw [txDecode, readRawTx_encode]
    dsimp only
    rw [he']
    rfl
  unpackAny_supplyDelta := unpackAny_supplyDelta
  unpackAny_depositFromEthereum := unpackAny_depositFromEthereum
  unpackAny_index := unpackAny_index
  unpackAny_skippedEventTx := unpackAny_skippedEventTx
  emitTypedEvent_ok _ := rfl
  isProtoCodec_eq := rfl

/-! ## Its functions on coins -/

section Coins

variable {c e : Coin} {coins a b : Coins} {denom : GoString}

theorem amountOf_addCoin (c : Coin) (coins : Coins) (denom : GoString) :
    amountOf (addCoin c coins) denom = amountOf coins denom + if c.denom = denom then c.amount else 0 := by
  induction coins with
  | nil => simp [addCoin]
  | cons d coins ih =>
    unfold addCoin
    by_cases heq : c.denom = d.denom
    · rw [if_pos heq, amountOf_cons, amountOf_cons, heq]
      split_ifs <;> ring
    rw [if_neg heq]
    by_cases hlt : c.denom < d.denom
    · rw [if_pos hlt, amountOf_cons, add_comm]
    · rw [if_neg hlt, amountOf_cons, amountOf_cons, ih, add_assoc]

theorem denom_of_mem_addCoin (h : e ∈ addCoin c coins) : e.denom = c.denom ∨ ∃ d ∈ coins, d.denom = e.denom := by
  induction coins with
  | nil => simp_all [addCoin]
  | cons d coins ih =>
    unfold addCoin at h
    split_ifs at h with heq hlt
    · rcases List.mem_cons.mp h with rfl | h
      · exact .inl heq.symm
      · exact .inr ⟨e, List.mem_cons_of_mem _ h, rfl⟩
    · rcases List.mem_cons.mp h with rfl | h
      · exact .inl rfl
      · exact .inr ⟨e, h, rfl⟩
    · rcases List.mem_cons.mp h with rfl | h
      · exact .inr ⟨e, List.mem_cons_self, rfl⟩
      · rcases ih h with hc | ⟨d', hd', heq'⟩
        · exact .inl hc
        · exact .inr ⟨d', List.mem_cons_of_mem _ hd', heq'⟩

theorem nonneg_addCoin (hc : 0 ≤ c.amount) (h : ∀ d ∈ coins, 0 ≤ d.amount) :
    ∀ d ∈ addCoin c coins, 0 ≤ d.amount := by
  induction coins with
  | nil => simpa [addCoin] using hc
  | cons d coins ih =>
    have hd := h d List.mem_cons_self
    have hcoins : ∀ d ∈ coins, 0 ≤ d.amount := fun d hd => h d (List.mem_cons_of_mem _ hd)
    unfold addCoin
    split_ifs <;> simp only [List.forall_mem_cons]
    · exact ⟨add_nonneg hd hc, hcoins⟩
    · exact ⟨hc, hd, hcoins⟩
    · exact ⟨hd, ih hcoins⟩

theorem sorted_addCoin (h : coins.Pairwise fun a b => a.denom < b.denom) :
    (addCoin c coins).Pairwise fun a b => a.denom < b.denom := by
  induction coins with
  | nil => exact List.pairwise_singleton _ _
  | cons d coins ih =>
    obtain ⟨hd, hcoins⟩ := List.pairwise_cons.mp h
    unfold addCoin
    split_ifs with heq hlt
    · exact List.pairwise_cons.mpr ⟨hd, hcoins⟩
    · refine List.pairwise_cons.mpr ⟨?_, h⟩
      intro e he
      rcases List.mem_cons.mp he with rfl | he
      · exact hlt
      · exact hlt.trans (hd e he)
    · refine List.pairwise_cons.mpr ⟨fun e he => ?_, ih hcoins⟩
      rcases denom_of_mem_addCoin he with hc | ⟨d', hd', heq'⟩
      · rw [hc]
        exact lt_of_le_of_ne (not_lt.mp hlt) fun h => heq h.symm
      · rw [← heq']
        exact hd d' hd'

/-- All coins of the second list added to the first. -/
def addCoins (a b : Coins) : Coins := b.foldl (fun coins c => addCoin c coins) a

theorem amountOf_addCoins (a b : Coins) (denom : GoString) :
    amountOf (addCoins a b) denom = amountOf a denom + amountOf b denom := by
  induction b generalizing a with
  | nil => exact (add_zero _).symm
  | cons c b ih =>
    change amountOf (addCoins (addCoin c a) b) denom = _
    rw [ih, amountOf_addCoin, amountOf_cons, add_assoc]

theorem sorted_addCoins (h : a.Pairwise fun a b => a.denom < b.denom) (b : Coins) :
    (addCoins a b).Pairwise fun a b => a.denom < b.denom := by
  induction b generalizing a with
  | nil => exact h
  | cons c b ih => exact ih (sorted_addCoin h)

theorem denoms_addCoins (ha : ∀ c ∈ a, isValidDenom c.denom) (hb : ∀ c ∈ b, isValidDenom c.denom) :
    ∀ c ∈ addCoins a b, isValidDenom c.denom := by
  induction b generalizing a with
  | nil => exact ha
  | cons c b ih =>
    refine ih (fun e he => ?_) fun e he => hb e (List.mem_cons_of_mem _ he)
    rcases denom_of_mem_addCoin he with heq | ⟨d, hd, heq⟩
    · exact heq ▸ hb c List.mem_cons_self
    · exact heq ▸ ha d hd

theorem nonneg_addCoins (ha : ∀ c ∈ a, 0 ≤ c.amount) (hb : ∀ c ∈ b, 0 ≤ c.amount) :
    ∀ c ∈ addCoins a b, 0 ≤ c.amount := by
  induction b generalizing a with
  | nil => exact ha
  | cons c b ih =>
    exact ih (nonneg_addCoin (hb c List.mem_cons_self) ha) fun e he => hb e (List.mem_cons_of_mem _ he)

theorem coinsDiff_eq (a b : Coins) :
    coinsDiff a b = (addCoins a (b.map fun c => ⟨c.denom, -c.amount⟩)).filter fun c => c.amount ≠ 0 := by
  rw [coinsDiff, addCoins, List.foldl_map]

theorem amountOf_filter (coins : Coins) (denom : GoString) :
    amountOf (coins.filter fun c => c.amount ≠ 0) denom = amountOf coins denom := by
  induction coins with
  | nil => rfl
  | cons c coins ih =>
    by_cases hzero : c.amount = 0
    · rw [List.filter_cons_of_neg (by simpa using hzero), ih, amountOf_cons, hzero, ite_self, zero_add]
    · rw [List.filter_cons_of_pos (by simpa using hzero), amountOf_cons, amountOf_cons, ih]

theorem amountOf_coinsDiff (a : Coins) (hb : WellFormed b) (denom : GoString) :
    amountOf (coinsDiff a b) denom = amountOf a denom - amountOf b denom := by
  rw [coinsDiff_eq, amountOf_filter, amountOf_addCoins, amountOf_map (-·) neg_zero hb.sorted, sub_eq_add_neg]

theorem sorted_coinsDiff (ha : WellFormed a) : (coinsDiff a b).Pairwise fun a b => a.denom < b.denom := by
  rw [coinsDiff_eq]
  exact (sorted_addCoins ha.sorted _).filter _

theorem wellFormed_coinsDiff (ha : WellFormed a) (hb : WellFormed b) (h : isAnyNegative (coinsDiff a b) = false) :
    WellFormed (coinsDiff a b) where
  sorted := sorted_coinsDiff ha
  denoms := by
    rw [coinsDiff_eq]
    intro c hc
    refine denoms_addCoins ha.denoms (fun e he => ?_) c (List.mem_of_mem_filter hc)
    obtain ⟨d, hd, rfl⟩ := List.mem_map.mp he
    exact hb.denoms d hd
  nonneg := by simpa [isAnyNegative] using h

theorem coinAmount_eq (h : coins.Pairwise fun a b => a.denom < b.denom) (denom : GoString) :
    coinAmount coins denom = amountOf coins denom := by
  unfold coinAmount
  cases hfind : coins.find? fun c => c.denom = denom with
  | none => exact (amountOf_eq_zero fun c hc => by simpa using List.find?_eq_none.mp hfind c hc).symm
  | some c =>
    have hdenom : c.denom = denom := by simpa using List.find?_some hfind
    exact (hdenom ▸ amountOf_of_mem h (List.mem_of_find?_eq_some hfind)).symm

theorem sdk_coinLaws : CoinLaws sdk where
  add {a b c} ha hb h := by
    obtain rfl : addCoins a b = c := Except.ok.inj h
    exact ⟨⟨sorted_addCoins ha.sorted b, denoms_addCoins ha.denoms hb.denoms, nonneg_addCoins ha.nonneg hb.nonneg⟩,
      amountOf_addCoins a b⟩
  add_ok {a b} _ _ _ := ⟨addCoins a b, rfl⟩
  sub {a b c} ha hb h := by
    change (if isAnyNegative (coinsDiff a b) then Except.error _ else Except.ok (coinsDiff a b)) = _ at h
    split_ifs at h with hneg
    obtain rfl := Except.ok.inj h
    exact ⟨wellFormed_coinsDiff ha hb (Bool.not_eq_true _ ▸ hneg), amountOf_coinsDiff a hb⟩
  sub_ok {a b} ha hb _ hle := by
    refine ⟨coinsDiff a b, if_neg ?_⟩
    simp only [isAnyNegative, List.any_eq_true, decide_eq_true_eq, not_exists, not_and, not_lt]
    intro c hc
    rw [← amountOf_of_mem (sorted_coinsDiff ha) hc, amountOf_coinsDiff a hb]
    exact sub_nonneg.mpr (hle c.denom)
  safeSub ha hb h := ⟨wellFormed_coinsDiff ha hb h, amountOf_coinsDiff _ hb⟩
  min_nil a := by simp [sdk]
  isAllPositive a := by simp [sdk]
  isAllGTE {a b} ha hb h denom := by
    by_cases hzero : amountOf b denom = 0
    · rw [hzero]
      exact ha.amountOf_nonneg denom
    obtain ⟨c, hc, rfl⟩ := exists_mem_of_amountOf_ne hzero
    rcases of_decide_eq_true h with rfl | ⟨-, hall⟩
    · cases hc
    · rw [amountOf_of_mem hb.sorted hc, ← coinAmount_eq ha.sorted]
      exact hall c hc
  newContinuousVestingAccount {account coins startTime endTime vesting} h := by
    change (if startTime < endTime then Except.ok _ else Except.error _) = _ at h
    split_ifs at h with hlt
    exact ⟨hlt, (Except.ok.inj h).symm⟩
  newContinuousVestingAccount_ok _ _ _ hlt _ := if_pos hlt

end Coins

/-! ## Other modules -/

structure Ledger where
  supply : GoString → ℤ
  balance : Bytes → GoString → ℤ
  account : Bytes → Option Account
  nextAccountNumber : UInt64
  validators : List GoString

namespace Ledger

def addSupply (w : Ledger) (denom : GoString) (amount : ℤ) : Ledger :=
  { w with supply := fun d => w.supply d + if d = denom then amount else 0 }

def addBalance (w : Ledger) (address : Bytes) (denom : GoString) (amount : ℤ) : Ledger :=
  { w with balance := fun a d => w.balance a d + if a = address ∧ d = denom then amount else 0 }

def mint (address : Bytes) (w : Ledger) (c : Coin) : Except (Fault GoString) Ledger :=
  if (w.supply c.denom + c.amount).natAbs < 2 ^ maxBitLen then
    .ok ((w.addSupply c.denom c.amount).addBalance address c.denom c.amount)
  else .error (.panic (str "Int overflow"))

def errInsufficientFunds : Fault GoString := .err (str "insufficient funds")

def transfer (sender receiver : Bytes) (w : Ledger) (c : Coin) : Except (Fault GoString) Ledger :=
  if c.amount ≤ w.balance sender c.denom then
    .ok ((w.addBalance sender c.denom (-c.amount)).addBalance receiver c.denom c.amount)
  else .error errInsufficientFunds

def burn (address : Bytes) (w : Ledger) (c : Coin) : Except (Fault GoString) Ledger :=
  if c.amount ≤ w.balance address c.denom then
    .ok ((w.addSupply c.denom (-c.amount)).addBalance address c.denom (-c.amount))
  else .error errInsufficientFunds

/-- One operation for each coin; a failure keeps nothing. -/
def forCoins (step : Ledger → Coin → Except (Fault GoString) Ledger) (coins : Coins) :
    Prog GoString Ledger Unit := fun w =>
  match coins.foldlM step w with
  | .ok w' => .ok () w'
  | .error e => .error e w

end Ledger

def moduleAddress (name : GoString) : Bytes :=
  if name = govModuleName then govAddress else if name = moduleName then bridgeAddress else []

def Account.numbered (acc : Account) (number : UInt64) : Account :=
  match acc with
  | .ethOwned (.base b owner) => .ethOwned (.base { b with accountNumber := number } owner)
  | .ethOwned (.continuousVesting a owner) =>
    .ethOwned (.continuousVesting { a with baseAccount := { a.baseAccount with accountNumber := number } } owner)
  | .ethOwned (.multiContinuousVesting b infos owner) =>
    .ethOwned (.multiContinuousVesting { b with accountNumber := number } infos owner)
  | .other b => .other { b with accountNumber := number }

def Account.address : Account → GoString
  | .ethOwned (.base b _) => b.address
  | .ethOwned (.continuousVesting a _) => a.baseAccount.address
  | .ethOwned (.multiContinuousVesting b _ _) => b.address
  | .other b => b.address

def newAccount (acc : Account) : Prog GoString Ledger Account := fun w =>
  .ok (Account.numbered acc w.nextAccountNumber) { w with nextAccountNumber := w.nextAccountNumber + 1 }

def setAccount (acc : Account) : Prog GoString Ledger Unit := fun w =>
  .ok () { w with account := fun a => if bech32String a = Account.address acc then some acc else w.account a }

def Account.base : Account → BaseAccount
  | .ethOwned (.base b _) => b
  | .ethOwned (.continuousVesting a _) => a.baseAccount
  | .ethOwned (.multiContinuousVesting b _ _) => b
  | .other b => b

def getModuleAccount (name : GoString) : Prog GoString Ledger (Option BaseAccount) := do
  let w ← get
  match w.account (moduleAddress name) with
  | some acc => return some (Account.base acc)
  | none => do
    let acc ← newAccount (.other ⟨bech32String (moduleAddress name), none, 0, 0⟩)
    setAccount acc
    return some (Account.base acc)

def readCoin (bz : Bytes) : Option Coin :=
  (decodeFields bz).bind fun fs => (newIntFromString (bytesAt 2 fs)).map fun amount => ⟨bytesAt 1 fs, amount⟩

/-- Sender, receiver and coins of a bank transfer. -/
def readMsgSend (bz : Bytes) : Option (Bytes × Bytes × Coins) :=
  (decodeFields bz).bind fun fs =>
    match fromBech32 (bytesAt 1 fs), fromBech32 (bytesAt 2 fs), (repeatedAt 3 fs).mapM readCoin with
    | .ok sender, .ok receiver, some coins => some (sender, receiver, coins)
    | _, _, _ => none

def handleSend (a : Any) (w : Ledger) : Routed Ledger :=
  match readMsgSend a.value with
  | none => .fail (.err (str "invalid address")) w
  | some (sender, receiver, coins) =>
    match coins.foldlM (Ledger.transfer sender receiver) w with
    | .ok w' => .done w'
    | .error e => .fail e w

def modules : Modules Ledger where
  getLastValidators w := .ok w.validators
  getSupply w := w.supply
  getBalance w := w.balance
  mintCoins name := Ledger.forCoins (Ledger.mint (moduleAddress name))
  burnCoins name := Ledger.forCoins (Ledger.burn (moduleAddress name))
  sendCoinsFromModuleToAccount name address :=
    Ledger.forCoins (Ledger.transfer (moduleAddress name) address)
  sendCoinsFromModuleToModule sender receiver :=
    Ledger.forCoins (Ledger.transfer (moduleAddress sender) (moduleAddress receiver))
  sendCoinsFromAccountToModule address name :=
    Ledger.forCoins (Ledger.transfer address (moduleAddress name))
  moduleAddress := moduleAddress
  getModuleAccount := getModuleAccount
  getAccount w := w.account
  newAccount := newAccount
  setAccount := setAccount
  hasHandler m := match m with
    | .other a => a.typeUrl = msgSendTypeUrl
    | _ => true
  handleOther _ := handleSend
  anteSetup _ _ tx := if tx.gas.isSome then .ok () else .error (str "Tx must be a GasTx: tx parse error")
  anteRest _ _ _ := fail (str "no signatures supplied")
  outOfGas _ _ _ _ := false
  beginBlockBefore _ := pure ()
  endBlockBefore _ := .done

theorem modules_lawful : modules.Lawful where
  hasHandler_bridge m h := by
    cases m with
    | other a => exact absurd rfl (h a)
    | _ => rfl
  anteSetup_raw _ _ _ _ := rfl

def app : App Ledger := ⟨sdk, modules, ⟨authority, []⟩, ⟨authority⟩⟩

theorem app_lawful : app.Lawful := ⟨sdk_lawful, modules_lawful⟩

/-! ## A state -/

def proxyContract : GoString := str "0x0165878A594ca255338adfa4d48449f69242Eb8F"
def ufuel : GoString := str "ufuel"

/-- The default params with what a deployment has to set. -/
def params : Params where
  bridgeDenom := ufuel
  bridgeDenomTotalSupply := 10 ^ 18
  ethereumProxyContractAddress := proxyContract
  supplyDeltaPeriod := 10
  vestingStartTime := 0
  additionalBlockedAddresses := []
  maxEthBlockUpdateDelay := 3600 * 10 ^ 9
  injectedEventTxMaxBytes := 20000000
  sequencerTxsAllocation := 3 * 10 ^ 17

def store : Store where
  params := params
  index := none
  supplyDeltaInfo := some ⟨0, 0, 0⟩
  lastEthereumNonce := some 0
  lastEthereumBlockSynced := some 0
  ethereumEventIndexOffset := some 0
  lastEthBlockUpdateTime := some 0
  lastConsensusTxsSequence := some 0

def ledger : Ledger := ⟨fun _ => 0, fun _ _ => 0, fun _ => none, 1, [operatorAddress]⟩

/-- The default params and no topics. -/
def sequencing : Sequencing.Store := ⟨⟨1048576, 1153434⟩, Table.empty⟩

def state : State Ledger := ⟨store, sequencing, ledger⟩

/-! ## Events -/

def ethText (address : Bytes) : GoString := str "0x" ++ hexUpper address

def txHash : GoString := str "0x0000000000000000000000000000000000000000000000000000000000000001"

def depositEvent (amount : ℕ) : Event :=
  ⟨.deposit, encodeFields (DepositEvent.fields ⟨ethText depositor, ethText recipient, decimal amount,
    decimal 0⟩), proxyContract, 0, 0, txHash⟩

def authorizeEvent (payload : Bytes) : Event :=
  ⟨.authorize, encodeFields (bytesField 1 (ethText depositor) ++ bytesField 2 payload), proxyContract, 0, 0,
    txHash⟩

/-- An index message for the first Ethereum block. -/
def indexMsg (count : UInt64) (full : Bool) : MsgIndex := ⟨authority, count, full, 1⟩

/-- The transaction made of a deposit event. -/
def depositTx (amount : ℕ) (sequence : UInt64) : Bytes :=
  validRawTxBytesFromAnyMsgs [(MsgDepositFromEthereum.mk authority (ethText depositor) (ethText recipient)
    (decimal amount) (decimal 0)).toAny] sequence

def answering (events : List Event) (h : events.length < maxLen) : Sidecar := fun _ => .ok ⟨events, h⟩

end FuelSequencer.Reference
