import FuelSequencer.Bridge.Accounts
import FuelSequencer.Sequencing.Validate

/-! # Message methods

The stateless checks of the module's messages and the arithmetic of `MsgIndex`:
which events it drops from the head because they were delivered before, and which
it keeps because they fit.
-/
namespace FuelSequencer.Bridge
open Go Wire Exec Lib Wiring

def Msg.typeUrl : Msg → GoString
  | .updateParams _ => str "/fuelsequencer.bridge.v1.MsgUpdateParams"
  | .supplyDelta _ => msgSupplyDeltaTypeUrl
  | .withdrawToEthereum _ => str "/fuelsequencer.bridge.v1.MsgWithdrawToEthereum"
  | .depositFromEthereum _ => msgDepositFromEthereumTypeUrl
  | .index _ => msgIndexTypeUrl
  | .skippedEventTx _ => msgSkippedEventTxTypeUrl
  | .postBlob _ => str "/fuelsequencer.sequencing.v1.MsgPostBlob"
  | .updateSequencingParams _ => str "/fuelsequencer.sequencing.v1.MsgUpdateParams"
  | .other a => a.typeUrl

def Coin.isValid (c : Coin) : Bool := isValidDenom c.denom ∧ 0 ≤ c.amount

def MsgUpdateParams.validateBasic (sdk : Sdk) (m : MsgUpdateParams) : Except GoString Unit :=
  match sdk.accAddressFromBech32 m.authority with
  | .error err => .error (str "invalid authority address: " ++ err)
  | .ok _ => m.params.validate sdk

def MsgWithdrawToEthereum.validateBasic (sdk : Sdk) (m : MsgWithdrawToEthereum) :
    Except GoString Unit := do
  failIf ((sdk.accAddressFromBech32 m.fromAddress).isOk = false ∧ ¬ isHexAddress m.fromAddress)
    (str "from is not a valid Bech32 or Hex address (" ++ m.fromAddress ++ str "): invalid address")
  failIf (¬ isHexAddress m.toAddress)
    (str "invalid Ethereum to address format (" ++ m.toAddress ++ str "): invalid ethereum address")
  failIf (¬ m.amount.isValid ∨ m.amount.amount = 0)
    (str "amount must be a valid, non-zero value: invalid coins")

/-- The injected messages pass always, so that the ante handler sees each of them. -/
def Msg.validateBasic (sdk : Sdk) : Msg → Except GoString Unit
  | .updateParams m => m.validateBasic sdk
  | .withdrawToEthereum m => m.validateBasic sdk
  | .postBlob m => m.validateBasic sdk
  | .updateSequencingParams m => m.validateBasic sdk
  | .supplyDelta _ | .depositFromEthereum _ | .index _ | .skippedEventTx _ => .ok ()
  | .other a => sdk.validateBasicOther a

def maxReasonLength : ℕ := 1024

/-- The message and whether its reason was cut. -/
def newMsgSkippedEventTx (authority reasonForSkip : GoString)
    (ethBlockNumber ethLogIndex ethTxIndex : UInt64) (ethTxHash : GoString) :
    MsgSkippedEventTx × Bool :=
  let trimmed := decide (reasonForSkip.length > maxReasonLength)
  let reason :=
    if trimmed then reasonForSkip.take (maxReasonLength - 3) ++ str "..." else reasonForSkip
  (⟨authority, reason, ethBlockNumber, ethLogIndex, ethTxIndex, ethTxHash⟩, trimmed)

namespace MsgIndex

def isFullEthereumSyncing (m : MsgIndex) : Bool := m.newEthereumBlock

def isPartialEthereumSyncing (m : MsgIndex) : Bool :=
  !m.newEthereumBlock && decide (m.numInjectedEventTxs > 0)

def noEthereumSyncing (m : MsgIndex) : Bool :=
  !m.isFullEthereumSyncing && !m.isPartialEthereumSyncing

def validateBeforeProcessing (sdk : Sdk) (m : MsgIndex)
    (lastBlockSynced eventIndexOffset : UInt64) : Except GoString Unit := do
  failIf (eventIndexOffset > 0 ∧ m.numInjectedEventTxs = 0)
    (str "expected at least 1 new event if offset is non-zero (" ++ decimal eventIndexOffset.toNat ++
      str "), got MsgIndex (" ++ sdk.msgIndexString m ++ str ")")
  failIf (m.blockNumber ≠ lastBlockSynced + 1)
    (str "expected block number " ++ decimal (lastBlockSynced + 1).toNat ++ str ", got " ++
      decimal m.blockNumber.toNat ++ str " in MsgIndex (" ++ sdk.msgIndexString m ++ str ")")

/-- How many transactions fit before the running size passes the limit. -/
def fitting (maxBytes : ℕ) : ℕ → List Bytes → ℕ
  | _, [] => 0
  | n, tx :: txs => if n + txSize tx > maxBytes then 0 else fitting maxBytes (n + txSize tx) txs + 1

def numberOfEventsWithMaxBytes (m : MsgIndex) (eventTxs : List Bytes) (maxBytes : ℕ)
    (sequence : UInt64) : Except GoString ℕ := do
  let msgIndexTxSize := txSize (m.rawTxBytes sequence)
  failIf (msgIndexTxSize > maxBytes)
    (str "could not fit MsgIndex of size " ++ decimal msgIndexTxSize ++
      str " in max bytes allocated for events " ++ decimal maxBytes)
  return fitting maxBytes msgIndexTxSize eventTxs

def errCannotTrimAll (m : MsgIndex) : Fault GoString :=
  .err (str "cannot trim all " ++ decimal m.numInjectedEventTxs.toNat ++ str " events")

def errInsufficient (expected got : UInt64) : Fault GoString :=
  .err (str "insufficient no of events, expected at least " ++ decimal expected.toNat ++
    str " got " ++ decimal got.toNat)

def errSizeIncrease (before after : ℕ) : Fault GoString :=
  .err (str "unexpected increase of MsgIndex size from " ++ decimal before ++ str " to " ++
    decimal after)

def errSliceBounds : Fault GoString := .panic (str "runtime error: slice bounds out of range")

def withCount (m : MsgIndex) (count : ℕ) (flag : Bool) : MsgIndex :=
  { m with numInjectedEventTxs := UInt64.ofNat count, newEthereumBlock := flag }

/-- The message with its new count, and the events left. -/
def trimEventsFromHead (m : MsgIndex) (eventTxs : List Bytes) (numEventsToTrim : UInt64) :
    Outcome GoString (MsgIndex × List Bytes) :=
  if numEventsToTrim = 0 then .ok (m, eventTxs)
  else if m.numInjectedEventTxs > 0 ∧ m.numInjectedEventTxs = numEventsToTrim then
    .error m.errCannotTrimAll
  else if numEventsToTrim > m.numInjectedEventTxs then
    .error (errInsufficient numEventsToTrim m.numInjectedEventTxs)
  else do
    failIf (numEventsToTrim.toNat > eventTxs.length) errSliceBounds
    let left := eventTxs.drop numEventsToTrim.toNat
    let m' := m.withCount left.length m.newEthereumBlock
    failIf (m'.size > m.size) (errSizeIncrease m.size m'.size)
    return (m', left)

/-- The message with its new count and flag, the events kept and the number dropped. -/
def keepEventsFromHead (m : MsgIndex) (eventTxs : List Bytes) (numEventsToKeep : UInt64) :
    Outcome GoString (MsgIndex × List Bytes × UInt64) :=
  if m.numInjectedEventTxs = numEventsToKeep then .ok (m, eventTxs, 0)
  else if m.numInjectedEventTxs > 0 ∧ numEventsToKeep = 0 then .error m.errCannotTrimAll
  else if m.numInjectedEventTxs < numEventsToKeep then
    .error (errInsufficient numEventsToKeep m.numInjectedEventTxs)
  else do
    failIf (numEventsToKeep.toNat > eventTxs.length) errSliceBounds
    let kept := eventTxs.take numEventsToKeep.toNat
    let m' := m.withCount kept.length false
    failIf (m'.size > m.size) (errSizeIncrease m.size m'.size)
    return (m', kept, m.numInjectedEventTxs - numEventsToKeep)

def fromSdkTx (tx : Tx) : Except GoString MsgIndex :=
  match tx.msgs with
  | [.index m] => .ok m
  | [msg] => .error (str "expected msg type URL " ++ msgIndexTypeUrl ++ str ", got " ++ msg.typeUrl)
  | msgs => .error (str "expected 1 msg in MsgIndex raw bytes, got " ++ decimal msgs.length)

def fromRawTxBytes (decoder : Bytes → Except GoString Tx) (bz : Bytes) : Except GoString MsgIndex := do
  let tx ← decoder bz
  fromSdkTx tx

/-! ## Trimming and keeping -/

variable {m : MsgIndex} {txs : List Bytes}

theorem size_withCount_le {k : ℕ} (h : k ≤ m.numInjectedEventTxs.toNat) {flag : Bool}
    (hf : flag = true → m.newEthereumBlock = true) : (m.withCount k flag).size ≤ m.size := by
  have hk : k < 2 ^ 64 := lt_of_le_of_lt h m.numInjectedEventTxs.toNat_lt
  refine MsgIndex.size_le rfl rfl ?_ hf
  rw [withCount, UInt64.le_iff_toNat_le, UInt64.toNat_ofNat_of_lt' hk]
  exact h

theorem withCount_self : m.withCount m.numInjectedEventTxs.toNat m.newEthereumBlock = m := by
  rw [withCount, UInt64.ofNat_toNat]

/-- With the count equal to the number of events, trimming succeeds exactly when it
takes nothing or leaves something. -/
theorem trimEventsFromHead_eq_ok (hlen : m.numInjectedEventTxs.toNat = txs.length) {n : UInt64}
    {r : MsgIndex × List Bytes} :
    m.trimEventsFromHead txs n = .ok r ↔ (n = 0 ∨ n.toNat < txs.length) ∧
      r = (m.withCount (txs.length - n.toNat) m.newEthereumBlock, txs.drop n.toNat) := by
  unfold trimEventsFromHead
  by_cases hn : n = 0
  · subst hn
    simp [← hlen, withCount_self, eq_comm]
  · rw [if_neg hn]
    have hpos : 0 < n.toNat := Nat.pos_of_ne_zero fun h => hn (UInt64.toNat_inj.mp h)
    by_cases hall : n.toNat < txs.length
    · have h₁ : ¬(m.numInjectedEventTxs > 0 ∧ m.numInjectedEventTxs = n) := by
        rintro ⟨-, h⟩
        rw [← h] at hall
        omega
      have h₂ : ¬ n > m.numInjectedEventTxs := by
        intro h
        have := UInt64.lt_iff_toNat_lt.mp h
        omega
      have hsize : ¬ (m.withCount (txs.drop n.toNat).length m.newEthereumBlock).size > m.size := by
        rw [List.length_drop]
        exact Nat.not_lt.mpr (size_withCount_le (by omega) id)
      rw [if_neg h₁, if_neg h₂, failIf_of_not (by omega), ok_bind]
      dsimp only
      rw [failIf_of_not hsize, ok_bind, except_pure, List.length_drop]
      simp [hall, eq_comm]
    · have hres : (n = 0 ∨ n.toNat < txs.length) ↔ False := by simp [hn, hall]
      rw [hres, false_and, iff_false]
      by_cases heq : m.numInjectedEventTxs = n
      · have h₁ : m.numInjectedEventTxs > 0 ∧ m.numInjectedEventTxs = n :=
          ⟨by rw [heq]; exact UInt64.lt_iff_toNat_lt.mpr hpos, heq⟩
        rw [if_pos h₁]
        intro h
        cases h
      · have hne : m.numInjectedEventTxs.toNat ≠ n.toNat := fun h => heq (UInt64.toNat_inj.mp h)
        have h₂ : n > m.numInjectedEventTxs := UInt64.lt_iff_toNat_lt.mpr (by omega)
        rw [if_neg (fun h => heq h.2), if_pos h₂]
        intro h
        cases h

/-- With the count equal to the number of events, keeping succeeds exactly for all of
them or for a nonempty part; only all of them leave the flag as it is. -/
theorem keepEventsFromHead_eq_ok (hlen : m.numInjectedEventTxs.toNat = txs.length) {n : UInt64}
    {r : MsgIndex × List Bytes × UInt64} :
    m.keepEventsFromHead txs n = .ok r ↔
      n.toNat ≤ txs.length ∧ (0 < txs.length → 0 < n.toNat) ∧
      r = (m.withCount n.toNat (m.newEthereumBlock && decide (n.toNat = txs.length)),
        txs.take n.toNat, m.numInjectedEventTxs - n) := by
  unfold keepEventsFromHead
  by_cases heq : m.numInjectedEventTxs = n
  · subst heq
    have hm : m.withCount txs.length m.newEthereumBlock = m := by rw [← hlen, withCount_self]
    simp [hlen, hm, eq_comm]
  · rw [if_neg heq]
    have hne : n.toNat ≠ txs.length := fun h => heq (UInt64.toNat_inj.mp (by omega))
    by_cases hzero : n = 0
    · subst hzero
      have hpos : 0 < txs.length := Nat.pos_of_ne_zero fun h => hne h.symm
      have hnum : m.numInjectedEventTxs > 0 := UInt64.lt_iff_toNat_lt.mpr (by
        rw [hlen]
        exact hpos)
      rw [if_pos ⟨hnum, rfl⟩]
      constructor
      · intro h
        cases h
      · rintro ⟨-, h, -⟩
        exact absurd (h hpos) (by decide)
    · have hpos : 0 < n.toNat := Nat.pos_of_ne_zero fun h => hzero (UInt64.toNat_inj.mp h)
      rw [if_neg (fun h => hzero h.2)]
      by_cases hlt : n.toNat < txs.length
      · have h₂ : ¬ m.numInjectedEventTxs < n := by
          intro h
          have := UInt64.lt_iff_toNat_lt.mp h
          omega
        have htake : (txs.take n.toNat).length = n.toNat := by
          rw [List.length_take]
          omega
        have hsize : ¬ (m.withCount (txs.take n.toNat).length false).size > m.size := by
          rw [htake]
          exact Nat.not_lt.mpr (size_withCount_le (by omega) (by simp))
        rw [if_neg h₂, failIf_of_not (by omega), ok_bind]
        dsimp only
        rw [failIf_of_not hsize, ok_bind, except_pure, htake]
        simp [hne, hpos, Nat.le_of_lt hlt, eq_comm]
      · have h₂ : m.numInjectedEventTxs < n := UInt64.lt_iff_toNat_lt.mpr (by omega)
        rw [if_pos h₂]
        constructor
        · intro h
          cases h
        · rintro ⟨h, -, -⟩
          omega

end MsgIndex

end FuelSequencer.Bridge
