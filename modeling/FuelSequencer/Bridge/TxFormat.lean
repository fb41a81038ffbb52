import FuelSequencer.Bridge.Messages
import FuelSequencer.App.Reference

/-! # The format of injected transactions

The three nested messages of a transaction, read the way a decoder reads them: every
signer info, the whole fee and every signature. An injected transaction is read back as
its messages, one signer info with nothing but the sequence, a fee of nothing and no
signature.
-/
namespace FuelSequencer.Bridge
open Go Wire Exec Lib Wiring

structure TxRaw where
  bodyBytes : Bytes
  authInfoBytes : Bytes
  signatures : List Bytes
deriving DecidableEq, Repr

/-- The key and the mode are messages of their own and stay packed. -/
structure SignerInfo where
  publicKey : Option Bytes
  modeInfo : Option Bytes
  sequence : UInt64
deriving DecidableEq, Repr

structure Fee where
  amount : List Bytes
  gasLimit : UInt64
  payer : GoString
  granter : GoString
deriving DecidableEq, Repr

structure AuthInfo where
  signerInfos : List SignerInfo
  fee : Option Fee
deriving DecidableEq, Repr

structure ParsedTx where
  messages : List Any
  authInfo : AuthInfo
  signatures : List Bytes
deriving DecidableEq, Repr

def TxRaw.parse (bz : Bytes) : Option TxRaw :=
  (decodeFields bz).map fun fs => ⟨bytesAt 1 fs, bytesAt 2 fs, repeatedAt 3 fs⟩

def SignerInfo.parse (bz : Bytes) : Option SignerInfo :=
  (decodeFields bz).map fun fs =>
    ⟨(repeatedAt 1 fs).getLast?, (repeatedAt 2 fs).getLast?, UInt64.ofNat (uintAt 3 fs)⟩

def Fee.parse (bz : Bytes) : Option Fee :=
  (decodeFields bz).map fun fs => ⟨repeatedAt 1 fs, UInt64.ofNat (uintAt 2 fs), bytesAt 3 fs, bytesAt 4 fs⟩

def AuthInfo.parse (bz : Bytes) : Option AuthInfo := do
  let fs ← decodeFields bz
  let signerInfos ← (repeatedAt 1 fs).mapM SignerInfo.parse
  let fee ← (repeatedAt 2 fs).getLast?.mapM Fee.parse
  return ⟨signerInfos, fee⟩

def ParsedTx.parse (bz : Bytes) : Option ParsedTx := do
  let raw ← TxRaw.parse bz
  let messages ← readTxBody raw.bodyBytes
  let authInfo ← AuthInfo.parse raw.authInfoBytes
  return ⟨messages, authInfo, raw.signatures⟩

/-! ## Reading back -/

theorem TxRaw.parse_encode (msgs : List Any) (sequence : UInt64) :
    TxRaw.parse (validRawTxBytesFromAnyMsgs msgs sequence) =
      some ⟨encodeFields (txBodyFields msgs), encodeFields (authInfoFields sequence), []⟩ := by
  have hbody : bytesAt 1 (txRawFields msgs sequence) = encodeFields (txBodyFields msgs) := by
    apply bytesAt_bytesField_append
    simp
  have hauth : bytesAt 2 (txRawFields msgs sequence) = encodeFields (authInfoFields sequence) := by
    apply bytesAt_append_bytesField
    simp
  have hsignatures : repeatedAt 3 (txRawFields msgs sequence) = [] := by
    simp [txRawFields]
  rw [TxRaw.parse, validRawTxBytesFromAnyMsgs, decodeFields_encodeFields, Option.map_some, hbody, hauth, hsignatures]

theorem SignerInfo.parse_encode (sequence : UInt64) :
    SignerInfo.parse (encodeFields (signerInfoFields sequence)) = some ⟨none, none, sequence⟩ := by
  have hsequence : uintAt 3 (signerInfoFields sequence) = sequence.toNat := uintAt_uintField 3 _
  rw [SignerInfo.parse, decodeFields_encodeFields, Option.map_some, hsequence, UInt64.ofNat_toNat]
  simp [signerInfoFields]

theorem AuthInfo.parse_encode (sequence : UInt64) :
    AuthInfo.parse (encodeFields (authInfoFields sequence)) =
      some ⟨[⟨none, none, sequence⟩], some ⟨[], injectedTxGasLimit, [], []⟩⟩ := by
  have hsigners : repeatedAt 1 (authInfoFields sequence) = [encodeFields (signerInfoFields sequence)] := rfl
  have hfee : (repeatedAt 2 (authInfoFields sequence)).getLast? = some (encodeFields (feeFields injectedTxGasLimit)) :=
    rfl
  simp only [AuthInfo.parse, decodeFields_encodeFields, Option.bind_eq_bind, Option.bind_some, hsigners, hfee,
    List.mapM_cons, List.mapM_nil, SignerInfo.parse_encode, Option.pure_def]
  rfl

theorem ParsedTx.parse_encode (msgs : List Any) (sequence : UInt64) :
    ParsedTx.parse (validRawTxBytesFromAnyMsgs msgs sequence) =
      some ⟨msgs, ⟨[⟨none, none, sequence⟩], some ⟨[], injectedTxGasLimit, [], []⟩⟩, []⟩ := by
  simp only [ParsedTx.parse, TxRaw.parse_encode, Option.bind_eq_bind, Option.bind_some, readTxBody_encode,
    AuthInfo.parse_encode, Option.pure_def]

/-! ## Decoders -/

/-- A resolved index message is what its fields say. -/
def ResolvesIndex (a : Any) (msg : Msg) : Prop :=
  a.typeUrl = msgIndexTypeUrl → ∃ m, MsgIndex.read a.value = some m ∧ msg = .index m

/-- What a decoder accepts has the format, and its messages are those of the body in order. -/
def StandardDecoder (decode : Bytes → Except GoString Tx) : Prop :=
  ∀ {bz : Bytes} {tx : Tx}, decode bz = .ok tx → ∃ raw anys, TxRaw.parse bz = some raw ∧
    readTxBody raw.bodyBytes = some anys ∧ List.Forall₂ ResolvesIndex anys tx.msgs

theorem fromRawTxBytes_of_standardDecoder {decode : Bytes → Except GoString Tx} (hdecode : StandardDecoder decode)
    {m : MsgIndex} {sequence : UInt64} {tx : Tx} (htx : decode (m.rawTxBytes sequence) = .ok tx) :
    MsgIndex.fromRawTxBytes decode (m.rawTxBytes sequence) = .ok m := by
  obtain ⟨raw, anys, hraw, hbody, hmsgs⟩ := hdecode htx
  rw [MsgIndex.rawTxBytes, TxRaw.parse_encode] at hraw
  obtain rfl := Option.some.inj hraw
  rw [readTxBody_encode] at hbody
  obtain rfl := Option.some.inj hbody
  obtain ⟨msg, rest, hmsg, hrest, heq⟩ := List.forall₂_cons_left_iff.mp hmsgs
  rw [List.forall₂_nil_left_iff.mp hrest] at heq
  obtain ⟨m', hread, rfl⟩ := hmsg rfl
  have hfields : MsgIndex.read m.toAny.value = some m := MsgIndex.read_encode m
  obtain rfl := Option.some.inj (hfields.symm.trans hread)
  rw [MsgIndex.fromRawTxBytes, htx, ok_bind, MsgIndex.fromSdkTx, heq]

/-- The bytes of an injected transaction determine its messages and its sequence; they read back
as exactly these, and an index message is found again by every decoder that accepts them. -/
theorem injected_tx_format {decode : Bytes → Except GoString Tx} (hdecode : StandardDecoder decode) :
    (∀ {msgs msgs' : List Any} {q q' : UInt64},
      validRawTxBytesFromAnyMsgs msgs q = validRawTxBytesFromAnyMsgs msgs' q' → msgs = msgs' ∧ q = q') ∧
    (∀ (msgs : List Any) (q : UInt64), ParsedTx.parse (validRawTxBytesFromAnyMsgs msgs q) =
      some ⟨msgs, ⟨[⟨none, none, q⟩], some ⟨[], 0, [], []⟩⟩, []⟩) ∧
    ∀ (m : MsgIndex) (q : UInt64), (∃ tx, decode (m.rawTxBytes q) = .ok tx) →
      MsgIndex.fromRawTxBytes decode (m.rawTxBytes q) = .ok m := by
  refine ⟨validRawTxBytesFromAnyMsgs_inj, ParsedTx.parse_encode, ?_⟩
  intro m q haccepts
  obtain ⟨tx, htx⟩ := haccepts
  exact fromRawTxBytes_of_standardDecoder hdecode htx

section Reference

open Reference

theorem resolvesIndex_unpackAny {a : Any} {msg : Msg} (h : unpackAny a = .ok msg) : ResolvesIndex a msg := by
  intro htype
  have hindex : unpackAny a = resolved .index (MsgIndex.read a.value) := by
    rw [unpackAny, htype]
    rfl
  rw [hindex] at h
  cases hread : MsgIndex.read a.value with
  | none =>
    rw [hread] at h
    cases h
  | some m =>
    rw [hread] at h
    exact ⟨m, rfl, (Except.ok.inj h).symm⟩

theorem standardDecoder_reference : StandardDecoder Reference.txDecode := by
  intro bz tx h
  unfold Reference.txDecode at h
  split at h
  · cases h
  next anys sequence gas hread =>
    obtain ⟨fs, hfs, hread⟩ := Option.bind_eq_some_iff.mp hread
    obtain ⟨msgs, hbody, hread⟩ := Option.bind_eq_some_iff.mp hread
    obtain ⟨_, -, hmsgs⟩ := Option.map_eq_some_iff.mp hread
    obtain rfl : msgs = anys := congrArg Prod.fst hmsgs
    cases hunpack : msgs.mapM unpackAny with
    | error e =>
      rw [hunpack] at h
      cases h
    | ok resolvedMsgs =>
      rw [hunpack] at h
      obtain rfl := Except.ok.inj h
      refine ⟨⟨bytesAt 1 fs, bytesAt 2 fs, repeatedAt 3 fs⟩, msgs, ?_, hbody, ?_⟩
      · rw [TxRaw.parse, hfs, Option.map_some]
      · exact (except_mapM_eq_ok.mp hunpack).imp fun _ _ h => resolvesIndex_unpackAny h

theorem injected_tx_format_index : MsgIndex.fromRawTxBytes Reference.txDecode
    ((⟨authority, 0, false, 7⟩ : MsgIndex).rawTxBytes 0) = .ok ⟨authority, 0, false, 7⟩ :=
  (injected_tx_format standardDecoder_reference).2.2 _ _ (exists_of_isOk (by decide +kernel))

end Reference

end FuelSequencer.Bridge
