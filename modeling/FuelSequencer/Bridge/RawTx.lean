import FuelSequencer.Bridge.Types

/-! # Raw bytes of injected transactions

An injected transaction holds its packed messages, one signer info with nothing
but the sequence, and a fee without gas. `readRawTx` reads the messages, the
sequence and the gas limit back, so the bytes determine all three.
-/
namespace FuelSequencer.Bridge
open Go Wire

def injectedTxGasLimit : UInt64 := 0

def txBodyFields (msgs : List Any) : List Field :=
  msgs.map fun a => messageField 1 (encodeFields a.fields)

def signerInfoFields (sequence : UInt64) : List Field := uintField 3 sequence.toNat

def feeFields (gasLimit : UInt64) : List Field := uintField 2 gasLimit.toNat

def authInfoFields (sequence : UInt64) : List Field :=
  [messageField 1 (encodeFields (signerInfoFields sequence)),
    messageField 2 (encodeFields (feeFields injectedTxGasLimit))]

def txRawFields (msgs : List Any) (sequence : UInt64) : List Field :=
  bytesField 1 (encodeFields (txBodyFields msgs)) ++
    bytesField 2 (encodeFields (authInfoFields sequence))

/-- Marshalling these generated types cannot fail, so no error is returned. -/
def validRawTxBytesFromAnyMsgs (msgs : List Any) (sequence : UInt64) : Bytes :=
  encodeFields (txRawFields msgs sequence)

/-- What one transaction takes in the block data: its tag, its length and its bytes. -/
def txSize (txBz : Bytes) : ℕ := 1 + varintSize txBz.length + txBz.length

def txsSize (txsBz : List Bytes) : ℕ := (txsBz.map txSize).sum

def MsgSupplyDelta.rawTxBytes (m : MsgSupplyDelta) (sequence : UInt64) : Bytes :=
  validRawTxBytesFromAnyMsgs [m.toAny] sequence

def MsgIndex.rawTxBytes (m : MsgIndex) (sequence : UInt64) : Bytes :=
  validRawTxBytesFromAnyMsgs [m.toAny] sequence

def MsgSkippedEventTx.rawTxBytes (m : MsgSkippedEventTx) (sequence : UInt64) : Bytes :=
  validRawTxBytesFromAnyMsgs [m.toAny] sequence

/-! ## Reading back -/

def Any.read (bz : Bytes) : Option Any :=
  (decodeFields bz).map fun fs => ⟨bytesAt 1 fs, bytesAt 2 fs⟩

def readTxBody (bz : Bytes) : Option (List Any) :=
  (decodeFields bz).bind fun fs => (repeatedAt 1 fs).mapM Any.read

def readSigner (bz : Bytes) : Option UInt64 :=
  (decodeFields bz).map fun fs => UInt64.ofNat (uintAt 3 fs)

def readFee (bz : Bytes) : Option UInt64 :=
  (decodeFields bz).map fun fs => UInt64.ofNat (uintAt 2 fs)

def readAuthInfo (bz : Bytes) : Option (UInt64 × UInt64) :=
  (decodeFields bz).bind fun fs =>
    (readSigner (bytesAt 1 fs)).bind fun sequence =>
      (readFee (bytesAt 2 fs)).map fun gas => (sequence, gas)

def readRawTx (bz : Bytes) : Option (List Any × UInt64 × UInt64) :=
  (decodeFields bz).bind fun fs =>
    (readTxBody (bytesAt 1 fs)).bind fun msgs =>
      (readAuthInfo (bytesAt 2 fs)).map fun p => (msgs, p)

def MsgIndex.read (bz : Bytes) : Option MsgIndex :=
  (decodeFields bz).map fun fs =>
    ⟨bytesAt 1 fs, UInt64.ofNat (uintAt 2 fs), uintAt 3 fs ≠ 0, UInt64.ofNat (uintAt 4 fs)⟩

theorem MsgIndex.read_encode (m : MsgIndex) : MsgIndex.read (encodeFields m.fields) = some m := by
  have hflag : (!decide (boolValue m.newEthereumBlock = 0)) = m.newEthereumBlock := by
    cases m.newEthereumBlock <;> rfl
  rw [MsgIndex.read, decodeFields_encodeFields]
  simp [MsgIndex.fields, bytesAt, uintAt, hflag]

theorem Any.read_encode (a : Any) : Any.read (encodeFields a.fields) = some a := by
  have h₁ : bytesAt 1 a.fields = a.typeUrl :=
    bytesAt_bytesField_append 1 a.typeUrl (bytesField 2 a.value) (by simp)
  have h₂ : bytesAt 2 a.fields = a.value :=
    bytesAt_append_bytesField 2 a.value (bytesField 1 a.typeUrl) (by simp)
  rw [Any.read, decodeFields_encodeFields, Option.map_some, h₁, h₂]

theorem repeatedAt_txBodyFields (msgs : List Any) :
    repeatedAt 1 (txBodyFields msgs) = msgs.map fun a => encodeFields a.fields := by
  induction msgs with
  | nil => rfl
  | cons a msgs ih =>
    rw [txBodyFields, List.map_cons, repeatedAt_messageField, List.map_cons, ← ih]
    rfl

theorem readTxBody_encode (msgs : List Any) :
    readTxBody (encodeFields (txBodyFields msgs)) = some msgs := by
  rw [readTxBody, decodeFields_encodeFields, Option.bind_some, repeatedAt_txBodyFields]
  induction msgs with
  | nil => rfl
  | cons a msgs ih => rw [List.map_cons, List.mapM_cons, Any.read_encode, ih]; rfl

theorem readSigner_encode (sequence : UInt64) :
    readSigner (encodeFields (signerInfoFields sequence)) = some sequence := by
  have h : uintAt 3 (signerInfoFields sequence) = sequence.toNat := uintAt_uintField 3 _
  rw [readSigner, decodeFields_encodeFields, Option.map_some, h, UInt64.ofNat_toNat]

theorem readAuthInfo_encode (sequence : UInt64) :
    readAuthInfo (encodeFields (authInfoFields sequence)) = some (sequence, injectedTxGasLimit) := by
  have h₁ : bytesAt 1 (authInfoFields sequence) = encodeFields (signerInfoFields sequence) := rfl
  have h₂ : bytesAt 2 (authInfoFields sequence) = encodeFields (feeFields injectedTxGasLimit) := rfl
  rw [readAuthInfo, decodeFields_encodeFields, Option.bind_some, h₁, h₂, readSigner_encode]
  rfl

theorem readRawTx_encode (msgs : List Any) (sequence : UInt64) :
    readRawTx (validRawTxBytesFromAnyMsgs msgs sequence) =
      some (msgs, sequence, injectedTxGasLimit) := by
  have h₁ : bytesAt 1 (txRawFields msgs sequence) = encodeFields (txBodyFields msgs) :=
    bytesAt_bytesField_append 1 _ _ (by simp)
  have h₂ : bytesAt 2 (txRawFields msgs sequence) = encodeFields (authInfoFields sequence) :=
    bytesAt_append_bytesField 2 _ _ (by simp)
  rw [readRawTx, validRawTxBytesFromAnyMsgs, decodeFields_encodeFields, Option.bind_some, h₁, h₂,
    readTxBody_encode, Option.bind_some, readAuthInfo_encode, Option.map_some]

/-- The bytes of an injected transaction determine its messages and its sequence. -/
theorem validRawTxBytesFromAnyMsgs_inj {msgs msgs' : List Any} {q q' : UInt64}
    (h : validRawTxBytesFromAnyMsgs msgs q = validRawTxBytesFromAnyMsgs msgs' q') :
    msgs = msgs' ∧ q = q' := by
  have hr := congrArg readRawTx h
  rw [readRawTx_encode, readRawTx_encode] at hr
  simp only [Option.some.injEq, Prod.mk.injEq] at hr
  exact ⟨hr.1, hr.2.1⟩

/-! ## Sizes -/

theorem txSize_mono {a b : Bytes} (h : a.length ≤ b.length) : txSize a ≤ txSize b := by
  have hsize := varintSize_mono h
  unfold txSize
  omega

theorem txSize_pos (txBz : Bytes) : 0 < txSize txBz := by
  unfold txSize
  omega

theorem length_encodeFields_stringField (number : ℕ) [NeZero number] (text : GoString)
    (htag : varintSize (number * 8 + 2) = 1) :
    (encodeFields (bytesField number text)).length =
      if 0 < text.length then 1 + text.length + varintSize text.length else 0 := by
  rw [length_encodeFields_bytesField, htag]
  by_cases h : text = []
  · simp [h]
  · rw [if_neg h, if_pos (List.length_pos_iff.mpr h)]
    omega

theorem length_encodeFields_uint64Field (number : ℕ) [NeZero number] (v : UInt64)
    (htag : varintSize (number * 8) = 1) :
    (encodeFields (uintField number v.toNat)).length =
      if v ≠ 0 then 1 + varintSize v.toNat else 0 := by
  rw [length_encodeFields_uintField, htag]
  by_cases h : v = 0
  · simp [h]
  · have hn : v.toNat ≠ 0 := fun hz => h (UInt64.toNat_inj.mp hz)
    rw [if_neg hn, if_pos h]

theorem MsgIndex.length_encodeFields (m : MsgIndex) : (encodeFields m.fields).length = m.size := by
  have hflag : (encodeFields (uintField 3 (boolValue m.newEthereumBlock))).length =
      if m.newEthereumBlock then 2 else 0 := by
    cases m.newEthereumBlock <;> rfl
  simp only [MsgIndex.fields, encodeFields_append, List.length_append, hflag]
  rw [length_encodeFields_stringField 1 m.authority (by decide),
    length_encodeFields_uint64Field 2 m.numInjectedEventTxs (by decide),
    length_encodeFields_uint64Field 4 m.blockNumber (by decide)]
  rfl

/-- Fewer events and a dropped flag never make the message longer. -/
theorem MsgIndex.size_le {m m' : MsgIndex} (ha : m'.authority = m.authority)
    (hb : m'.blockNumber = m.blockNumber) (hn : m'.numInjectedEventTxs ≤ m.numInjectedEventTxs)
    (hf : m'.newEthereumBlock = true → m.newEthereumBlock = true) : m'.size ≤ m.size := by
  have hsize := varintSize_mono (UInt64.le_iff_toNat_le.mp hn)
  have hzero : m.numInjectedEventTxs = 0 → m'.numInjectedEventTxs = 0 := by
    intro h
    rw [h] at hn
    exact UInt64.le_zero_iff.mp hn
  unfold MsgIndex.size
  rw [ha, hb]
  split_ifs <;> first | omega | simp_all

theorem MsgIndex.length_rawTxBytes_mono {m m' : MsgIndex} (sequence : UInt64)
    (h : m'.size ≤ m.size) : (m'.rawTxBytes sequence).length ≤ (m.rawTxBytes sequence).length := by
  have hany : (encodeFields m'.toAny.fields).length ≤ (encodeFields m.toAny.fields).length := by
    simp only [Any.fields, encodeFields_append, List.length_append]
    apply Nat.add_le_add_left
    apply length_encodeFields_bytesField_mono
    simpa only [MsgIndex.toAny, MsgIndex.length_encodeFields] using h
  have hbody : (encodeFields (txBodyFields [m'.toAny])).length ≤
      (encodeFields (txBodyFields [m.toAny])).length := by
    have hsize := varintSize_mono hany
    simp only [txBodyFields, List.map_cons, List.map_nil, encodeFields_cons, encodeFields_nil,
      List.append_nil, length_encodeField_messageField]
    omega
  simp only [MsgIndex.rawTxBytes, validRawTxBytesFromAnyMsgs, txRawFields, encodeFields_append,
    List.length_append]
  exact Nat.add_le_add_right (length_encodeFields_bytesField_mono 1 hbody) _

end FuelSequencer.Bridge
