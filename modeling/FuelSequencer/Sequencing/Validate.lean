import FuelSequencer.App.Environment

/-! # Stateless checks of the sequencing module -/
namespace FuelSequencer.Sequencing
open Go Wire Exec Wiring

def maxBlockSizeBytes : UInt64 := 104857600

def errParamsInvalid (text : GoString) : GoString := text ++ str ": params are invalid"

/-- A size must be positive and must not exceed the maximum size of a block. -/
def validateSize (name : GoString) (v : UInt64) : Except GoString Unit := do
  failIf (v = 0) (errParamsInvalid (name ++ str " must be greater than 0"))
  failIf (v > maxBlockSizeBytes) (errParamsInvalid (name ++ str " " ++ decimal v.toNat ++
    str " cannot be greater than cometbft max block size " ++ decimal maxBlockSizeBytes.toNat))

def validateMaxBlobSizeBytes (v : UInt64) : Except GoString Unit := validateSize (str "maxBlobSizeBytes") v

def validateSequencerTxMaxBytes (v : UInt64) : Except GoString Unit :=
  validateSize (str "sequencerTxMaxBytes") v

def Params.validate (p : Params) : Except GoString Unit := do
  validateMaxBlobSizeBytes p.maxBlobSizeBytes
  validateSequencerTxMaxBytes p.sequencerTxMaxBytes

def validateTopicId (id : Bytes) : Except GoString Unit :=
  failIf (id.length ≠ 32) (str "expected Topic Id to be 32 bytes, received " ++ decimal id.length ++ str " bytes")

/-- The source prints the address of the integer here, which is left out. -/
def validateTopicOrder (order : ℤ) : Except GoString Unit :=
  failIf (order < 0) (str "expected Topic Order > 0, received ")

/-- Another text before that of an error. -/
def annotated {α : Type} (text : GoString) (x : Except GoString α) : Except GoString Unit :=
  match x with
  | .ok _ => .ok ()
  | .error err => .error (text ++ str ": " ++ err)

def Topic.validateBasic (sdk : Sdk) (t : Topic) : Except GoString Unit := do
  annotated (str "invalid topic owner address") (sdk.accAddressFromBech32 t.owner)
  annotated (str "invalid topic id") (validateTopicId t.id)
  annotated (str "invalid topic order") (validateTopicOrder t.order)

def MsgPostBlob.validateBasic (sdk : Sdk) (m : MsgPostBlob) : Except GoString Unit :=
  match sdk.accAddressFromBech32 m.fromAddress with
  | .ok _ => .ok ()
  | .error err => .error (str "invalid from address (" ++ err ++ str "): invalid address")

def MsgUpdateParams.validateBasic (sdk : Sdk) (m : MsgUpdateParams) : Except GoString Unit := do
  annotated (str "invalid authority address") (sdk.accAddressFromBech32 m.authority)
  m.params.validate

@[simp] theorem annotated_eq_ok {α : Type} {text : GoString} {x : Except GoString α} {u : Unit} :
    annotated text x = .ok u ↔ ∃ a, x = .ok a := by
  cases x <;> simp [annotated]

/-- What a valid topic guarantees. -/
theorem Topic.validateBasic_eq_ok {sdk : Sdk} {t : Topic} {u : Unit} :
    t.validateBasic sdk = .ok u ↔
      (∃ address, sdk.accAddressFromBech32 t.owner = .ok address) ∧ t.id.length = 32 ∧ 0 ≤ t.order := by
  simp only [validateBasic, except_bind_eq_ok, annotated_eq_ok, validateTopicId, validateTopicOrder,
    failIf_eq_ok, exists_const, not_not, not_lt]

end FuelSequencer.Sequencing
