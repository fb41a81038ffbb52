import FuelSequencer.Bridge.Special

/-! # Posting blobs

The first post on a topic creates it with the sender as its owner, every later one must
come from the owner and carry the next order. A post takes the next Ethereum nonce,
which the sequencing module shares with the bridge.
-/
namespace FuelSequencer.Sequencing
open Go Wire Exec Lib Wiring Bridge

variable {W : Type}

def getSequencing : Run W Sequencing.Store := do return (← get).sequencing

def onSequencing (f : Sequencing.Store → Sequencing.Store) : Run W Unit :=
  modify fun s => { s with sequencing := f s.sequencing }

def errDataTooBig (text : GoString) : GoString := text ++ str ": data from message too big"
def errOrderNotMatching (text : GoString) : GoString := text ++ str ": order doesn't match"
def errTopicFailedValidate (text : GoString) : GoString := text ++ str ": validate basic failed"
def errSenderNotOwner (text : GoString) : GoString := text ++ str ": message sender not owner"

/-- The topic that the first post creates. -/
def newTopic (sdk : Sdk) (msg : MsgPostBlob) : Outcome GoString Topic := do
  let order ← required msg.order errNilPointer
  failIf (order ≠ 0) (Fault.err (errOrderNotMatching
    (str "msg order " ++ decimalInt order ++ str " expected to be 0 for new topics")))
  let topic : Topic := ⟨msg.topic, msg.fromAddress, 0⟩
  wrapping (fun err => errTopicFailedValidate (str "topic failed to validate basic: " ++ err))
    (topic.validateBasic sdk)
  return topic

/-- The topic after a later post. -/
def nextTopic (topic : Topic) (msg : MsgPostBlob) : Outcome GoString Topic := do
  failIf (topic.owner ≠ msg.fromAddress) (Fault.err (errSenderNotOwner
    (str "from address " ++ msg.fromAddress ++ str " doesn't match topic owner " ++ topic.owner)))
  let nextTopicOrder ← panicking (intAdd topic.order 1)
  let order ← required msg.order errNilPointer
  failIf (nextTopicOrder ≠ order) (Fault.err (errOrderNotMatching
    (str "msg order " ++ decimalInt order ++ str " doesn't match next topic order " ++
      decimalInt nextTopicOrder)))
  return { topic with order := nextTopicOrder }

/-- The topic with which a post leaves the store. -/
def topicAfterPost (sdk : Sdk) (store : Sequencing.Store) (msg : MsgPostBlob) : Outcome GoString Topic :=
  match store.getTopic msg.topic with
  | none => newTopic sdk msg
  | some topic => nextTopic topic msg

def postBlob (app : App W) (msg : MsgPostBlob) : Run W MsgPostBlobResponse := do
  let store ← getSequencing
  let maxBlobSizeBytes := store.params.maxBlobSizeBytes
  failIf (UInt64.ofNat msg.data.length > maxBlobSizeBytes) (Fault.err (errDataTooBig
    (str "blob size " ++ decimal msg.data.length ++ str " exceeds max blob size bytes " ++
      decimal maxBlobSizeBytes.toNat)))
  let topic ← ofOutcome (topicAfterPost app.sdk store msg)
  onSequencing (·.setTopic topic)
  let nonce ← mustGetNextEthereumNonce
  setLastEthereumNonce nonce
  return ⟨nonce, app.sdk.toLower msg.fromAddress, msg.topic, msg.order, msg.data⟩

def handleUpdateSequencingParams (app : App W) (msg : Sequencing.MsgUpdateParams) : Run W Unit := do
  failIf (app.sequencingKeeper.authority ≠ msg.authority)
    (Fault.err (errInvalidAuthority app.sequencingKeeper.authority msg.authority))
  onSequencing fun b => { b with params := msg.params }

/-! ## What a post does -/

variable {app : App W} {s t : State W}

@[simp] theorem run_getSequencing_eq_ok {b : Sequencing.Store} :
    (getSequencing : Run W Sequencing.Store).run s = .ok b t ↔ s.sequencing = b ∧ t = s := by
  change EStateM.Result.ok s.sequencing s = _ ↔ _
  rw [EStateM.Result.ok.injEq]
  exact and_congr_right fun _ => eq_comm

@[simp] theorem run_onSequencing_eq_ok {f : Sequencing.Store → Sequencing.Store} {u : Unit} :
    (onSequencing f : Run W Unit).run s = .ok u t ↔ t = { s with sequencing := f s.sequencing } := by
  change EStateM.Result.ok () { s with sequencing := f s.sequencing } = _ ↔ _
  rw [EStateM.Result.ok.injEq]
  exact ⟨fun h => h.2.symm, fun h => ⟨rfl, h.symm⟩⟩

theorem newTopic_eq_ok {sdk : Sdk} {msg : MsgPostBlob} {topic : Topic} :
    newTopic sdk msg = .ok topic ↔ msg.order = some 0 ∧ topic = ⟨msg.topic, msg.fromAddress, 0⟩ ∧
      topic.validateBasic sdk = .ok () := by
  simp only [newTopic, except_bind_eq_ok, required_eq_ok, failIf_eq_ok, wrapping_eq_ok, exists_const,
    not_not, except_pure, Except.ok.injEq]
  constructor
  · rintro ⟨order, horder, rfl, _, hvalid, rfl⟩
    exact ⟨horder, rfl, hvalid⟩
  · rintro ⟨horder, rfl, hvalid⟩
    exact ⟨0, horder, rfl, (), hvalid, rfl⟩

theorem nextTopic_eq_ok {topic topic' : Topic} {msg : MsgPostBlob} :
    nextTopic topic msg = .ok topic' ↔ topic.owner = msg.fromAddress ∧ msg.order = some (topic.order + 1) ∧
      (topic.order + 1).natAbs < 2 ^ maxBitLen ∧ topic' = { topic with order := topic.order + 1 } := by
  simp only [nextTopic, except_bind_eq_ok, required_eq_ok, failIf_eq_ok, panicking_eq_ok, intAdd,
    checkInt_eq_ok, exists_const, not_not, except_pure, Except.ok.injEq]
  constructor
  · rintro ⟨howner, _, ⟨hfits, rfl⟩, order, horder, rfl, rfl⟩
    exact ⟨howner, horder, hfits, rfl⟩
  · rintro ⟨howner, horder, hfits, rfl⟩
    exact ⟨howner, _, ⟨hfits, rfl⟩, _, horder, rfl, rfl⟩

/-- A post that succeeds: the topic it stores and the nonce it takes. -/
structure Posted (app : App W) (msg : MsgPostBlob) (s : State W) (topic : Topic) (nonce : ℤ) : Prop where
  size : UInt64.ofNat msg.data.length ≤ s.sequencing.params.maxBlobSizeBytes
  stores : topicAfterPost app.sdk s.sequencing msg = .ok topic
  last : s.bridge.lastEthereumNonce = some nonce
  fits : (nonce + 1).natAbs < 2 ^ maxBitLen

theorem run_postBlob_eq_ok {msg : MsgPostBlob} {r : MsgPostBlobResponse} :
    (postBlob app msg).run s = .ok r t ↔ ∃ topic nonce, Posted app msg s topic nonce ∧
      r = ⟨nonce + 1, app.sdk.toLower msg.fromAddress, msg.topic, msg.order, msg.data⟩ ∧
      t = { s with
        bridge := { s.bridge with lastEthereumNonce := some (nonce + 1) }
        sequencing := s.sequencing.setTopic topic } := by
  simp only [postBlob, run_bind_eq_ok, run_getSequencing_eq_ok, run_failIf_eq_ok, run_ofOutcome_eq_ok,
    run_onSequencing_eq_ok, mustGetNextEthereumNonce, mustGetLastEthereumNonce, run_mustGet_eq_ok,
    panicking_eq_ok, intAdd, checkInt_eq_ok, setLastEthereumNonce, run_onStore_eq_ok, run_pure_eq_ok,
    gt_iff_lt, UInt64.not_lt]
  constructor
  · rintro ⟨_, _, ⟨rfl, rfl⟩, _, _, ⟨hsize, rfl⟩, topic, _, ⟨htopic, rfl⟩, _, _, rfl, _, _,
      ⟨nonce, _, ⟨hnonce, rfl⟩, ⟨hfits, rfl⟩, rfl⟩, _, _, rfl, rfl, rfl⟩
    exact ⟨topic, nonce, ⟨hsize, htopic, hnonce, hfits⟩, rfl, rfl⟩
  · rintro ⟨topic, nonce, ⟨hsize, htopic, hnonce, hfits⟩, rfl, rfl⟩
    exact ⟨_, _, ⟨rfl, rfl⟩, (), _, ⟨hsize, rfl⟩, topic, _, ⟨htopic, rfl⟩, (), _, rfl, _, _,
      ⟨nonce, _, ⟨hnonce, rfl⟩, ⟨hfits, rfl⟩, rfl⟩, (), _, rfl, rfl, rfl⟩

end FuelSequencer.Sequencing
