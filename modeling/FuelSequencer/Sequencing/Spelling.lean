import FuelSequencer.Sequencing.Topics

/-! # Spellings of a sender

The text of an account is read in lower and in upper case. A topic keeps its owner as it
was first written, and a later sender is compared with it as a text, while the response
is in lower case. Two runs of the same posts by the same accounts agree as long as every
sender is written as the owner of the topic is.
-/
namespace FuelSequencer.Sequencing
open Go Wire Exec Lib Wiring Bridge

variable {W : Type} {app : App W} {sdk : Sdk} {s s' t : State W} {msg msg' : MsgPostBlob}

/-- Two texts of one account. -/
def SameAccount (sdk : Sdk) (text text' : GoString) : Prop :=
  text = text' ∨ ∃ address, sdk.accAddressFromBech32 text = .ok address ∧ sdk.accAddressFromBech32 text' = .ok address

namespace SameAccount

theorem refl (sdk : Sdk) (text : GoString) : SameAccount sdk text text := Or.inl rfl

theorem symm {a b : GoString} (h : SameAccount sdk a b) : SameAccount sdk b a := by
  rcases h with h | ⟨address, ha, hb⟩
  · exact Or.inl h.symm
  · exact Or.inr ⟨address, hb, ha⟩

theorem trans {a b c : GoString} (h : SameAccount sdk a b) (h' : SameAccount sdk b c) : SameAccount sdk a c := by
  rcases h with rfl | ⟨address, ha, hb⟩
  · exact h'
  rcases h' with rfl | ⟨address', hb', hc⟩
  · exact Or.inr ⟨address, ha, hb⟩
  · cases hb.symm.trans hb'
    exact Or.inr ⟨address, ha, hc⟩

theorem accepted {a b : GoString} (h : SameAccount sdk a b) (ha : ∃ address, sdk.accAddressFromBech32 a = .ok address) :
    ∃ address, sdk.accAddressFromBech32 b = .ok address := by
  rcases h with rfl | ⟨address, -, hb⟩
  · exact ha
  · exact ⟨address, hb⟩

end SameAccount

/-- Two posts that differ only in how the sender is written. -/
structure Respelled (sdk : Sdk) (msg msg' : MsgPostBlob) : Prop where
  sender : SameAccount sdk msg.fromAddress msg'.fromAddress
  topic_eq : msg.topic = msg'.topic
  order_eq : msg.order = msg'.order
  data_eq : msg.data = msg'.data

theorem Respelled.symm (h : Respelled sdk msg msg') : Respelled sdk msg' msg :=
  ⟨h.sender.symm, h.topic_eq.symm, h.order_eq.symm, h.data_eq.symm⟩

/-- The lower case of a text that is read is the text of its account. -/
def LowersAccounts (sdk : Sdk) : Prop :=
  ∀ text address, sdk.accAddressFromBech32 text = .ok address → sdk.toLower text = sdk.accAddressString address

theorem SameAccount.toLower_eq (hlower : LowersAccounts sdk) {a b : GoString} (h : SameAccount sdk a b) :
    sdk.toLower a = sdk.toLower b := by
  rcases h with rfl | ⟨address, ha, hb⟩
  · rfl
  · rw [hlower a address ha, hlower b address hb]

/-! ## Posts in a row -/

/-- A post whose stateless check comes first. -/
def checkedPostBlob (app : App W) (msg : MsgPostBlob) : Run W MsgPostBlobResponse := do
  ofOutcome (wrapping id (msg.validateBasic app.sdk))
  postBlob app msg

/-- The response of a post, if it is accepted, and the state after it. The writes of a rejected post
are rolled back. -/
def posted (app : App W) (s : State W) (msg : MsgPostBlob) : Option MsgPostBlobResponse × State W :=
  match (checkedPostBlob app msg).run s with
  | .ok r t => (some r, t)
  | .error _ _ => (none, s)

/-- The responses of a sequence of posts, and the state after it. -/
def postAll (app : App W) : State W → List MsgPostBlob → List (Option MsgPostBlobResponse) × State W
  | s, [] => ([], s)
  | s, msg :: msgs =>
    let (r, t) := posted app s msg
    let (rs, u) := postAll app t msgs
    (r :: rs, u)

/-- A sender who is the owner of the topic is written as the topic has the owner. -/
def SpelledAsOwner (sdk : Sdk) (s : State W) (msg : MsgPostBlob) : Prop :=
  ∀ topic, s.sequencing.getTopic msg.topic = some topic → SameAccount sdk topic.owner msg.fromAddress →
    topic.owner = msg.fromAddress

/-- So at every step of a run. -/
def AllSpelledAsOwner (app : App W) : State W → List MsgPostBlob → Prop
  | _, [] => True
  | s, msg :: msgs => SpelledAsOwner app.sdk s msg ∧ AllSpelledAsOwner app (posted app s msg).2 msgs

/-! ## One post -/

/-- Topics up to how the owner is written. -/
structure SameTopic (sdk : Sdk) (topic topic' : Topic) : Prop where
  id_eq : topic.id = topic'.id
  owner : SameAccount sdk topic.owner topic'.owner
  order_eq : topic.order = topic'.order

theorem SameTopic.symm {topic topic' : Topic} (h : SameTopic sdk topic topic') : SameTopic sdk topic' topic :=
  ⟨h.id_eq.symm, h.owner.symm, h.order_eq.symm⟩

/-- States up to how the owners of the topics are written. -/
structure SameOwners (sdk : Sdk) (s s' : State W) : Prop where
  bridge_eq : s.bridge = s'.bridge
  world_eq : s.world = s'.world
  params_eq : s.sequencing.params = s'.sequencing.params
  topics : ∀ id, Option.Rel (SameTopic sdk) (s.sequencing.getTopic id) (s'.sequencing.getTopic id)

theorem SameOwners.refl (sdk : Sdk) (s : State W) : SameOwners sdk s s := by
  refine ⟨rfl, rfl, rfl, fun id => ?_⟩
  cases s.sequencing.getTopic id with
  | none => exact .none
  | some topic => exact .some ⟨rfl, SameAccount.refl sdk _, rfl⟩

theorem SameOwners.symm (h : SameOwners sdk s s') : SameOwners sdk s' s := by
  refine ⟨h.bridge_eq.symm, h.world_eq.symm, h.params_eq.symm, fun id => ?_⟩
  have htopics := h.topics id
  generalize s.sequencing.getTopic id = found, s'.sequencing.getTopic id = found' at htopics ⊢
  cases htopics with
  | none => exact .none
  | some hsame => exact .some hsame.symm

theorem newTopic_respelled (h : Respelled sdk msg msg') {topic : Topic} (hnew : newTopic sdk msg = .ok topic) :
    ∃ topic', newTopic sdk msg' = .ok topic' ∧ SameTopic sdk topic topic' := by
  obtain ⟨horder, rfl, hvalid⟩ := newTopic_eq_ok.mp hnew
  obtain ⟨howner, hid, hsign⟩ := Topic.validateBasic_eq_ok.mp hvalid
  refine ⟨⟨msg'.topic, msg'.fromAddress, 0⟩, newTopic_eq_ok.mpr ⟨?_, rfl, ?_⟩, h.topic_eq, h.sender, rfl⟩
  · rw [← h.order_eq, horder]
  · exact Topic.validateBasic_eq_ok.mpr ⟨h.sender.accepted howner, h.topic_eq ▸ hid, hsign⟩

theorem nextTopic_respelled (h : Respelled sdk msg msg') {last last' topic : Topic} (hlast : SameTopic sdk last last')
    (hspelled : SameAccount sdk last'.owner msg'.fromAddress → last'.owner = msg'.fromAddress)
    (hnext : nextTopic last msg = .ok topic) :
    ∃ topic', nextTopic last' msg' = .ok topic' ∧ SameTopic sdk topic topic' := by
  obtain ⟨howner, horder, hfits, rfl⟩ := nextTopic_eq_ok.mp hnext
  have hsame : SameAccount sdk last'.owner msg'.fromAddress := by
    refine hlast.owner.symm.trans ?_
    rw [howner]
    exact h.sender
  refine ⟨{ last' with order := last'.order + 1 }, nextTopic_eq_ok.mpr ⟨hspelled hsame, ?_, ?_, rfl⟩, ?_⟩
  · rw [← h.order_eq, horder, hlast.order_eq]
  · rwa [← hlast.order_eq]
  · exact ⟨hlast.id_eq, hlast.owner, by rw [hlast.order_eq]⟩

theorem topicAfterPost_respelled (h : Respelled sdk msg msg') (hsame : SameOwners sdk s s')
    (hspelled : SpelledAsOwner sdk s' msg') {topic : Topic}
    (hpost : topicAfterPost sdk s.sequencing msg = .ok topic) :
    ∃ topic', topicAfterPost sdk s'.sequencing msg' = .ok topic' ∧ SameTopic sdk topic topic' := by
  have htopics := hsame.topics msg.topic
  rw [h.topic_eq] at htopics
  unfold SpelledAsOwner at hspelled
  unfold topicAfterPost at hpost ⊢
  rw [h.topic_eq] at hpost
  generalize s.sequencing.getTopic msg'.topic = found, s'.sequencing.getTopic msg'.topic = found'
    at htopics hpost hspelled ⊢
  cases htopics with
  | none => exact newTopic_respelled h hpost
  | some hlast => exact nextTopic_respelled h hlast (hspelled _ rfl) hpost

theorem SameOwners.setTopic (h : SameOwners sdk s s') {topic topic' : Topic} (htopic : SameTopic sdk topic topic')
    (id : Bytes) : Option.Rel (SameTopic sdk) ((s.sequencing.setTopic topic).getTopic id)
      ((s'.sequencing.setTopic topic').getTopic id) := by
  rw [Store.getTopic_setTopic, Store.getTopic_setTopic, htopic.id_eq]
  by_cases hid : id = topic'.id
  · rw [if_pos hid, if_pos hid]
    exact .some htopic
  · rw [if_neg hid, if_neg hid]
    exact h.topics id

theorem run_checkedPostBlob_eq_ok {r : MsgPostBlobResponse} : (checkedPostBlob app msg).run s = .ok r t ↔
    (∃ address, app.sdk.accAddressFromBech32 msg.fromAddress = .ok address) ∧ (postBlob app msg).run s = .ok r t := by
  simp only [checkedPostBlob, run_bind_eq_ok, run_ofOutcome_eq_ok, wrapping_eq_ok]
  have hvalid : msg.validateBasic app.sdk = .ok () ↔
      ∃ address, app.sdk.accAddressFromBech32 msg.fromAddress = .ok address := by
    rw [MsgPostBlob.validateBasic]
    cases app.sdk.accAddressFromBech32 msg.fromAddress <;> simp
  constructor
  · rintro ⟨_, _, ⟨hmsg, rfl⟩, hpost⟩
    exact ⟨hvalid.mp hmsg, hpost⟩
  · rintro ⟨hmsg, hpost⟩
    exact ⟨(), s, ⟨hvalid.mpr hmsg, rfl⟩, hpost⟩

/-- A post that is accepted is also accepted in the other spelling, with the same response. -/
theorem accepted_respelled (hlower : LowersAccounts app.sdk) (h : Respelled app.sdk msg msg')
    (hsame : SameOwners app.sdk s s') (hspelled : SpelledAsOwner app.sdk s' msg') {r : MsgPostBlobResponse}
    (hpost : (checkedPostBlob app msg).run s = .ok r t) :
    ∃ t', (checkedPostBlob app msg').run s' = .ok r t' ∧ SameOwners app.sdk t t' := by
  obtain ⟨hsender, hrun⟩ := run_checkedPostBlob_eq_ok.mp hpost
  obtain ⟨topic, nonce, hposted, rfl, rfl⟩ := run_postBlob_eq_ok.mp hrun
  obtain ⟨topic', htopic', htopic⟩ := topicAfterPost_respelled h hsame hspelled hposted.stores
  have hposted' : Posted app msg' s' topic' nonce := by
    refine ⟨?_, htopic', ?_, hposted.fits⟩
    · rw [← h.data_eq, ← hsame.params_eq]
      exact hposted.size
    · rw [← hsame.bridge_eq]
      exact hposted.last
  refine ⟨_, run_checkedPostBlob_eq_ok.mpr ⟨h.sender.accepted hsender,
    run_postBlob_eq_ok.mpr ⟨topic', nonce, hposted', ?_, rfl⟩⟩, ?_⟩
  · rw [h.sender.toLower_eq hlower, h.topic_eq, h.order_eq, h.data_eq]
  · refine ⟨?_, hsame.world_eq, hsame.params_eq, hsame.setTopic htopic⟩
    rw [hsame.bridge_eq]

/-- One post in two spellings. -/
theorem posted_respelled (hlower : LowersAccounts app.sdk) (h : Respelled app.sdk msg msg')
    (hsame : SameOwners app.sdk s s') (hspelled : SpelledAsOwner app.sdk s msg)
    (hspelled' : SpelledAsOwner app.sdk s' msg') :
    (posted app s msg).1 = (posted app s' msg').1 ∧ SameOwners app.sdk (posted app s msg).2 (posted app s' msg').2 := by
  unfold posted
  cases hrun : (checkedPostBlob app msg).run s with
  | ok r t =>
    obtain ⟨t', hrun', hnext⟩ := accepted_respelled hlower h hsame hspelled' hrun
    rw [hrun']
    exact ⟨rfl, hnext⟩
  | error e t =>
    cases hrun' : (checkedPostBlob app msg').run s' with
    | ok r t' =>
      obtain ⟨t, hok, -⟩ := accepted_respelled hlower h.symm hsame.symm hspelled hrun'
      cases hrun.symm.trans hok
    | error e' t' => exact ⟨rfl, hsame⟩

/-! ## Runs -/

theorem postAll_respelled (hlower : LowersAccounts app.sdk) {msgs msgs' : List MsgPostBlob}
    (h : List.Forall₂ (Respelled app.sdk) msgs msgs') (hsame : SameOwners app.sdk s s')
    (hspelled : AllSpelledAsOwner app s msgs) (hspelled' : AllSpelledAsOwner app s' msgs') :
    (postAll app s msgs).1 = (postAll app s' msgs').1 ∧
      SameOwners app.sdk (postAll app s msgs).2 (postAll app s' msgs').2 := by
  induction h generalizing s s' with
  | nil => exact ⟨rfl, hsame⟩
  | cons hmsg _ ih =>
    obtain ⟨hresponse, hnext⟩ := posted_respelled hlower hmsg hsame hspelled.1 hspelled'.1
    obtain ⟨hresponses, hlast⟩ := ih hnext hspelled.2 hspelled'.2
    refine ⟨?_, hlast⟩
    simp only [postAll, hresponse, hresponses]

/-- Two sequences of posts that differ only in the spelling of the senders, from one state: if in
both of them every sender who owns the topic is written as the topic has them, the same posts are
accepted, with the same responses, and the states after them differ only in the spelling of the
owners. -/
theorem responses_do_not_depend_on_spelling (hlower : LowersAccounts app.sdk) {msgs msgs' : List MsgPostBlob}
    (h : List.Forall₂ (Respelled app.sdk) msgs msgs') (hspelled : AllSpelledAsOwner app s msgs)
    (hspelled' : AllSpelledAsOwner app s msgs') :
    (postAll app s msgs).1 = (postAll app s msgs').1 ∧
      SameOwners app.sdk (postAll app s msgs).2 (postAll app s msgs').2 :=
  postAll_respelled hlower h (SameOwners.refl app.sdk s) hspelled hspelled'

/-! ## Two spellings of one sender -/

theorem lower_hexDigitLower {b : UInt8} (h : b.toNat < 16) : Reference.lower (hexDigitLower b) = hexDigitLower b := by
  have hall : ∀ b < 16, Reference.lower (hexDigitLower (UInt8.ofNat b)) = hexDigitLower (UInt8.ofNat b) := by decide
  have hb := hall b.toNat h
  rwa [UInt8.ofNat_toNat] at hb

theorem map_lower_hexLower (bz : Bytes) : (hexLower bz).map Reference.lower = hexLower bz := by
  induction bz with
  | nil => rfl
  | cons b bz ih =>
    have hb := b.toNat_lt
    have hhigh : (b / 16).toNat < 16 := by
      rw [UInt8.toNat_div]
      exact Nat.div_lt_of_lt_mul hb
    have hlow : (b % 16).toNat < 16 := by
      rw [UInt8.toNat_mod]
      exact Nat.mod_lt _ (by decide)
    rw [hexLower, List.flatMap_cons, List.map_append, List.map_cons, List.map_cons, List.map_nil,
      lower_hexDigitLower hhigh, lower_hexDigitLower hlow]
    exact congrArg _ ih

/-- Texts of accounts are in lower case. -/
theorem map_lower_bech32String (address : Bytes) :
    (Reference.bech32String address).map Reference.lower = Reference.bech32String address := by
  cases hfind : Reference.bech32Table.find? fun p => p.1 = address with
  | some p =>
    have htexts : ∀ p ∈ Reference.bech32Table, p.2.map Reference.lower = p.2 := by decide
    rw [Reference.bech32String, hfind]
    exact htexts p (List.mem_of_find?_eq_some hfind)
  | none =>
    have hhrp : Reference.hrp.map Reference.lower = Reference.hrp := by decide
    rw [Reference.bech32String_of_none hfind, List.map_append, map_lower_hexLower, hhrp]

theorem uncased_of_fromBech32 {text : GoString} {address : Bytes} (h : Reference.fromBech32 text = .ok address) :
    Reference.uncased text = Reference.bech32String address := by
  unfold Reference.fromBech32 at h
  split at h
  next p hfind =>
    cases h
    have htexts : ∀ p ∈ Reference.bech32Table, p.2 = Reference.bech32String p.1 := by decide
    have heq := of_decide_eq_true (List.find?_some hfind :)
    rw [← heq]
    exact htexts p (List.mem_of_find?_eq_some hfind)
  next =>
    simp only at h
    split at h
    next hcond => rw [← Except.ok.inj h]; exact hcond.1
    next => cases h

theorem lowersAccounts_reference : LowersAccounts Reference.sdk := by
  intro text address h
  have huncased := uncased_of_fromBech32 h
  change text.map Reference.lower = Reference.bech32String address
  unfold Reference.uncased at huncased
  split at huncased
  · rw [huncased, map_lower_bech32String]
  · exact huncased

/-- The sender of the posts in upper case. -/
def upperDepositor : GoString := str "FUELSEQUENCER1ZYG3ZYG3ZYG3ZYG3ZYG3ZYG3ZYG3ZYG3KDDTJD"

def upperPost (order : ℤ) : MsgPostBlob := { referencePost order with fromAddress := upperDepositor }

theorem respelled_upperPost (order : ℤ) : Respelled Reference.sdk (referencePost order) (upperPost order) := by
  have hlower : Reference.fromBech32 (Reference.bech32String Reference.depositor) = .ok Reference.depositor := by
    decide +kernel
  have hupper : Reference.fromBech32 upperDepositor = .ok Reference.depositor := by decide +kernel
  exact ⟨Or.inr ⟨Reference.depositor, hlower, hupper⟩, rfl, rfl, rfl⟩

theorem spelledAsOwner_of_all
    (h : (s.sequencing.getTopic msg.topic).all (fun topic => topic.owner = msg.fromAddress) = true) :
    SpelledAsOwner sdk s msg := by
  intro topic htopic _
  rw [htopic] at h
  exact of_decide_eq_true h

theorem responses_do_not_depend_on_spelling_reference :
    (postAll Reference.app Reference.state [referencePost 0, referencePost 1]).1 =
      (postAll Reference.app Reference.state [upperPost 0, upperPost 1]).1 ∧
    (postAll Reference.app Reference.state [upperPost 0, upperPost 1]).1.map Option.isSome = [true, true] := by
  refine ⟨(responses_do_not_depend_on_spelling lowersAccounts_reference
    (.cons (respelled_upperPost 0) (.cons (respelled_upperPost 1) .nil)) ?_ ?_).1, by decide +kernel⟩
  · exact ⟨spelledAsOwner_of_all (by decide +kernel), spelledAsOwner_of_all (by decide +kernel), trivial⟩
  · exact ⟨spelledAsOwner_of_all (by decide +kernel), spelledAsOwner_of_all (by decide +kernel), trivial⟩

/-- The owner's second post is rejected if it is written in upper case. -/
theorem owner_rejected_in_upper_case :
    List.Forall₂ (Respelled Reference.sdk) [referencePost 0, referencePost 1] [referencePost 0, upperPost 1] ∧
    (postAll Reference.app Reference.state [referencePost 0, referencePost 1]).1.map Option.isSome = [true, true] ∧
    (postAll Reference.app Reference.state [referencePost 0, upperPost 1]).1.map Option.isSome = [true, false] :=
  ⟨.cons ⟨SameAccount.refl _ _, rfl, rfl, rfl⟩ (.cons (respelled_upperPost 1) .nil), by decide +kernel,
    by decide +kernel⟩

end FuelSequencer.Sequencing
