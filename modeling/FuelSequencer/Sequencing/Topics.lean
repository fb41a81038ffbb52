import FuelSequencer.Sequencing.Keeper
import FuelSequencer.App.Reference
import FuelSequencer.Exec.Runs

/-! # The history of a topic

Over any sequence of posts the accepted ones on a topic carry the orders from zero on and
come from one sender, and the stored topic is the last of them. A post on one topic
leaves every other topic alone.
-/
namespace FuelSequencer.Sequencing
open Go Wire Exec Lib Wiring Bridge

variable {W : Type} {app : App W} {s t u : State W} {msg : MsgPostBlob}

/-- A post and whether its writes were kept. -/
structure Post where
  msg : MsgPostBlob
  accepted : Bool

/-- One post. The rest of the state may have changed since the last one. The writes of a
post that fails, or whose transaction fails for another reason, are rolled back. -/
inductive PostStep (app : App W) : State W → Post → State W → Prop where
  | accepted {s s' t : State W} {msg : MsgPostBlob} {r : MsgPostBlobResponse}
      (same : s'.sequencing.topics = s.sequencing.topics) (h : (postBlob app msg).run s' = .ok r t) :
      PostStep app s ⟨msg, true⟩ t
  | rolledBack {s s' : State W} (msg : MsgPostBlob) (same : s'.sequencing.topics = s.sequencing.topics) :
      PostStep app s ⟨msg, false⟩ s'

/-! ## One post -/

/-- The topic that an accepted post stores. -/
theorem topicAfterPost_eq_ok {sdk : Sdk} {store : Sequencing.Store} {topic : Topic} :
    topicAfterPost sdk store msg = .ok topic ↔
      (store.getTopic msg.topic = none ∧ newTopic sdk msg = .ok topic) ∨
      ∃ last, store.getTopic msg.topic = some last ∧ nextTopic last msg = .ok topic := by
  unfold topicAfterPost
  cases store.getTopic msg.topic with
  | none => simp
  | some last => simp

/-- A post that returns an error has written nothing. Only a panic over the nonce comes after
the topic was written. -/
theorem final_postBlob_of_error {e : Fault GoString} (h : (postBlob app msg).run s = .error e u) :
    u = s ∨ (∃ text, e = .panic text) ∧
      ∀ nonce, s.bridge.lastEthereumNonce = some nonce → ¬(nonce + 1).natAbs < 2 ^ maxBitLen := by
  unfold postBlob at h
  rw [run_bind_of_ok (run_getSequencing_eq_ok.mpr ⟨rfl, rfl⟩)] at h
  rcases run_bind_eq_error.mp h with hsize | ⟨_, s₁, hsize, hrest⟩
  · exact Or.inl ((keeps_failIf id _ _).of_error hsize)
  obtain rfl : s₁ = s := (keeps_failIf id _ _).of_ok hsize
  rcases run_bind_eq_error.mp hrest with htopic | ⟨topic, s₂, htopic, hlast⟩
  · exact Or.inl ((keeps_ofOutcome id _).of_error htopic)
  obtain rfl : s₂ = s₁ := (keeps_ofOutcome id _).of_ok htopic
  rw [run_bind_of_ok (run_onSequencing_eq_ok (u := ()) |>.mpr rfl)] at hlast
  -- what is left is the nonce
  rcases run_bind_eq_error.mp hlast with hnonce | ⟨nonce, s₃, -, hend⟩
  · have hfault := run_mustGetNextEthereumNonce_eq_error hnonce
    exact Or.inr hfault
  · cases hend

/-! ## The posts on a topic -/

/-- The accepted posts on a topic. -/
def postsOn (id : Bytes) (log : List Post) : List MsgPostBlob :=
  (log.filter fun p => p.accepted && decide (p.msg.topic = id)).map Post.msg

/-- The topic with the first sender as its owner and the last order. -/
def topicOf (id : Bytes) : List MsgPostBlob → Option Topic
  | [] => none
  | first :: later => some ⟨id, first.fromAddress, later.length⟩

structure TopicHistory (id : Bytes) (posts : List MsgPostBlob) (store : Sequencing.Store) : Prop where
  orders : posts.map MsgPostBlob.order = (List.range posts.length).map fun i : ℕ => some (i : ℤ)
  owner : ∀ m ∈ posts, posts.head?.map MsgPostBlob.fromAddress = some m.fromAddress
  stored : store.getTopic id = topicOf id posts

/-- An accepted post continues the history of its topic. -/
theorem TopicHistory.post {sdk : Sdk} {store : Sequencing.Store} {posts : List MsgPostBlob} {topic : Topic}
    (h : TopicHistory msg.topic posts store) (hpost : topicAfterPost sdk store msg = .ok topic) :
    topic.id = msg.topic ∧ TopicHistory msg.topic (posts ++ [msg]) (store.setTopic topic) := by
  have hcases := topicAfterPost_eq_ok.mp hpost
  rw [h.stored] at hcases
  cases posts with
  | nil =>
    rcases hcases with ⟨-, hnew⟩ | ⟨last, hlast, -⟩
    · obtain ⟨horder, rfl, -⟩ := newTopic_eq_ok.mp hnew
      refine ⟨rfl, by simp [horder], by simp, ?_⟩
      rw [Store.getTopic_setTopic, if_pos rfl]
      rfl
    · cases hlast
  | cons first later =>
    rcases hcases with ⟨hnone, -⟩ | ⟨last, hlast, hnext⟩
    · cases hnone
    · obtain rfl := Option.some.inj hlast
      obtain ⟨howner, horder, -, rfl⟩ := nextTopic_eq_ok.mp hnext
      refine ⟨rfl, ?_, ?_, ?_⟩
      · have horders := h.orders
        rw [List.map_append, horders, List.length_append, List.length_singleton, List.range_succ,
          List.map_append, List.map_singleton, List.map_singleton, horder]
        simp
      · intro m hm
        rcases List.mem_append.mp hm with hm | hm
        · exact h.owner m hm
        · cases List.mem_singleton.mp hm
          exact congrArg some howner
      · rw [Store.getTopic_setTopic, if_pos rfl]
        simp [topicOf]

/-- The history of another topic is untouched. -/
theorem TopicHistory.other {store store' : Sequencing.Store} {id : Bytes} {posts : List MsgPostBlob}
    (h : TopicHistory id posts store) (hsame : store'.getTopic id = store.getTopic id) :
    TopicHistory id posts store' := ⟨h.orders, h.owner, hsame.trans h.stored⟩

/-! ## Runs -/

/-- Every topic has the history of the posts so far. -/
def Histories (log : List Post) (t : State W) : Prop := ∀ id, TopicHistory id (postsOn id log) t.sequencing

theorem postsOn_append_of_accepted (log : List Post) (msg : MsgPostBlob) (id : Bytes) :
    postsOn id (log ++ [⟨msg, true⟩]) = if id = msg.topic then postsOn id log ++ [msg] else postsOn id log := by
  by_cases hid : id = msg.topic
  · simp [postsOn, List.filter_append, hid]
  · have hne : ¬msg.topic = id := fun h => hid h.symm
    simp [postsOn, List.filter_append, hid, hne]

theorem postsOn_append_of_rejected (log : List Post) (msg : MsgPostBlob) (id : Bytes) :
    postsOn id (log ++ [⟨msg, false⟩]) = postsOn id log := by
  simp [postsOn, List.filter_append]

/-- A post stores its topic and leaves the others alone. -/
theorem Histories.post {log : List Post} {r : MsgPostBlobResponse} (h : Histories log s)
    (hpost : (postBlob app msg).run s = .ok r t) :
    (∀ id, id ≠ msg.topic → t.sequencing.getTopic id = s.sequencing.getTopic id) ∧
      Histories (log ++ [⟨msg, true⟩]) t := by
  obtain ⟨topic, nonce, hposted, -, rfl⟩ := run_postBlob_eq_ok.mp hpost
  obtain ⟨hid, hnext⟩ := (h msg.topic).post hposted.stores
  have hothers : ∀ id, id ≠ msg.topic →
      (s.sequencing.setTopic topic).getTopic id = s.sequencing.getTopic id := by
    intro id hne
    rw [Store.getTopic_setTopic, hid, if_neg hne]
  refine ⟨hothers, fun id => ?_⟩
  rw [postsOn_append_of_accepted]
  by_cases heq : id = msg.topic
  · subst heq
    rw [if_pos rfl]
    exact hnext
  · rw [if_neg heq]
    exact (h id).other (hothers id heq)

theorem Histories.same {log : List Post} (h : Histories log s) (hsame : t.sequencing.topics = s.sequencing.topics) :
    Histories log t := by
  intro id
  refine (h id).other ?_
  rw [Store.getTopic, hsame]
  rfl

theorem Histories.step {log : List Post} {p : Post} (h : Histories log s) (hstep : PostStep app s p t) :
    Histories (log ++ [p]) t := by
  cases hstep with
  | accepted same hpost => exact ((h.same same).post hpost).2
  | rolledBack msg same =>
    intro id
    rw [postsOn_append_of_rejected]
    exact h.same same id

/-- From a store without topics, after any posts by any senders: on every topic the accepted
posts carry the orders from zero on and come from the first sender, and the stored topic has
that owner and the last order. The next post, if it is accepted, changes no other topic, and
if it fails it has written nothing, except where it panics over the nonce and is unwound. -/
theorem topics_follow_their_posts {log : List Post} (hempty : s.sequencing.topics = Table.empty)
    (hrun : Runs (PostStep app) s log t) :
    (∀ id, TopicHistory id (postsOn id log) t.sequencing) ∧
    (∀ msg r u, (postBlob app msg).run t = .ok r u →
      ∀ id, id ≠ msg.topic → u.sequencing.getTopic id = t.sequencing.getTopic id) ∧
    (∀ msg e u, (postBlob app msg).run t = .error e u → u = t ∨ (∃ text, e = .panic text) ∧
      ∀ nonce, t.bridge.lastEthereumNonce = some nonce → ¬(nonce + 1).natAbs < 2 ^ maxBitLen) := by
  have hstart : Histories [] s := by
    intro id
    refine ⟨rfl, by simp [postsOn], ?_⟩
    rw [Store.getTopic, hempty]
    rfl
  have hall : Histories log t := hrun.invariant (I := Histories) hstart fun h hstep => h.step hstep
  exact ⟨hall, fun msg r u hpost => (hall.post hpost).1, fun msg e u herror => final_postBlob_of_error herror⟩

/-- A post on one topic with the given order. -/
def referencePost (order : ℤ) : MsgPostBlob :=
  ⟨Reference.bech32String Reference.depositor, List.replicate 32 1, some order, str "blob"⟩

theorem topics_follow_their_posts_reference : ∃ t,
    Runs (PostStep Reference.app) Reference.state
      [⟨referencePost 0, true⟩, ⟨referencePost 1, true⟩, ⟨referencePost 1, false⟩] t ∧
    TopicHistory (List.replicate 32 1) [referencePost 0, referencePost 1] t.sequencing := by
  obtain ⟨r₀, h₀⟩ := exists_ok_of_isSome (by decide +kernel : (value
    ((postBlob Reference.app (referencePost 0)).run Reference.state)).isSome)
  obtain ⟨r₁, h₁⟩ := exists_ok_of_isSome (by decide +kernel : (value
    ((postBlob Reference.app (referencePost 1)).run
      (final ((postBlob Reference.app (referencePost 0)).run Reference.state)))).isSome)
  have hrun := Runs.cons (PostStep.accepted rfl h₀) (Runs.cons (PostStep.accepted rfl h₁)
    (Runs.single (PostStep.rolledBack (referencePost 1) rfl)))
  exact ⟨_, hrun, (topics_follow_their_posts rfl hrun).1 (List.replicate 32 1)⟩

end FuelSequencer.Sequencing
