import FuelSequencer.Lib.Address
import FuelSequencer.Sequencing.Keeper

/-! # The genesis of the sequencing module

The export lists the topics in the order of their keys, and the import stores them one
after the other.
-/
namespace FuelSequencer.Sequencing
open Go Wire Exec Lib Wiring Bridge

variable {W : Type}

structure GenesisState where
  params : Sequencing.Params
  topicList : List Topic
deriving DecidableEq

/-- No two topics have one id. -/
def checkUniqueTopics (uniqueTopics : List GoString) : List Topic → Except GoString Unit
  | [] => .ok ()
  | t :: topics => do
    let topicIdHex := hexLower t.id
    failIf (topicIdHex ∈ uniqueTopics)
      (str "topic not unique at id " ++ topicIdHex ++ str ": duplicate topic found")
    checkUniqueTopics (topicIdHex :: uniqueTopics) topics

def GenesisState.validate (gs : Sequencing.GenesisState) : Except GoString Unit := do
  checkUniqueTopics [] gs.topicList
  gs.params.validate

def initTopics (app : App W) : List Topic → Run W Unit
  | [] => pure ()
  | topic :: topics => do
    ofOutcome (panicking (topic.validateBasic app.sdk))
    onSequencing (·.setTopic topic)
    initTopics app topics

def initGenesis (app : App W) (gs : Sequencing.GenesisState) : Run W Unit := do
  initTopics app gs.topicList
  onSequencing fun b => { b with params := gs.params }

def exportGenesis (b : Sequencing.Store) : Sequencing.GenesisState := ⟨b.params, b.getAllTopic⟩

/-- The store before the genesis. -/
def Store.unset : Sequencing.Store := ⟨⟨0, 0⟩, Table.empty⟩

/-! ## What the checks and the import do -/

theorem checkUniqueTopics_of_nodup {topics : List Topic} {uniqueTopics : List GoString}
    (hnew : ∀ t ∈ topics, hexLower t.id ∉ uniqueTopics) (hnodup : (topics.map Topic.id).Nodup) :
    checkUniqueTopics uniqueTopics topics = .ok () := by
  induction topics generalizing uniqueTopics with
  | nil => rfl
  | cons t topics ih =>
    obtain ⟨hfirst, hrest⟩ := List.nodup_cons.mp hnodup
    rw [checkUniqueTopics, failIf_of_not (hnew t List.mem_cons_self), ok_bind]
    refine ih ?_ hrest
    intro t' ht'
    rw [List.mem_cons, not_or]
    refine ⟨fun heq => hfirst ?_, hnew t' (List.mem_cons_of_mem _ ht')⟩
    rw [← hexLower_injective heq]
    exact List.mem_map_of_mem ht'

theorem run_initTopics {app : App W} {topics : List Topic} {s t : State W} {u : Unit} :
    (initTopics app topics).run s = .ok u t ↔ (∀ topic ∈ topics, topic.validateBasic app.sdk = .ok ()) ∧
      t = { s with sequencing := topics.foldl Store.setTopic s.sequencing } := by
  induction topics generalizing s with
  | nil => simpa [initTopics] using eq_comm
  | cons topic topics ih =>
    simp only [initTopics, run_bind_eq_ok, run_ofOutcome_eq_ok, panicking_eq_ok, run_onSequencing_eq_ok, ih,
      List.forall_mem_cons, List.foldl_cons]
    constructor
    · rintro ⟨_, _, ⟨hvalid, rfl⟩, _, _, rfl, hrest, rfl⟩
      exact ⟨⟨hvalid, hrest⟩, rfl⟩
    · rintro ⟨⟨hvalid, hrest⟩, rfl⟩
      exact ⟨(), s, ⟨hvalid, rfl⟩, (), _, rfl, hrest, rfl⟩

theorem run_initGenesis_eq_ok {app : App W} {gs : Sequencing.GenesisState} {s t : State W} {u : Unit} :
    (initGenesis app gs).run s = .ok u t ↔
      (∀ topic ∈ gs.topicList, topic.validateBasic app.sdk = .ok ()) ∧
      t = { s with sequencing := ⟨gs.params, (gs.topicList.foldl Store.setTopic s.sequencing).topics⟩ } := by
  simp only [initGenesis, run_bind_eq_ok, run_initTopics, run_onSequencing_eq_ok]
  constructor
  · rintro ⟨_, _, ⟨hvalid, rfl⟩, rfl⟩
    exact ⟨hvalid, rfl⟩
  · rintro ⟨hvalid, rfl⟩
    exact ⟨(), _, ⟨hvalid, rfl⟩, rfl⟩

/-! ## Stores that can be exported -/

/-- Each topic is valid and lies under its own key. -/
structure Store.TopicsValid (sdk : Sdk) (b : Sequencing.Store) : Prop where
  keys : ∀ e ∈ b.topics.entries, e.1 = topicKeyPrefix e.2.id
  valid : ∀ e ∈ b.topics.entries, e.2.validateBasic sdk = .ok ()

namespace Store.TopicsValid

variable {sdk : Sdk} {b : Sequencing.Store}

/-- A valid topic can be stored. -/
theorem setTopic (h : b.TopicsValid sdk) {topic : Topic} (hvalid : topic.validateBasic sdk = .ok ()) :
    (b.setTopic topic).TopicsValid sdk := by
  have hmem : ∀ e ∈ (b.setTopic topic).topics.entries,
      e = (topicKeyPrefix topic.id, topic) ∨ e ∈ b.topics.entries :=
    fun e he => Table.mem_insertEntry he
  refine ⟨fun e he => ?_, fun e he => ?_⟩
  · rcases hmem e he with rfl | he
    · rfl
    · exact h.keys e he
  · rcases hmem e he with rfl | he
    · exact hvalid
    · exact h.valid e he

theorem foldl_setTopic (h : b.TopicsValid sdk) {topics : List Topic}
    (hvalid : ∀ topic ∈ topics, topic.validateBasic sdk = .ok ()) :
    (topics.foldl Store.setTopic b).TopicsValid sdk := by
  induction topics generalizing b with
  | nil => exact h
  | cons topic topics ih =>
    exact ih (h.setTopic (hvalid topic List.mem_cons_self)) fun t ht => hvalid t (List.mem_cons_of_mem _ ht)

theorem nodup_ids (h : b.TopicsValid sdk) : (b.getAllTopic.map Topic.id).Nodup := by
  rw [Store.getAllTopic, List.map_map, List.nodup_iff_pairwise_ne, List.pairwise_map]
  refine b.topics.sorted.imp_of_mem ?_
  intro e e' he he' hlt heq
  rw [h.keys e he, h.keys e' he', show e.2.id = e'.2.id from heq] at hlt
  exact lt_irrefl _ hlt

theorem validate_topics (h : b.TopicsValid sdk) :
    ∀ topic ∈ b.getAllTopic, topic.validateBasic sdk = .ok () := by
  intro topic hmem
  obtain ⟨e, he, rfl⟩ := List.mem_map.mp hmem
  exact h.valid e he

/-- Storing the exported topics one after the other gives the topics again. -/
theorem foldl_getAllTopic (h : b.TopicsValid sdk) :
    (b.getAllTopic.foldl Store.setTopic Store.unset).topics = b.topics := by
  have hfold : ∀ (es : List (Bytes × Topic)) (u : Sequencing.Store), (∀ e ∈ es, e.1 = topicKeyPrefix e.2.id) →
      ((es.map Prod.snd).foldl Store.setTopic u).topics = es.foldl (fun v e => v.set e.1 e.2) u.topics := by
    intro es
    induction es with
    | nil => exact fun _ _ => rfl
    | cons e es ih =>
      intro u hkeys
      rw [List.map_cons, List.foldl_cons, List.foldl_cons, hkeys e List.mem_cons_self]
      exact ih (u.setTopic e.2) fun e' he' => hkeys e' (List.mem_cons_of_mem _ he')
  exact (hfold b.topics.entries Store.unset h.keys).trans b.topics.foldl_set_entries

end Store.TopicsValid

/-- The params and the topics are valid. -/
structure Store.Exportable (sdk : Sdk) (b : Sequencing.Store) : Prop where
  params : b.params.validate = .ok ()
  topics : b.TopicsValid sdk

theorem Store.Exportable.validate_exportGenesis {sdk : Sdk} {b : Sequencing.Store} (h : b.Exportable sdk) :
    (exportGenesis b).validate = .ok () := by
  rw [GenesisState.validate]
  change (checkUniqueTopics [] b.getAllTopic >>= fun _ => b.params.validate) = _
  rw [checkUniqueTopics_of_nodup (by simp) h.topics.nodup_ids, ok_bind]
  exact h.params

/-- The import of a valid genesis leaves a store that can be exported. -/
theorem exportable_of_initGenesis {app : App W} {gs : Sequencing.GenesisState} {s t : State W} {u : Unit}
    (hvalid : gs.validate = .ok ()) (hempty : s.sequencing = Store.unset)
    (h : (initGenesis app gs).run s = .ok u t) : t.sequencing.Exportable app.sdk := by
  obtain ⟨htopics, rfl⟩ := run_initGenesis_eq_ok.mp h
  obtain ⟨_, -, hparams⟩ := except_bind_eq_ok.mp hvalid
  have hunset : Store.unset.TopicsValid app.sdk := ⟨by simp [Store.unset, Table.empty], by simp [Store.unset, Table.empty]⟩
  have hall := hunset.foldl_setTopic htopics
  rw [← hempty] at hall
  exact ⟨hparams, hall.keys, hall.valid⟩

/-- Importing the export into an empty store gives the store again. -/
theorem run_initGenesis_exportGenesis {app : App W} {b : Sequencing.Store} (h : b.Exportable app.sdk) {s : State W}
    (hempty : s.sequencing = Store.unset) :
    (initGenesis app (exportGenesis b)).run s = .ok () { s with sequencing := b } := by
  refine run_initGenesis_eq_ok.mpr ⟨h.topics.validate_topics, ?_⟩
  rw [hempty]
  change _ = { s with sequencing := Store.mk b.params (b.getAllTopic.foldl Store.setTopic Store.unset).topics }
  rw [h.topics.foldl_getAllTopic]

end FuelSequencer.Sequencing
