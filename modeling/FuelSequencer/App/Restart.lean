import FuelSequencer.App.Invariant
import FuelSequencer.App.Journal
import FuelSequencer.App.Reference
import FuelSequencer.Bridge.Genesis
import FuelSequencer.Sequencing.Genesis

/-! # Restarting the chain from its export

A chain that began with a valid genesis keeps both stores exportable: every key is set,
the params and the topics pass their checks, and the index is gone between blocks. So
its export passes the checks, and importing it gives the same stores again.
-/
namespace FuelSequencer.Wiring
open Go Wire Exec Lib Bridge

variable {W : Type} {app : App W} {ctx : Ctx} {s t : State W} {b b' : Store}

/-! ## The bridge store -/

theorem exportable_withInfo (h : b.Exportable app.sdk) {info : SupplyDeltaInfo} (hsupply : 0 ≤ info.lastSupply) :
    Store.Exportable app.sdk { b with supplyDeltaInfo := some info } :=
  { h with info := ⟨info, rfl, hsupply⟩ }

theorem exportable_withOffset (h : b.Exportable app.sdk) {info : SupplyDeltaInfo}
    (hinfo : b.supplyDeltaInfo = some info) (offset : ℤ) : (b.withOffset info offset).Exportable app.sdk := by
  obtain ⟨info', hinfo', hsupply⟩ := h.info
  rw [hinfo] at hinfo'
  cases hinfo'
  exact exportable_withInfo h hsupply

theorem exportable_nextNonce (h : b.Exportable app.sdk) {nonce : ℤ} (hnonce : b.lastEthereumNonce = some nonce) :
    Store.Exportable app.sdk { b with lastEthereumNonce := some (nonce + 1) } := by
  obtain ⟨nonce', hnonce', hpos⟩ := h.nonce
  rw [hnonce] at hnonce'
  cases hnonce'
  exact { h with nonce := ⟨nonce + 1, rfl, by omega⟩ }

theorem exportable_indexedStore (h : b.Exportable app.sdk) (msg : MsgIndex) (offset sequence : UInt64) :
    (indexedStore ctx msg offset sequence b).Exportable app.sdk := by
  obtain ⟨last, hlast⟩ := h.last
  obtain ⟨from', hfrom⟩ := h.offset
  refine { h with last := ?_, offset := ?_, sequence := ⟨_, rfl⟩ }
  · rw [indexedStore]
    dsimp only
    split
    · exact ⟨_, rfl⟩
    · exact ⟨last, hlast⟩
  · rw [indexedStore]
    dsimp only
    split
    · exact ⟨_, rfl⟩
    · split
      · exact ⟨_, rfl⟩
      · exact ⟨from', hfrom⟩

/-- An entry keeps the store exportable, an update if its params are valid. -/
theorem exportable_of_effect {e : Entry} (h : b.Exportable app.sdk) (heffect : Effect ctx b e b')
    (hvalid : ∀ params, e = .updated params → params.validate app.sdk = .ok ()) : b'.Exportable app.sdk := by
  cases heffect with
  | indexed ready => exact exportable_indexedStore h _ _ _
  | reported ready =>
    obtain ⟨info, hinfo, hsupply⟩ := h.info
    rw [ready.hasInfo] at hinfo
    cases hinfo
    exact exportable_withInfo (exportable_nextNonce h ready.hasNonce) hsupply
  | deposited amount hinfo => exact exportable_withOffset h hinfo _
  | skipped => exact h
  | withdrawn amount hinfo hnonce =>
    exact exportable_nextNonce (exportable_withOffset h hinfo _) hnonce
  | updated params => exact { h with params := hvalid params rfl }
  | posted hnonce => exact exportable_nextNonce h hnonce
  | failed => exact { h with }
  | counted hindex hopen => exact { h with }

theorem exportable_of_follows {j : Journal} (h : b.Exportable app.sdk) (hfollows : Follows ctx b j b')
    (hvalid : ∀ params, Entry.updated params ∈ j → params.validate app.sdk = .ok ()) :
    b'.Exportable app.sdk := by
  induction hfollows with
  | nil => exact h
  | snoc _ hstep ih =>
    refine exportable_of_effect (ih fun params hmem => hvalid params ?_) hstep fun params he => hvalid params ?_
    · exact List.mem_append_left _ hmem
    · rw [he]
      exact List.mem_append_right _ List.mem_cons_self

theorem updated_mem_replyJournal {α : Type} {r : Reply α} {entry : α → Entry} {params : Params}
    (hentry : ∀ a, entry a ≠ .updated params) : Entry.updated params ∉ replyJournal r entry := by
  rw [replyJournal]
  cases r.ended with
  | ok a => simpa using (hentry a).symm
  | error e => simp

/-- Params enter the store behind their checks, on every route. -/
theorem validate_of_updated {m : Msg} {j : Journal} (hrun : (handleBridge app ctx m).run s = .ok j t)
    {params : Params} (hmem : Entry.updated params ∈ j) : params.validate app.sdk = .ok () := by
  obtain ⟨_, _, hcheck, h⟩ := run_bind_eq_ok.mp hrun
  obtain ⟨hbasic, rfl⟩ := run_ofOutcome_eq_ok.mp hcheck
  rw [wrapping_eq_ok] at hbasic
  cases m with
  | updateParams m =>
    obtain ⟨_, _, -, h⟩ := run_bind_eq_ok.mp h
    obtain ⟨rfl, rfl⟩ := run_pure_eq_ok.mp h
    obtain rfl : params = m.params := by simpa using hmem
    rw [Msg.validateBasic, MsgUpdateParams.validateBasic] at hbasic
    split at hbasic
    · cases hbasic
    · exact hbasic
  | supplyDelta m =>
    obtain ⟨r, _, -, h⟩ := run_bind_eq_ok.mp h
    obtain ⟨_, _, -, h⟩ := run_bind_eq_ok.mp h
    obtain ⟨rfl, rfl⟩ := run_pure_eq_ok.mp h
    exact absurd hmem (updated_mem_replyJournal (by simp))
  | withdrawToEthereum m =>
    obtain ⟨r, _, -, h⟩ := run_bind_eq_ok.mp h
    obtain ⟨rfl, rfl⟩ := run_pure_eq_ok.mp h
    simp at hmem
  | depositFromEthereum m =>
    obtain ⟨r, _, -, h⟩ := run_bind_eq_ok.mp h
    obtain ⟨rfl, rfl⟩ := run_pure_eq_ok.mp h
    exact absurd hmem (updated_mem_replyJournal (by simp))
  | index m =>
    obtain ⟨store, _, -, h⟩ := run_bind_eq_ok.mp h
    obtain ⟨r, _, -, h⟩ := run_bind_eq_ok.mp h
    obtain ⟨rfl, rfl⟩ := run_pure_eq_ok.mp h
    exact absurd hmem (updated_mem_replyJournal (by simp))
  | skippedEventTx m =>
    obtain ⟨r, _, -, h⟩ := run_bind_eq_ok.mp h
    obtain ⟨rfl, rfl⟩ := run_pure_eq_ok.mp h
    exact absurd hmem (updated_mem_replyJournal (by simp))
  | postBlob m =>
    obtain ⟨r, _, -, h⟩ := run_bind_eq_ok.mp h
    obtain ⟨rfl, rfl⟩ := run_pure_eq_ok.mp h
    simp at hmem
  | updateSequencingParams m =>
    obtain ⟨r, _, -, h⟩ := run_bind_eq_ok.mp h
    obtain ⟨rfl, rfl⟩ := run_pure_eq_ok.mp h
    simp at hmem
  | other a => cases h

theorem exportable_of_handleBridge (hlaw : app.sdk.Lawful) {m : Msg} {j : Journal}
    (h : (handleBridge app ctx m).run s = .ok j t) (hs : s.bridge.Exportable app.sdk) :
    t.bridge.Exportable app.sdk :=
  exportable_of_follows hs (handleBridge_journaled hlaw m h).1 fun _ hmem => validate_of_updated h hmem

/-! ## The sequencing store -/

/-- A post stores a valid topic. -/
theorem validateBasic_topicAfterPost {store : Sequencing.Store} {msg : Sequencing.MsgPostBlob}
    {topic : Sequencing.Topic} (hvalid : store.TopicsValid app.sdk)
    (h : Sequencing.topicAfterPost app.sdk store msg = .ok topic) : topic.validateBasic app.sdk = .ok () := by
  rw [Sequencing.topicAfterPost] at h
  cases hget : store.getTopic msg.topic with
  | none =>
    rw [hget] at h
    exact (Sequencing.newTopic_eq_ok.mp h).2.2
  | some last =>
    rw [hget] at h
    obtain ⟨-, -, -, rfl⟩ := Sequencing.nextTopic_eq_ok.mp h
    have hlast := hvalid.valid _ (Table.get_eq_some.mp hget)
    obtain ⟨howner, hid, horder⟩ := Sequencing.Topic.validateBasic_eq_ok.mp hlast
    exact Sequencing.Topic.validateBasic_eq_ok.mpr ⟨howner, hid, by dsimp only at horder ⊢; omega⟩

theorem sequencing_exportable_of_handleBridge {m : Msg} {j : Journal}
    (hrun : (handleBridge app ctx m).run s = .ok j t) (hs : s.sequencing.Exportable app.sdk) :
    t.sequencing.Exportable app.sdk := by
  obtain ⟨_, s', hcheck, h⟩ := run_bind_eq_ok.mp hrun
  obtain ⟨hbasic, rfl⟩ := run_ofOutcome_eq_ok.mp hcheck
  rw [wrapping_eq_ok] at hbasic
  -- a message that keeps the sequencing store
  have hkeep : ∀ {x : Run W Journal}, x.run s' = .ok j t → Keeps State.sequencing x →
      t.sequencing.Exportable app.sdk := fun hx hkeeps => by rwa [hkeeps.of_ok hx]
  cases m with
  | updateParams m =>
    exact hkeep h (((keeps_failIf _ _ _).bind fun _ => keeps_onStore _).bind fun _ => keeps_pure _ _)
  | supplyDelta m =>
    exact hkeep h ((keeps_special (keeps_supplyDelta _)).bind fun _ => (keeps_failIf _ _ _).bind fun _ =>
      keeps_pure _ _)
  | withdrawToEthereum m =>
    exact hkeep h ((keeps_handleWithdrawToEthereum _).bind fun _ => keeps_pure _ _)
  | depositFromEthereum m =>
    exact hkeep h ((keeps_special (keeps_depositFromEthereum _)).bind fun _ => keeps_pure _ _)
  | index m =>
    exact hkeep h ((keeps_getStore _).bind fun _ => (keeps_special (keeps_index _ _)).bind fun _ =>
      keeps_pure _ _)
  | skippedEventTx m =>
    exact hkeep h ((keeps_special (keeps_emit _ _)).bind fun _ => keeps_pure _ _)
  | postBlob m =>
    obtain ⟨r, _, hr, h⟩ := run_bind_eq_ok.mp h
    obtain ⟨rfl, rfl⟩ := run_pure_eq_ok.mp h
    obtain ⟨topic, nonce, hposted, rfl, rfl⟩ := Sequencing.run_postBlob_eq_ok.mp hr
    exact ⟨hs.params, hs.topics.setTopic (validateBasic_topicAfterPost hs.topics hposted.stores)⟩
  | updateSequencingParams m =>
    simp only [run_bind_eq_ok, Sequencing.handleUpdateSequencingParams, run_failIf_eq_ok,
      Sequencing.run_onSequencing_eq_ok, run_pure_eq_ok] at h
    obtain ⟨_, _, ⟨_, _, ⟨-, rfl⟩, rfl⟩, rfl, rfl⟩ := h
    obtain ⟨_, -, hparams⟩ := except_bind_eq_ok.mp hbasic
    exact ⟨hparams, hs.topics.keys, hs.topics.valid⟩
  | other a => cases h

/-! ## Blocks -/

structure State.Exportable (app : App W) (s : State W) : Prop where
  bridge : s.bridge.Exportable app.sdk
  sequencing : s.sequencing.Exportable app.sdk

theorem blockInvariant_exportable (hlaw : app.sdk.Lawful) : BlockInvariant app (State.Exportable app) where
  world _ _ h := ⟨h.bridge, h.sequencing⟩
  index _ _ h := ⟨{ h.bridge with }, h.sequencing⟩
  message _ _ _ _ _ hrun h :=
    ⟨exportable_of_handleBridge hlaw hrun h.bridge, sequencing_exportable_of_handleBridge hrun h.sequencing⟩

/-- A block that was committed, at whose beginning the bank's supply of the bridged denom
was not negative. -/
structure Committed (app : App W) (s : State W) (block : Ctx × List Bytes) (t : State W) : Prop where
  ends : ∃ r, (finalizeBlock app block.1 block.2).run s = .ok r t
  supply : ∀ w, (app.modules.beginBlockBefore block.1).run s.world = .ok () w →
    0 ≤ app.modules.getSupply w s.bridge.params.bridgeDenom

theorem exportable_begun (h : b.Exportable app.sdk) {supply : ℤ} (hsupply : 0 ≤ supply) (delta : Bool) :
    (b.begun delta supply).Exportable app.sdk := by
  obtain ⟨info, hinfo, hlast⟩ := h.info
  rw [Store.begun, hinfo, Option.map_some]
  refine exportable_withInfo h ?_
  cases delta with
  | true => exact hsupply
  | false => exact hlast

/-- Exportable and between blocks. -/
structure AtBoundary (app : App W) (s : State W) : Prop where
  exportable : State.Exportable app s
  noIndex : s.bridge.index = none

theorem AtBoundary.step (hlaw : app.sdk.Lawful) (h : AtBoundary app s) {block : Ctx × List Bytes}
    (hblock : Committed app s block t) : AtBoundary app t := by
  obtain ⟨r, hrun⟩ := hblock.ends
  refine ⟨(blockInvariant_exportable hlaw).finalizeBlock ?_ hrun, ?_⟩
  · intro s₁ hopen
    obtain ⟨delta, w, -, hw, -, hbegun⟩ := openBlock_supply hopen
    refine ⟨?_, ?_⟩
    · rw [hbegun]
      exact exportable_begun h.exportable.bridge (hblock.supply w hw) delta
    · have hkeep : Keeps State.sequencing (openBlock app block.1) := by
        refine (keeps_inWorld outsideWorld_sequencing _).bind fun _ => (keeps_get _).bind fun _ => ?_
        refine (keeps_ofOutcome _ _).bind fun _ => Keeps.onlyIf ((keeps_mustGet _ _ _).bind fun _ => ?_)
        exact (keeps_ofOutcome _ _).bind fun _ => (keeps_ofOutcome _ _).bind fun _ => keeps_onStore _
      rw [hkeep.of_ok hopen]
      exact h.exportable.sequencing
  · obtain ⟨_, _, _, _, -, -, -, -, -, -, hbridge⟩ := finalizeBlock_follows hlaw hrun
    rw [hbridge]

/-! ## The genesis of the chain -/

/-- The two modules are the last to import their part. -/
structure ChainGenesis where
  bridge : Bridge.GenesisState
  sequencing : Sequencing.GenesisState
deriving DecidableEq

def ChainGenesis.validate (sdk : Sdk) (gs : ChainGenesis) : Outcome GoString Unit := do
  gs.bridge.validate sdk
  wrapping id gs.sequencing.validate

def initChain (app : App W) (gs : ChainGenesis) : Run W Unit := do
  Bridge.initGenesis app gs.bridge
  Sequencing.initGenesis app gs.sequencing

def exportChain (s : State W) : ChainGenesis := ⟨Bridge.exportGenesis s.bridge, Sequencing.exportGenesis s.sequencing⟩

/-- Empty stores next to what the other modules have imported. -/
def emptyState (w : W) : State W := ⟨Store.unset, Sequencing.Store.unset, w⟩

theorem exportable_store {gs : Bridge.GenesisState} (h : gs.validate app.sdk = .ok ()) (b : Store) :
    (gs.store b).Exportable app.sdk := by
  obtain ⟨⟨info, hinfo, hsupply⟩, hnonce, hparams⟩ := GenesisState.validate_eq_ok.mp h
  refine ⟨hparams, ⟨info, ?_, hsupply⟩, ⟨_, rfl, hnonce⟩, ⟨_, rfl⟩, ⟨_, rfl⟩, ⟨_, rfl⟩⟩
  rw [GenesisState.store, hinfo, Option.getD_some]

theorem atBoundary_initChain {gs : ChainGenesis} {w : W} (hvalid : gs.validate app.sdk = .ok ())
    (hinit : (initChain app gs).run (emptyState w) = .ok () s) : AtBoundary app s := by
  obtain ⟨_, hbridge, hsequencing⟩ := except_bind_eq_ok.mp hvalid
  rw [wrapping_eq_ok] at hsequencing
  obtain ⟨_, s₁, hs₁, hs⟩ := run_bind_eq_ok.mp hinit
  obtain ⟨acc, w₁, -, rfl⟩ := run_initGenesis_eq_ok.mp hs₁
  have htopics := Sequencing.exportable_of_initGenesis hsequencing rfl hs
  obtain ⟨-, rfl⟩ := Sequencing.run_initGenesis_eq_ok.mp hs
  exact ⟨⟨exportable_store hbridge _, htopics⟩, rfl⟩

theorem AtBoundary.validate_exportChain (h : AtBoundary app s) : (exportChain s).validate app.sdk = .ok () := by
  rw [ChainGenesis.validate]
  change ((Bridge.exportGenesis s.bridge).validate app.sdk >>= fun _ =>
    wrapping id (Sequencing.exportGenesis s.sequencing).validate) = _
  rw [h.exportable.bridge.validate_exportGenesis, ok_bind, h.exportable.sequencing.validate_exportGenesis]
  rfl

/-- The import of the export, where the module account of the bridge is found. -/
theorem AtBoundary.run_initChain_exportChain (h : AtBoundary app s) {w w' : W} {acc : BaseAccount}
    (hacc : (app.modules.getModuleAccount moduleName).run w = .ok (some acc) w') :
    (initChain app (exportChain s)).run (emptyState w) = .ok () { s with world := w' } := by
  refine run_bind_eq_ok.mpr ⟨(), _, run_initGenesis_eq_ok.mpr ⟨acc, w', hacc, rfl⟩, ?_⟩
  refine (Sequencing.run_initGenesis_exportGenesis h.exportable.sequencing rfl).trans ?_
  change EStateM.Result.ok () (State.mk ((Bridge.exportGenesis s.bridge).store Store.unset) _ _) = _
  rw [h.exportable.bridge.store_exportGenesis h.noIndex]

/-- From a valid genesis every committed block leaves stores whose export is valid and
whose import into empty stores gives them again, without an index. -/
theorem export_import_of_reachable (hlaw : app.sdk.Lawful) {gs : ChainGenesis} {w : W}
    {blocks : List (Ctx × List Bytes)} (hvalid : gs.validate app.sdk = .ok ())
    (hinit : (initChain app gs).run (emptyState w) = .ok () s) (hrun : Runs (Committed app) s blocks t) :
    (exportChain t).validate app.sdk = .ok () ∧ t.bridge.index = none ∧
      ∀ w₁ acc w₂, (app.modules.getModuleAccount moduleName).run w₁ = .ok (some acc) w₂ →
        (initChain app (exportChain t)).run (emptyState w₁) = .ok () { t with world := w₂ } := by
  have hboundary : AtBoundary app t :=
    hrun.invariant (I := fun _ s => AtBoundary app s) (atBoundary_initChain hvalid hinit)
      fun h hstep => h.step hlaw hstep
  exact ⟨hboundary.validate_exportChain, hboundary.noIndex, fun _ _ _ hacc =>
    hboundary.run_initChain_exportChain hacc⟩

/-- The defaults with the reference params and one topic on which five blobs were posted. -/
def startGenesis : ChainGenesis where
  bridge := { defaultGenesis with params := Reference.params }
  sequencing := ⟨⟨1048576, 1153434⟩, [⟨List.replicate 32 1, Reference.bech32String Reference.depositor, 4⟩]⟩

/-- A block that delivers the first event of an Ethereum block and leaves others. -/
def partialBlock : Ctx × List Bytes := (⟨1, 5⟩, [(Reference.indexMsg 1 false).rawTxBytes 1, Reference.depositTx 5 2])

def startState : State Reference.Ledger :=
  final ((initChain Reference.app startGenesis).run (emptyState Reference.ledger))

def partialState : State Reference.Ledger :=
  final ((finalizeBlock Reference.app partialBlock.1 partialBlock.2).run startState)

theorem export_import_of_reachable_reference :
    (initChain Reference.app startGenesis).run (emptyState Reference.ledger) = .ok () startState ∧
    Runs (Committed Reference.app) startState [partialBlock] partialState ∧
    partialState.bridge.ethereumEventIndexOffset = some 1 ∧
    ∃ w, (initChain Reference.app (exportChain partialState)).run (emptyState Reference.ledger) =
      .ok () { partialState with world := w } := by
  have hinit : (initChain Reference.app startGenesis).run (emptyState Reference.ledger) = .ok () startState :=
    eq_ok_of_value (by decide +kernel)
  obtain ⟨r, hblock⟩ := exists_ok_of_isSome (by decide +kernel : (value
    ((finalizeBlock Reference.app partialBlock.1 partialBlock.2).run startState)).isSome)
  have hrun : Runs (Committed Reference.app) startState [partialBlock] partialState := by
    refine Runs.single ⟨⟨r, hblock⟩, fun w hw => ?_⟩
    cases hw
    exact le_of_eq rfl
  obtain ⟨-, -, himport⟩ := export_import_of_reachable Reference.app_lawful.sdk
    (by decide +kernel : startGenesis.validate Reference.sdk = .ok ()) hinit hrun
  obtain ⟨acc, hacc⟩ : ∃ acc, (Reference.modules.getModuleAccount moduleName).run Reference.ledger =
      .ok (some acc) _ := ⟨_, eq_ok_of_value rfl⟩
  exact ⟨hinit, hrun, by decide +kernel, _, himport Reference.ledger acc _ hacc⟩

end FuelSequencer.Wiring
