import FuelSequencer.App.Block
import FuelSequencer.Bridge.Transfers
import FuelSequencer.Exec.Runs

/-! # The journal accounts for the store

Each entry of the journal is one transition of the bridge store, and the store
changes in no other way: running messages, transactions or a whole block takes the
store along the transitions of the journal it yields.
-/
namespace FuelSequencer.Wiring
open Go Wire Exec Lib Bridge

variable {W : Type}

/-- What an entry does to the store. -/
inductive Effect (ctx : Ctx) : Store → Entry → Store → Prop where
  | indexed {b : Store} {msg : MsgIndex} {last offset sequence : UInt64}
      (ready : IndexReady msg b last offset sequence) :
      Effect ctx b (.indexed msg (msg.numInjectedEventTxs + supplyDeltaCount b.params ctx.blockHeight))
        (indexedStore ctx msg offset sequence b)
  | reported {b : Store} {nonce : ℤ} {info : SupplyDeltaInfo} (ready : SupplyDeltaReady ctx b nonce info) :
      Effect ctx b (.reported info.toReport)
        { b with lastEthereumNonce := some (nonce + 1), supplyDeltaInfo := some { info with toReport := 0 } }
  | deposited {b : Store} {info : SupplyDeltaInfo} (amount : ℤ) (hinfo : b.supplyDeltaInfo = some info) :
      Effect ctx b (.deposited amount) (b.withOffset info (info.offset - amount))
  | skipped (b : Store) : Effect ctx b .skipped b
  | withdrawn {b : Store} {info : SupplyDeltaInfo} (amount : ℤ) {nonce : ℤ}
      (hinfo : b.supplyDeltaInfo = some info) (hnonce : b.lastEthereumNonce = some nonce) :
      Effect ctx b (.withdrawn amount)
        { b.withOffset info (info.offset + amount) with lastEthereumNonce := some (nonce + 1) }
  | updated (b : Store) (params : Params) : Effect ctx b (.updated params) { b with params := params }
  | posted {b : Store} {nonce : ℤ} (hnonce : b.lastEthereumNonce = some nonce) :
      Effect ctx b (.posted (nonce + 1)) { b with lastEthereumNonce := some (nonce + 1) }
  | failed (b : Store) : Effect ctx b .failed b.recordFailure
  | counted {b : Store} {i : Index} (hindex : b.index = some i)
      (hopen : i.numInjectedTxsAnte < i.numInjectedTxsTotal) :
      Effect ctx b .counted (b.counting i)

abbrev Follows (ctx : Ctx) : Store → Journal → Store → Prop := Runs (Effect ctx)

/-- A computation whose journal accounts for all it does to the store, without counting
a transaction. -/
def Journaled (ctx : Ctx) (x : Run W Journal) : Prop :=
  ∀ ⦃s t j⦄, x.run s = .ok j t → Follows ctx s.bridge j t.bridge ∧ Entry.counted ∉ j

variable {app : App W} {ctx : Ctx}

theorem journaled_pure : Journaled ctx (pure [] : Run W Journal) := by
  intro s t j h
  obtain ⟨rfl, rfl⟩ := run_pure_eq_ok.mp h
  exact ⟨Runs.nil _, by simp⟩

theorem journaled_throw (e : Fault GoString) : Journaled ctx (throw e : Run W Journal) := by
  intro s t j h
  cases h

/-- First a computation that leaves the store alone. -/
theorem Journaled.after {α : Type} {x : Run W α} {f : α → Run W Journal} (hx : Keeps State.bridge x)
    (hf : ∀ a, Journaled ctx (f a)) : Journaled ctx (x >>= f) := by
  intro s t j h
  obtain ⟨a, u, hu, h⟩ := run_bind_eq_ok.mp h
  rw [← hx.of_ok hu]
  exact hf a h

theorem follows_append {b b' b'' : Store} {j j' : Journal}
    (h : Follows ctx b j b' ∧ Entry.counted ∉ j) (h' : Follows ctx b' j' b'' ∧ Entry.counted ∉ j') :
    Follows ctx b (j ++ j') b'' ∧ Entry.counted ∉ j ++ j' := by
  refine ⟨h.1.append h'.1, ?_⟩
  rw [List.mem_append, not_or]
  exact ⟨h.2, h'.2⟩

/-- Two computations, one after the other. -/
theorem Journaled.append {x : Run W Journal} {f : Run W Journal} (hx : Journaled ctx x)
    (hf : Journaled ctx f) : Journaled ctx (do
      let journal ← x
      let rest ← f
      return journal ++ rest) := by
  intro s t j h
  obtain ⟨journal, u, hu, h⟩ := run_bind_eq_ok.mp h
  obtain ⟨rest, v, hv, h⟩ := run_bind_eq_ok.mp h
  obtain ⟨rfl, rfl⟩ := run_pure_eq_ok.mp h
  exact follows_append (hx hu) (hf hv)

theorem keeps_putWorld (w : W) : Keeps State.bridge (putWorld w) := fun _ => rfl

/-! ## Special messages -/

/-- A special message leaves the entry of its body's success or that of a failure. -/
theorem special_follows {α : Type} {authority : GoString} {body : Run W α} {normalised : α}
    {s t : State W} {r : Reply α} (entry : α → Entry)
    (h : (do
      let ended ← tryExecSpecialMessage app authority body
      return reply normalised ended : Run W (Reply α)).run s = .ok r t)
    (hentry : ∀ a, entry a ≠ .counted)
    (hbody : ∀ {a}, body.run s = .ok a t → Effect ctx s.bridge (entry a) t.bridge) :
    Follows ctx s.bridge (replyJournal r entry) t.bridge ∧ Entry.counted ∉ replyJournal r entry := by
  obtain ⟨ended, u, hu, h⟩ := run_bind_eq_ok.mp h
  obtain ⟨rfl, rfl⟩ := run_pure_eq_ok.mp h
  by_cases hs : app.keeper.authority = authority
  · cases hb : body.run s with
    | ok a v =>
      rw [run_tryExec_of_ok hs hb] at hu
      cases hu
      exact ⟨Runs.single (hbody hb), by simpa [replyJournal, reply] using (hentry a).symm⟩
    | error e v =>
      rw [run_tryExec_of_error hs hb] at hu
      cases hu
      exact ⟨Runs.single (Effect.failed _), by simp [replyJournal, reply]⟩
  · rw [run_tryExec_of_signer hs] at hu
    cases hu

theorem handleBridge_journaled (hlaw : app.sdk.Lawful) (m : Msg) :
    Journaled ctx (handleBridge app ctx m) := by
  refine Journaled.after (keeps_ofOutcome _ _) fun _ => ?_
  intro s t j h
  cases m with
  | updateParams m =>
    simp only [run_bind_eq_ok, handleUpdateParams, run_failIf_eq_ok, setParams, run_onStore_eq_ok,
      run_pure_eq_ok] at h
    obtain ⟨_, _, ⟨_, _, ⟨-, rfl⟩, rfl⟩, rfl, rfl⟩ := h
    exact ⟨Runs.single (Effect.updated _ _), by simp⟩
  | supplyDelta m =>
    simp only [run_bind_eq_ok (x := handleSupplyDelta app ctx m), run_bind_eq_ok (x := failIf _ _),
      run_failIf_eq_ok, run_pure_eq_ok] at h
    obtain ⟨r, _, hr, _, _, ⟨-, rfl⟩, rfl, rfl⟩ := h
    refine special_follows _ hr (by simp) fun {a} hbody => ?_
    obtain ⟨nonce, info, hready, rfl, rfl⟩ := (run_supplyDelta_eq_ok hlaw).mp hbody
    exact Effect.reported hready
  | withdrawToEthereum m =>
    obtain ⟨r, _, hr, h⟩ := run_bind_eq_ok.mp h
    obtain ⟨rfl, rfl⟩ := run_pure_eq_ok.mp h
    obtain ⟨info, nonce, hinfo, hnonce, -, hbridge⟩ := handleWithdrawToEthereum_bridge hlaw hr
    rw [hbridge]
    exact ⟨Runs.single (Effect.withdrawn _ hinfo hnonce), by simp⟩
  | depositFromEthereum m =>
    obtain ⟨r, _, hr, h⟩ := run_bind_eq_ok.mp h
    obtain ⟨rfl, rfl⟩ := run_pure_eq_ok.mp h
    refine special_follows _ hr (by simp) fun hbody => ?_
    obtain ⟨info, amount, hinfo, hamount, hbridge⟩ := depositFromEthereum_bridge hlaw hbody
    rw [hbridge, hamount]
    exact Effect.deposited _ hinfo
  | index m =>
    obtain ⟨b, _, hb, h⟩ := run_bind_eq_ok.mp h
    obtain ⟨rfl, rfl⟩ := run_getStore_eq_ok.mp hb
    obtain ⟨r, _, hr, h⟩ := run_bind_eq_ok.mp h
    obtain ⟨rfl, rfl⟩ := run_pure_eq_ok.mp h
    refine special_follows _ hr (by simp) fun hbody => ?_
    obtain ⟨last, offset, sequence, hready, rfl⟩ := (run_index_eq_ok hlaw).mp hbody
    exact Effect.indexed hready
  | skippedEventTx m =>
    obtain ⟨r, _, hr, h⟩ := run_bind_eq_ok.mp h
    obtain ⟨rfl, rfl⟩ := run_pure_eq_ok.mp h
    refine special_follows _ hr (by simp) fun hbody => ?_
    rw [skippedEventTx, run_emit hlaw] at hbody
    cases hbody
    exact Effect.skipped _
  | postBlob m =>
    obtain ⟨r, _, hr, h⟩ := run_bind_eq_ok.mp h
    obtain ⟨rfl, rfl⟩ := run_pure_eq_ok.mp h
    obtain ⟨topic, nonce, hposted, rfl, rfl⟩ := Sequencing.run_postBlob_eq_ok.mp hr
    exact ⟨Runs.single (Effect.posted hposted.last), by simp⟩
  | updateSequencingParams m =>
    simp only [run_bind_eq_ok, Sequencing.handleUpdateSequencingParams, run_failIf_eq_ok,
      Sequencing.run_onSequencing_eq_ok, run_pure_eq_ok] at h
    obtain ⟨_, _, ⟨_, _, ⟨-, rfl⟩, rfl⟩, rfl, rfl⟩ := h
    exact ⟨Runs.nil _, by simp⟩
  | other a => cases h

/-! ## Messages and transactions -/

theorem runRouted_journaled (hlaw : app.sdk.Lawful) (x : Routed W) : Journaled ctx (runRouted app ctx x) := by
  induction x with
  | done w => exact Journaled.after (keeps_putWorld w) fun _ => journaled_pure
  | fail fault w => exact Journaled.after (keeps_putWorld w) fun _ => journaled_throw fault
  | call w m next ih =>
    refine Journaled.after (keeps_putWorld w) fun _ => ?_
    intro s t j h
    simp only [run_bind_eq_ok, run_get_eq_ok, run_pure_eq_ok] at h
    obtain ⟨journal, u, hcall, _, _, ⟨rfl, rfl⟩, rest, v, hrest, rfl, rfl⟩ := h
    exact follows_append (handleBridge_journaled hlaw m hcall) (ih _ hrest)
  | scope body next ihb ihn =>
    intro s t j h
    rw [runRouted] at h
    obtain ⟨r, u, hr, hnext⟩ := run_bind_eq_ok.mp h
    rcases run_caught_isolated_eq_ok.mp hr with ⟨journal, rfl, hbody⟩ | ⟨fault, _, rfl, -, rfl⟩
    · simp only [run_bind_eq_ok, run_get_eq_ok, run_pure_eq_ok] at hnext
      obtain ⟨_, _, ⟨rfl, rfl⟩, rest, v, hrest, rfl, rfl⟩ := hnext
      exact follows_append (ihb hbody) (ihn none _ hrest)
    · simp only [run_bind_eq_ok, run_get_eq_ok] at hnext
      obtain ⟨_, _, ⟨rfl, rfl⟩, hrest⟩ := hnext
      exact ihn (some fault) _ hrest

theorem handleMsg_journaled (hlaw : app.sdk.Lawful) (m : Msg) : Journaled ctx (handleMsg app ctx m) := by
  cases m with
  | other a =>
    refine Journaled.after (keeps_ofOutcome _ _) fun _ => ?_
    exact Journaled.after (keeps_get _) fun s => runRouted_journaled hlaw _
  | _ => exact handleBridge_journaled hlaw _

theorem runMsgs_journaled (hlaw : app.sdk.Lawful) (msgs : List Msg) :
    Journaled ctx (runMsgs app ctx msgs) := by
  induction msgs with
  | nil => exact journaled_pure
  | cons m msgs ih => exact (handleMsg_journaled hlaw m).append ih

theorem runMsgsMetered_journaled (hlaw : app.sdk.Lawful) (txBz : Bytes) (tx : Tx) (pass : Pass) :
    Journaled ctx (runMsgsMetered app ctx txBz tx pass) := by
  refine Journaled.after (keeps_get _) fun s₀ => ?_
  intro s t j h
  simp only [run_bind_eq_ok, run_failIf_eq_ok, run_pure_eq_ok] at h
  obtain ⟨journal, _, hmsgs, _, _, ⟨-, rfl⟩, rfl, rfl⟩ := h
  exact runMsgs_journaled hlaw _ hmsgs

/-- In a block the decorator looks at the index alone. -/
theorem run_injectedTxsDecorator (ctx : Ctx) (mode : ExecMode) (s : State W) :
    (injectedTxsDecorator ctx mode).run s =
      if ctx.blockHeight = 0 ∨ mode ≠ .finalize then .ok .native s
      else match s.bridge.index with
        | none => .ok .first s
        | some i =>
          if i.numInjectedTxsAnte < i.numInjectedTxsTotal then
            .ok .injected { s with bridge := s.bridge.counting i }
          else .ok .native s := by
  refine (run_bind_of_ok (run_getStore s)).trans ?_
  by_cases hskip : ctx.blockHeight = 0 ∨ mode ≠ .finalize
  · rw [if_pos hskip, if_pos hskip]
    rfl
  · rw [if_neg hskip, if_neg hskip]
    cases s.bridge.index with
    | none => rfl
    | some i =>
      dsimp only
      by_cases hopen : i.numInjectedTxsAnte < i.numInjectedTxsTotal
      · rw [if_pos hopen, if_pos hopen]
        rfl
      · rw [if_neg hopen, if_neg hopen]
        rfl

/-- The decorator never fails, and its writes are those of its entry. -/
theorem injectedTxsDecorator_follows (ctx : Ctx) (mode : ExecMode) (s : State W) : ∃ pass s₁,
    (injectedTxsDecorator ctx mode).run s = .ok pass s₁ ∧ Follows ctx s.bridge pass.journal s₁.bridge ∧
      (pass = .native → s₁ = s) := by
  rw [run_injectedTxsDecorator]
  split
  · exact ⟨.native, s, rfl, Runs.nil _, fun _ => rfl⟩
  · cases hindex : s.bridge.index with
    | none => exact ⟨.first, s, rfl, Runs.nil _, fun _ => rfl⟩
    | some i =>
      dsimp only
      split
      · rename_i hopen
        exact ⟨.injected, _, rfl, Runs.single (Effect.counted hindex hopen), fun h => by cases h⟩
      · exact ⟨.native, s, rfl, Runs.nil _, fun _ => rfl⟩

/-- A transaction that reaches the decorator leaves its entry, whatever its messages do. -/
theorem run_runTx_cases (hlaw : app.sdk.Lawful) (ctx : Ctx) (txBz : Bytes) (s : State W) : ∃ o t,
    (runTx app ctx txBz).run s = .ok o t ∧
      ((∃ err, reachesDecorator app ctx txBz = .error err ∧ o = ⟨none, [], some (.err err)⟩ ∧ t = s) ∨
        ∃ tx pass s₁ j, reachesDecorator app ctx txBz = .ok tx ∧
          (injectedTxsDecorator ctx .finalize).run s = .ok pass s₁ ∧ o.pass = some pass ∧
          o.journal = pass.journal ++ j ∧ Follows ctx s.bridge pass.journal s₁.bridge ∧
          Follows ctx s₁.bridge j t.bridge ∧ Entry.counted ∉ j) := by
  unfold runTx
  cases hreach : reachesDecorator app ctx txBz with
  | error err => exact ⟨_, s, rfl, Or.inl ⟨err, rfl, rfl, rfl⟩⟩
  | ok tx =>
    obtain ⟨pass, s₁, hpass, hfollows, hnative⟩ := injectedTxsDecorator_follows ctx .finalize s
    dsimp only
    cases hante : (anteHandler app ctx .finalize txBz tx).run s with
    | error fault u =>
      -- only the rest of the chain fails, so the transaction is a native one
      have hn : pass = .native := by
        by_contra hne
        rw [anteHandler, run_bind_of_ok hpass, onlyIf, if_neg (by simpa using hne)] at hante
        cases hante
      subst hn
      rw [hnative rfl] at hpass hfollows
      rw [run_bind_of_ok (run_caught_of_error (run_isolated_of_error hante))]
      exact ⟨_, s, rfl, Or.inr ⟨tx, .native, s, [], rfl, hpass, rfl, rfl, hfollows, Runs.nil _,
        by simp⟩⟩
    | ok pass' u =>
      have hu : pass' = pass ∧ u.bridge = s₁.bridge := by
        rw [anteHandler, run_bind_of_ok hpass] at hante
        obtain ⟨_, v, hv, hend⟩ := run_bind_eq_ok.mp hante
        obtain ⟨rfl, rfl⟩ := run_pure_eq_ok.mp hend
        refine ⟨rfl, ?_⟩
        rw [run_onlyIf] at hv
        split at hv
        · exact (((keeps_get _).bind fun _ => keeps_failIf _ _ _).bind
            fun _ => keeps_inWorld outsideWorld_bridge _ : Keeps State.bridge _).of_ok hv
        · cases hv
          rfl
      obtain ⟨rfl, hbridge⟩ := hu
      rw [run_bind_of_ok (run_caught_of_ok (run_isolated_of_ok hante))]
      dsimp only
      cases hmsgs : (runMsgsMetered app ctx txBz tx pass').run u with
      | error fault v =>
        rw [run_bind_of_ok (run_caught_of_error (run_isolated_of_error hmsgs))]
        refine ⟨_, u, rfl, Or.inr ⟨tx, pass', s₁, [], rfl, hpass, rfl, ?_, hfollows, ?_⟩⟩
        · simp
        · rw [hbridge]
          exact ⟨Runs.nil _, by simp⟩
      | ok j v =>
        rw [run_bind_of_ok (run_caught_of_ok (run_isolated_of_ok hmsgs))]
        refine ⟨_, v, rfl, Or.inr ⟨tx, pass', s₁, j, rfl, hpass, rfl, rfl, hfollows, ?_⟩⟩
        rw [← hbridge]
        exact runMsgsMetered_journaled hlaw _ _ _ hmsgs

theorem runTx_follows (hlaw : app.sdk.Lawful) {txBz : Bytes} {s t : State W} {o : TxOutcome}
    (h : (runTx app ctx txBz).run s = .ok o t) : Follows ctx s.bridge o.journal t.bridge := by
  obtain ⟨o', t', h', hcases⟩ := run_runTx_cases hlaw ctx txBz s
  rw [h'] at h
  obtain ⟨rfl, rfl⟩ := EStateM.Result.ok.inj h
  rcases hcases with ⟨err, -, rfl, rfl⟩ | ⟨tx, pass, s₁, j, -, -, -, hj, hpass, hmsgs, -⟩
  · exact Runs.nil _
  · rw [hj]
    exact hpass.append hmsgs

theorem deliverTxs_follows (hlaw : app.sdk.Lawful) {txs : List Bytes} {s t : State W}
    {outcomes : List TxOutcome} (h : (deliverTxs app ctx txs).run s = .ok outcomes t) :
    Follows ctx s.bridge (outcomes.flatMap TxOutcome.journal) t.bridge := by
  induction txs generalizing s outcomes with
  | nil =>
    obtain ⟨rfl, rfl⟩ := run_pure_eq_ok.mp h
    exact Runs.nil _
  | cons txBz txs ih =>
    simp only [deliverTxs, run_bind_eq_ok, run_pure_eq_ok] at h
    obtain ⟨o, u, hu, rest, v, hrest, rfl, rfl⟩ := h
    exact (runTx_follows hlaw hu).append (ih hrest)

theorem closeOthers_journaled (hlaw : app.sdk.Lawful) : Journaled ctx (closeOthers app ctx) :=
  Journaled.after (keeps_get _) fun _ => runRouted_journaled hlaw _

/-! ## Blocks -/

/-- A committed block: how it began, what its journal did, and that its index was in order. -/
theorem finalizeBlock_follows (hlaw : app.sdk.Lawful) {txs : List Bytes} {s t : State W}
    {r : BlockResult} (h : (finalizeBlock app ctx txs).run s = .ok r t) : ∃ s₁ s₂ s₃ i,
      (openBlock app ctx).run s = .ok () s₁ ∧ (deliverTxs app ctx txs).run s₁ = .ok r.outcomes s₂ ∧
      (closeOthers app ctx).run s₂ = .ok r.closing s₃ ∧ Follows ctx s₁.bridge r.journal s₃.bridge ∧
      s₃.bridge.index = some i ∧ i.Settled ∧ t.bridge = { s₃.bridge with index := none } := by
  simp only [finalizeBlock, run_bind_eq_ok, run_endBlock_eq_ok, run_pure_eq_ok] at h
  obtain ⟨_, s₁, hopen, outcomes, s₂, hdeliver, closing, s₃, hclose, _, _, ⟨i, hi, hsettled, rfl⟩, rfl,
    rfl⟩ := h
  exact ⟨s₁, s₂, s₃, i, hopen, hdeliver, hclose,
    (deliverTxs_follows hlaw hdeliver).append (closeOthers_journaled hlaw hclose).1, hi, hsettled, rfl⟩

/-- Before the transactions only the supply delta info may change, by the supply that the
modules before the bridge leave. -/
theorem openBlock_supply {s t : State W} {u : Unit} (h : (openBlock app ctx).run s = .ok u t) :
    ∃ delta w, s.bridge.params.isMsgSupplyDeltaBlock ctx.blockHeight = .ok delta ∧
      (app.modules.beginBlockBefore ctx).run s.world = .ok () w ∧
      (delta = true → s.bridge.supplyDeltaInfo.isSome) ∧
      t.bridge = s.bridge.begun delta (app.modules.getSupply w s.bridge.params.bridgeDenom) := by
  obtain ⟨_, v, hv, hbegin⟩ := run_bind_eq_ok.mp h
  obtain ⟨delta, hdelta, hinfo, rfl⟩ := run_beginBlock_eq_ok hbegin
  have hbridge := (keeps_inWorld outsideWorld_bridge _).of_ok hv
  rw [hbridge] at hdelta hinfo
  cases hw : (app.modules.beginBlockBefore ctx).run s.world with
  | error e w =>
    rw [run_inWorld_of_error hw] at hv
    cases hv
  | ok a w =>
    rw [run_inWorld_of_ok hw] at hv
    cases hv
    exact ⟨delta, w, hdelta, rfl, hinfo, rfl⟩

theorem openBlock_bridge {s t : State W} {u : Unit} (h : (openBlock app ctx).run s = .ok u t) :
    ∃ delta supply, s.bridge.params.isMsgSupplyDeltaBlock ctx.blockHeight = .ok delta ∧
      t.bridge = s.bridge.begun delta supply := by
  obtain ⟨delta, w, hdelta, -, -, hbegun⟩ := openBlock_supply h
  exact ⟨delta, _, hdelta, hbegun⟩

end FuelSequencer.Wiring
