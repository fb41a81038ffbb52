import FuelSequencer.Abci.Acceptance
import FuelSequencer.App.Admission

/-! # Executing an accepted proposal

The verifier's checks and the checks of the message handlers are separate code. Here an
accepted list of transactions is run: its first transaction sets the index, and the
transactions injected behind it are those the ante handler lets through.
-/
namespace FuelSequencer.Abci
open Go Wire Exec Lib Bridge Wiring

variable {W : Type} {app : App W} {sidecar : Sidecar} {s : State W} {maxGas : Option Int64}

/-- The block of an accepted proposal is executed at its height and time. -/
def RequestProcessProposal.ctx (req : RequestProcessProposal) : Ctx := ⟨req.height, req.time⟩

/-! ## The shape of an accepted list -/

section Shape

variable {time : Time} {v : View} {txs : List Bytes} {m : UInt64} {full : Bool}

/-- The delivered event transactions are as many as announced. -/
theorem Accepted.length_events (h : Accepted app sidecar s maxGas time v txs m full) :
    ((txs.drop 1).take m.toNat).length = m.toNat ∧ m.toNat < maxLen := by
  rcases h.events with hno | ⟨response, gen, hsync⟩
  · rw [hno.count]
    exact ⟨by simp, by decide⟩
  · obtain ⟨-, hlt⟩ := length_generated hsync.generated
    have hle := hsync.count_le
    rw [hsync.events, List.length_take, List.length_drop]
    omega

/-- An accepted list begins with all that is injected. -/
theorem Accepted.injected_append (h : Accepted app sidecar s maxGas time v txs m full) :
    ∃ rest, txs = v.injected app m full ((txs.drop 1).take m.toNat) ++ rest := by
  obtain ⟨hindex, -, hdelta, -⟩ := h
  cases txs with
  | nil => cases hindex
  | cons tx txs =>
    cases hindex
    rw [List.drop_one, List.tail_cons]
    cases hd : v.delta with
    | false => exact ⟨txs.drop m.toNat, by simp [View.injected, hd]⟩
    | true =>
      have hsd := hdelta hd
      rw [Nat.add_comm, List.getElem?_cons_succ] at hsd
      obtain ⟨hlt, hget⟩ := List.getElem?_eq_some_iff.mp hsd
      refine ⟨txs.drop (m.toNat + 1), ?_⟩
      have hsplit : txs = txs.take m.toNat ++ v.supplyDeltaTx app :: txs.drop (m.toNat + 1) := by
        rw [← hget, ← List.drop_eq_getElem_cons hlt, List.take_append_drop]
      simpa [View.injected, hd] using hsplit

/-- Each delivered transaction was generated from an event. -/
theorem Accepted.eventTx_of_mem (h : Accepted app sidecar s maxGas time v txs m full) {txBz : Bytes}
    (hmem : txBz ∈ (txs.drop 1).take m.toNat) :
    ∃ q e, eventTx app s.bridge.params v.blocked (v.last + 1) q e = .ok txBz := by
  rcases h.events with hno | ⟨response, gen, hsync⟩
  · rw [hno.count] at hmem
    simp at hmem
  · rw [hsync.events] at hmem
    have hgen : txBz ∈ gen := List.mem_of_mem_drop (List.mem_of_mem_take hmem)
    obtain ⟨i, hi⟩ := List.mem_iff_getElem?.mp hgen
    obtain ⟨hlen, hall⟩ := eventTxsFrom_eq_ok.mp hsync.generated
    obtain ⟨hlt, -⟩ := List.getElem?_eq_some_iff.mp hi
    exact ⟨_, _, hall i _ txBz (List.getElem?_eq_getElem (hlen ▸ hlt)) hi⟩

end Shape

/-! ## The index message of an accepted proposal -/

theorem View.Of.count {height : UInt64} {v : View} (hv : View.Of app s height v) :
    supplyDeltaCount s.bridge.params height = if v.delta then 1 else 0 := by
  obtain ⟨-, hd⟩ := Params.isMsgSupplyDeltaBlock_eq_ok.mp hv.delta
  rw [supplyDeltaCount, hd]
  simp

/-- The number of transactions injected behind the first one. -/
def View.total (v : View) (m : UInt64) : UInt64 := m + if v.delta then 1 else 0

theorem View.toNat_total (v : View) {m : UInt64} (hm : m.toNat < maxLen) :
    (v.total m).toNat = m.toNat + if v.delta then 1 else 0 := by
  cases hd : v.delta with
  | false => simp [View.total, hd]
  | true => simpa [View.total, hd] using toNat_add_one hm

/-- The store after the beginning of the block lets the accepted index message through. -/
theorem Accepted.indexReady {time : Time} {height : UInt64} {v : View} {txs : List Bytes} {m : UInt64}
    {full : Bool} (h : Accepted app sidecar s maxGas time v txs m full) (hv : View.Of app s height v)
    (hindex : s.bridge.index = none) (delta : Bool) (supply : ℤ) :
    IndexReady (v.indexMsg app m full) (s.bridge.begun delta supply) v.last v.offset v.sequence where
  hasLast := hv.last
  hasOffset := hv.offset
  hasSequence := hv.sequence
  block := rfl
  progress := by
    intro hpos
    rcases h.events with hno | ⟨response, gen, hsync⟩
    · rw [hno.offset] at hpos
      cases hpos
    · have hlt := UInt64.lt_iff_toNat_lt.mp hpos
      have hoff : v.offset.toNat < gen.length := by
        rcases hsync.offset with h0 | hlt'
        · rw [h0] at hlt
          cases hlt
        · exact hlt'
      have hone := hsync.count_pos hoff
      intro hzero
      change m = 0 at hzero
      rw [hzero] at hone
      cases hone
  period := (Params.isMsgSupplyDeltaBlock_eq_ok.mp hv.delta).1
  noIndex := hindex

theorem run_handleIndex_of_ready (hlaw : app.sdk.Lawful) {ctx : Ctx} {msg : MsgIndex}
    {last offset sequence : UInt64} (hauth : msg.authority = app.keeper.authority)
    (hready : IndexReady msg s.bridge last offset sequence) :
    (handleIndex app ctx msg).run s =
      .ok ⟨some (), .ok ()⟩ { s with bridge := indexedStore ctx msg offset sequence s.bridge } := by
  have hbody : (index app ctx msg).run s =
      .ok () { s with bridge := indexedStore ctx msg offset sequence s.bridge } :=
    (run_index_eq_ok hlaw).mpr ⟨last, offset, sequence, hready, rfl⟩
  rw [handleIndex, run_bind_of_ok (run_tryExec_of_ok hauth.symm hbody)]
  rfl

/-! ## Which injected transactions reach the decorator -/

/-- The checks before the decorator, for a raw transaction. -/
theorem reachesDecorator_raw_iff (hlaw : app.Lawful) {ctx : Ctx} {anys : List Any} {q : UInt64} :
    (∃ tx, reachesDecorator app ctx (validRawTxBytesFromAnyMsgs anys q) = .ok tx) ↔
      ∃ tx, app.sdk.txDecode (validRawTxBytesFromAnyMsgs anys q) = .ok tx ∧ tx.msgs ≠ [] ∧
        (∀ m ∈ tx.msgs, m.validateBasic app.sdk = .ok ()) ∧ tx.msgs.all app.modules.hasHandler := by
  simp only [reachesDecorator, validateBasicTxMsgs, except_bind_eq_ok, failIf_eq_ok, except_forM_eq_ok,
    except_pure, Except.ok.injEq, not_not]
  constructor
  · rintro ⟨_, tx, hdec, _, ⟨_, hne, hvalid⟩, _, hhandler, _, -, rfl⟩
    exact ⟨tx, hdec, hne, hvalid, hhandler⟩
  · rintro ⟨tx, hdec, hne, hvalid, hhandler⟩
    have hgas := gas_of_txDecode_raw hlaw.sdk hdec
    obtain ⟨msgs, gas⟩ := tx
    cases hgas
    exact ⟨_, _, hdec, (), ⟨(), hne, hvalid⟩, (), hhandler, (), hlaw.modules.anteSetup_raw ctx anys q msgs, rfl⟩

theorem reachesDecorator_single (hlaw : app.Lawful) (ctx : Ctx) (q : UInt64) {a : Any} {m : Msg}
    (ha : app.sdk.unpackAny a = .ok m) (hvalid : m.validateBasic app.sdk = .ok ())
    (hbridge : ∀ a, m ≠ .other a) :
    ∃ tx, reachesDecorator app ctx (validRawTxBytesFromAnyMsgs [a] q) = .ok tx :=
  (reachesDecorator_raw_iff hlaw).mpr ⟨_, hlaw.sdk.txDecode_single q ha, by simp, by simpa using hvalid,
    by simpa using hlaw.modules.hasHandler_bridge m hbridge⟩

/-- The transaction has messages, and the router has a handler for each of them. -/
def Dispatchable (app : App W) (txBz : Bytes) : Prop :=
  ∃ tx, app.sdk.txDecode txBz = .ok tx ∧ tx.msgs ≠ [] ∧ tx.msgs.all app.modules.hasHandler

/-- A transaction made of an event reaches the decorator exactly when it is dispatchable. -/
theorem reachesDecorator_eventTx_iff (hlaw : app.Lawful) {ctx : Ctx} {params : Params}
    {blocked : List GoString} {block q : UInt64} {e : Event} {txBz : Bytes}
    (h : eventTx app params blocked block q e = .ok txBz) :
    (∃ tx, reachesDecorator app ctx txBz = .ok tx) ↔ Dispatchable app txBz := by
  have hvalid : ∀ {tx}, app.sdk.txDecode txBz = .ok tx → ∀ m ∈ tx.msgs, m.validateBasic app.sdk = .ok () := by
    intro tx hdec
    obtain ⟨anys, rfl, ⟨m, rfl⟩ | ⟨m, rfl⟩ | ⟨-, -, t, ht, hall⟩⟩ := eventTx_eq_ok h
    · rw [hlaw.sdk.txDecode_single q (hlaw.sdk.unpackAny_depositFromEthereum m)] at hdec
      cases hdec
      simp [Msg.validateBasic]
    · rw [hlaw.sdk.txDecode_single q (hlaw.sdk.unpackAny_skippedEventTx m)] at hdec
      cases hdec
      simp [Msg.validateBasic]
    · rw [ht] at hdec
      cases hdec
      exact hall
  obtain ⟨anys, rfl, -⟩ := eventTx_eq_ok h
  rw [reachesDecorator_raw_iff hlaw]
  constructor
  · rintro ⟨tx, hdec, hne, -, hhandler⟩
    exact ⟨tx, hdec, hne, hhandler⟩
  · rintro ⟨tx, hdec, hne, hhandler⟩
    exact ⟨tx, hdec, hne, hvalid hdec, hhandler⟩

/-! ## The first transaction -/

theorem txDecode_of_reachesDecorator {ctx : Ctx} {txBz : Bytes} {tx : Tx}
    (h : reachesDecorator app ctx txBz = .ok tx) : app.sdk.txDecode txBz = .ok tx := by
  simp only [reachesDecorator, except_bind_eq_ok, except_pure, Except.ok.injEq] at h
  obtain ⟨tx', hdec, _, -, _, -, _, -, rfl⟩ := h
  exact hdec

/-- The index transaction passes as the first of the block and sets the index. -/
theorem run_runTx_index (hlaw : app.Lawful) {ctx : Ctx} (hheight : ctx.blockHeight ≠ 0) {msg : MsgIndex}
    {last offset sequence : UInt64} (q : UInt64) (hauth : msg.authority = app.keeper.authority)
    (hready : IndexReady msg s.bridge last offset sequence) :
    (runTx app ctx (msg.rawTxBytes q)).run s = .ok ⟨some .first, [.indexed msg
        (msg.numInjectedEventTxs + supplyDeltaCount s.bridge.params ctx.blockHeight)], none⟩
      { s with bridge := indexedStore ctx msg offset sequence s.bridge } := by
  have hunpack := hlaw.sdk.unpackAny_index msg
  have hreach : reachesDecorator app ctx (msg.rawTxBytes q) = .ok ⟨[.index msg], some injectedTxGasLimit⟩ := by
    obtain ⟨tx, htx⟩ := reachesDecorator_single hlaw ctx q hunpack rfl (by simp)
    have hdec := txDecode_of_reachesDecorator htx
    rw [hlaw.sdk.txDecode_single q hunpack] at hdec
    rw [Except.ok.inj hdec]
    exact htx
  have hante : (anteHandler app ctx .finalize (msg.rawTxBytes q) ⟨[.index msg], some injectedTxGasLimit⟩).run
      s = .ok .first s := by
    have hpass : (injectedTxsDecorator ctx .finalize).run s = .ok .first s := by
      rw [run_injectedTxsDecorator, if_neg (by simp [hheight]), hready.noIndex]
    rw [anteHandler, run_bind_of_ok hpass]
    rfl
  have hmsgs : (runMsgsMetered app ctx (msg.rawTxBytes q) ⟨[.index msg], some injectedTxGasLimit⟩
      .first).run s = .ok [.indexed msg
        (msg.numInjectedEventTxs + supplyDeltaCount s.bridge.params ctx.blockHeight)]
      { s with bridge := indexedStore ctx msg offset sequence s.bridge } := by
    have hhandle : (handleMsg app ctx (.index msg)).run s = .ok [.indexed msg
        (msg.numInjectedEventTxs + supplyDeltaCount s.bridge.params ctx.blockHeight)]
        { s with bridge := indexedStore ctx msg offset sequence s.bridge } := by
      refine (run_bind_of_ok (run_handleIndex_of_ready hlaw.sdk hauth hready)).trans ?_
      rfl
    have hall : (runMsgs app ctx [.index msg]).run s = .ok [.indexed msg
        (msg.numInjectedEventTxs + supplyDeltaCount s.bridge.params ctx.blockHeight)]
        { s with bridge := indexedStore ctx msg offset sequence s.bridge } :=
      (run_bind_of_ok hhandle).trans rfl
    exact (run_bind_of_ok hall).trans rfl
  unfold runTx
  rw [hreach]
  dsimp only
  rw [run_bind_of_ok (run_caught_of_ok (run_isolated_of_ok hante))]
  dsimp only
  rw [run_bind_of_ok (run_caught_of_ok (run_isolated_of_ok hmsgs))]
  rfl

/-- Executing an accepted list: its first transaction sets the index to what is injected
behind it, and the others run from there. -/
theorem Accepted.deliver_first (hlaw : app.Lawful) {ctx : Ctx} (hheight : ctx.blockHeight ≠ 0) {time : Time}
    {v : View} {txs : List Bytes} {m : UInt64} {full : Bool}
    (h : Accepted app sidecar s maxGas time v txs m full) (hv : View.Of app s ctx.blockHeight v)
    (hindex : s.bridge.index = none) {s₁ s₂ : State W} {outcomes : List TxOutcome}
    (hopen : (openBlock app ctx).run s = .ok () s₁)
    (hdeliver : (deliverTxs app ctx txs).run s₁ = .ok outcomes s₂) : ∃ u rest supply,
      s₁.bridge = s.bridge.begun v.delta supply ∧
      u.bridge = indexedStore ctx (v.indexMsg app m full) v.offset v.sequence s₁.bridge ∧
      u.bridge.index = some ⟨v.total m, 0, 0⟩ ∧
      (deliverTxs app ctx (txs.drop 1)).run u = .ok rest s₂ ∧
      outcomes = ⟨some .first, [.indexed (v.indexMsg app m full) (v.total m)], none⟩ :: rest := by
  obtain ⟨delta, supply, hdelta, hbegun⟩ := openBlock_bridge hopen
  obtain rfl : v.delta = delta := Except.ok.inj (hv.delta.symm.trans hdelta)
  have hready := h.indexReady hv hindex v.delta supply
  rw [← hbegun] at hready
  have htotal : (v.indexMsg app m full).numInjectedEventTxs +
      supplyDeltaCount s₁.bridge.params ctx.blockHeight = v.total m := by
    rw [hbegun]
    exact congrArg (m + ·) hv.count
  have hfirst := run_runTx_index hlaw hheight (v.sequence + 1) rfl hready
  rw [htotal] at hfirst
  have hhead := h.index
  cases txs with
  | nil => cases hhead
  | cons tx txs =>
    cases hhead
    obtain ⟨o, u, rest, hu, hrest, rfl⟩ := deliverTxs_cons_eq_ok.mp hdeliver
    rw [View.indexTx, hfirst] at hu
    obtain ⟨rfl, rfl⟩ := EStateM.Result.ok.inj hu
    refine ⟨_, rest, supply, hbegun, rfl, ?_, hrest, rfl⟩
    change some (Index.mk _ 0 0) = _
    rw [htotal]

/-! ## Which transactions of an accepted block skip the checks -/

/-- When every delivered transaction is dispatchable, exactly the injected transactions
skip the checks, and all of them are counted. -/
theorem Accepted.exempt_iff (hlaw : app.Lawful) {ctx : Ctx} (hheight : ctx.blockHeight ≠ 0) {time : Time}
    {v : View} {txs : List Bytes} {m : UInt64} {full : Bool}
    (h : Accepted app sidecar s maxGas time v txs m full) (hv : View.Of app s ctx.blockHeight v)
    (hindex : s.bridge.index = none) {s₁ s₂ : State W} {outcomes : List TxOutcome}
    (hopen : (openBlock app ctx).run s = .ok () s₁)
    (hdeliver : (deliverTxs app ctx txs).run s₁ = .ok outcomes s₂)
    (hdispatch : ∀ txBz ∈ (txs.drop 1).take m.toNat, Dispatchable app txBz) :
    (∀ (k : ℕ) (o : TxOutcome), outcomes[k]? = some o → (o.Exempt ↔ k < 1 + (v.total m).toNat)) ∧
      ∃ f, s₂.bridge.index = some ⟨v.total m, v.total m, f⟩ := by
  obtain ⟨hlen, hm⟩ := h.length_events
  obtain ⟨rest, hshape⟩ := h.injected_append
  obtain ⟨u, outs, supply, -, -, huindex, houts, rfl⟩ := h.deliver_first hlaw hheight hv hindex hopen hdeliver
  have hdrop : txs.drop 1 = ((txs.drop 1).take m.toNat ++ if v.delta then [v.supplyDeltaTx app] else []) ++
      rest := congrArg (List.drop 1) hshape
  have hcount : ((txs.drop 1).take m.toNat ++ if v.delta then [v.supplyDeltaTx app] else []).length =
      (v.total m).toNat := by
    rw [List.length_append, hlen, v.toNat_total hm]
    cases v.delta <;> rfl
  have hreach : ∀ txBz ∈ (txs.drop 1).take m.toNat ++ (if v.delta then [v.supplyDeltaTx app] else []),
      ∃ tx, reachesDecorator app ctx txBz = .ok tx := by
    intro txBz hmem
    rcases List.mem_append.mp hmem with hmem | hmem
    · obtain ⟨q, e, he⟩ := h.eventTx_of_mem hmem
      exact (reachesDecorator_eventTx_iff hlaw he).mpr (hdispatch txBz hmem)
    · cases hd : v.delta with
      | false => simp [hd] at hmem
      | true =>
        rw [hd, if_pos rfl, List.mem_singleton] at hmem
        subst hmem
        exact reachesDecorator_single hlaw ctx _ (hlaw.sdk.unpackAny_supplyDelta _) rfl (by simp)
  rw [hdrop] at houts
  obtain ⟨o₁, w, o₂, h₁, h₂, rfl⟩ := deliverTxs_append_eq_ok houts
  obtain ⟨hin, f, hf⟩ := deliverTxs_counted hlaw.sdk hheight hreach huindex
    (by rw [hcount]; exact (Nat.zero_add _).le) h₁
  have hlen₁ : o₁.length = (v.total m).toNat := by rw [length_deliverTxs h₁, hcount]
  have hante : (0 : UInt64) + UInt64.ofNat (v.total m).toNat = v.total m := by
    rw [UInt64.ofNat_toNat, UInt64.zero_add]
  rw [hcount, hante] at hf
  obtain ⟨hout, f', hf'⟩ := deliverTxs_native hlaw.sdk hheight hf (UInt64.lt_irrefl _) h₂
  refine ⟨?_, f', hf'⟩
  intro k o ho
  cases k with
  | zero =>
    cases ho
    exact ⟨fun _ => by omega, fun _ => Or.inl rfl⟩
  | succ k =>
    rw [List.getElem?_cons_succ, List.getElem?_append, hlen₁] at ho
    split at ho
    · exact ⟨fun _ => by omega, fun _ => hin o (List.mem_of_getElem? ho)⟩
    · exact ⟨fun hex => absurd hex (hout o (List.mem_of_getElem? ho)), fun hlt => by omega⟩

/-- In every accepted block, the transactions that skip the checks are exactly the
injected ones, and all of them are counted, if and only if each delivered event
transaction has messages and a handler for each of them. -/
theorem exempt_iff_injected (hlaw : app.Lawful) {req : RequestProcessProposal} {msg : MsgIndex}
    {delta : Bool} {s₁ s₂ s₃ : State W} {outcomes : List TxOutcome} {closing : Journal}
    (haccept : processProposal app sidecar maxGas s req = .ok ()) (hheight : req.height ≠ 0)
    (hindex : s.bridge.index = none)
    (hmsg : MsgIndex.fromRawTxBytes app.sdk.txDecode (req.txs.elems.headD []) = .ok msg)
    (hdelta : s.bridge.params.isMsgSupplyDeltaBlock req.height = .ok delta)
    (hopen : (openBlock app req.ctx).run s = .ok () s₁)
    (hdeliver : (deliverTxs app req.ctx req.txs.elems).run s₁ = .ok outcomes s₂)
    (hclose : (closeOthers app req.ctx).run s₂ = .ok closing s₃) :
    ((∀ (k : ℕ) (o : TxOutcome), outcomes[k]? = some o →
        (o.Exempt ↔ k < 1 + msg.numInjectedEventTxs.toNat + if delta then 1 else 0)) ∧
      ∃ i, s₃.bridge.index = some i ∧ i.numInjectedTxsAnte = i.numInjectedTxsTotal) ↔
      ∀ txBz ∈ (req.txs.elems.drop 1).take msg.numInjectedEventTxs.toNat, Dispatchable app txBz := by
  obtain ⟨v, m, full, hv, haccepted⟩ := accepted_of_processProposal hlaw.sdk haccept
  obtain rfl : v.delta = delta := Except.ok.inj (hv.delta.symm.trans hdelta)
  obtain rfl : v.indexMsg app m full = msg := by
    rw [(headD_eq_of_getElem? haccepted.index).2, View.indexTx, fromRawTxBytes_rawTxBytes hlaw.sdk] at hmsg
    exact Except.ok.inj hmsg
  obtain ⟨hlen, hm⟩ := haccepted.length_events
  have hbound : 1 + (v.total m).toNat = 1 + m.toNat + if v.delta then 1 else 0 := by
    rw [v.toNat_total hm]
    omega
  change (_ ∧ _) ↔ ∀ txBz ∈ (req.txs.elems.drop 1).take m.toNat, _
  constructor
  · rintro ⟨hexempt, -⟩ txBz hmem
    obtain ⟨k, hk⟩ := List.mem_iff_getElem?.mp hmem
    obtain ⟨hkm, -⟩ := List.getElem?_eq_some_iff.mp hk
    rw [hlen] at hkm
    have htx : req.txs.elems[1 + k]? = some txBz := by
      rwa [List.getElem?_take_of_lt hkm, List.getElem?_drop] at hk
    obtain ⟨o, ho⟩ : ∃ o, outcomes[1 + k]? = some o := by
      obtain ⟨hlt, -⟩ := List.getElem?_eq_some_iff.mp htx
      exact ⟨_, List.getElem?_eq_getElem (by rw [length_deliverTxs hdeliver]; exact hlt)⟩
    have hex : o.Exempt := (hexempt (1 + k) o ho).mpr (by change 1 + k < 1 + m.toNat + _; omega)
    have hpass : o.pass ≠ none := by
      rcases hex with hp | hp <;> simp [hp]
    have hreach := reaches_of_deliverTxs hlaw.sdk hdeliver htx ho hpass
    obtain ⟨q, e, he⟩ := haccepted.eventTx_of_mem hmem
    exact (reachesDecorator_eventTx_iff hlaw he).mp hreach
  · intro hdispatch
    obtain ⟨hexempt, f, hf⟩ := haccepted.exempt_iff hlaw (show req.ctx.blockHeight ≠ 0 from hheight) hv hindex
      hopen hdeliver hdispatch
    rw [hbound] at hexempt
    obtain ⟨hfollows, hnot⟩ := closeOthers_journaled hlaw.sdk hclose
    obtain ⟨f', hf'⟩ := follows_index_of_set hfollows hnot hf
    exact ⟨hexempt, _, hf', rfl⟩

/-- The outcomes of the reference block: the index message and one deposit. -/
def referenceOutcomes : List TxOutcome :=
  [⟨some .first, [.indexed (referenceView.indexMsg Reference.app 1 true) 1], none⟩,
    ⟨some .injected, [.counted, .deposited 5], none⟩]

theorem exempt_iff_injected_reference : ∃ s₂ s₃,
    (deliverTxs Reference.app referenceProposal.ctx referenceProposal.txs.elems).run Reference.state =
      .ok referenceOutcomes s₂ ∧ (closeOthers Reference.app referenceProposal.ctx).run s₂ = .ok [] s₃ ∧
    (∀ (k : ℕ) (o : TxOutcome), referenceOutcomes[k]? = some o → (o.Exempt ↔ k < 2)) ∧
    ∃ i, s₃.bridge.index = some i ∧ i.numInjectedTxsAnte = i.numInjectedTxsTotal := by
  have haccept : processProposal Reference.app (Reference.answering [Reference.depositEvent 5] (by decide))
      none Reference.state referenceProposal = .ok () := by decide +kernel
  have hdeliver := eq_ok_of_value (by decide +kernel :
    value ((deliverTxs Reference.app referenceProposal.ctx referenceProposal.txs.elems).run Reference.state) =
      some referenceOutcomes)
  have hdispatch : ∀ txBz ∈ (referenceProposal.txs.elems.drop 1).take 1, Dispatchable Reference.app txBz := by
    intro txBz hmem
    cases List.mem_singleton.mp hmem
    exact ⟨_, Reference.sdk_lawful.txDecode_single 2 (Reference.sdk_lawful.unpackAny_depositFromEthereum _),
      by simp, rfl⟩
  obtain ⟨hexempt, hcounted⟩ := (exempt_iff_injected Reference.app_lawful haccept (by decide) rfl
    (fromRawTxBytes_rawTxBytes Reference.sdk_lawful (referenceView.indexMsg Reference.app 1 true) 1) rfl rfl
    hdeliver rfl).mpr hdispatch
  exact ⟨_, _, hdeliver, rfl, hexempt, hcounted⟩

/-- An authorisation without messages is authenticated and injected. -/
def emptyProposal : RequestProcessProposal where
  txs := ⟨[referenceView.indexTx Reference.app 1 true, validRawTxBytesFromAnyMsgs [] 2,
    validRawTxBytesFromAnyMsgs [transferAny] 0], [], by decide⟩
  height := 1
  time := 0

/-- The sender of the transfer owns one coin. -/
def fundedState : State Reference.Ledger :=
  ⟨Reference.store, Reference.sequencing, Reference.ledger.addBalance Reference.depositor Reference.ufuel 1⟩

/-- The message-less transaction never reaches the decorator, so the unsigned transfer
behind it takes its place: it skips the checks and is executed. -/
theorem unsigned_transfer_skips_checks :
    processProposal Reference.app (Reference.answering [Reference.authorizeEvent []] (by decide)) none
        fundedState emptyProposal = .ok () ∧
      fundedState.bridge.index = none ∧
      (openBlock Reference.app emptyProposal.ctx).run fundedState = .ok () fundedState ∧
      value ((deliverTxs Reference.app emptyProposal.ctx emptyProposal.txs.elems).run fundedState) = some
        [⟨some .first, [.indexed (referenceView.indexMsg Reference.app 1 true) 1], none⟩,
          ⟨none, [], some (.err (str "must contain at least one message: invalid request"))⟩,
          ⟨some .injected, [.counted], none⟩] :=
  ⟨by decide +kernel, rfl, rfl, by decide +kernel⟩

end FuelSequencer.Abci
