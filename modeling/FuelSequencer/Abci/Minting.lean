import FuelSequencer.Abci.Chain
import FuelSequencer.Abci.Authenticity
import FuelSequencer.App.Origin

/-! # What the deposits on Ethereum mint

A deposit event becomes one transaction, a committed block lets every such transaction
mint its amount, and nothing else mints through the bridge. Over a run of blocks the
amounts minted are those of the deposits between the first and the last position in the
Ethereum history, each counted once.
-/
namespace FuelSequencer.Abci
open Go Wire Exec Lib Bridge Wiring

variable {W : Type} {app : App W} {ctx : Ctx}

/-- The amount that an event deposits; an event that is no deposit has none. -/
def depositAmount (sdk : Sdk) (e : Event) : ℤ :=
  match e.eventType with
  | .deposit =>
    match sdk.unmarshalDepositEvent e.data with
    | .ok d => (sdk.newIntFromString d.amount).getD 0
    | .error _ => 0
  | _ => 0

/-! ## One transaction -/

section Tx

variable {params : Params} {blocked : List GoString} {block q : UInt64} {e : Event} {txBz : Bytes}
  {s t : State W} {o : TxOutcome}

/-- Messages that were authenticated are no deposits of the authority, whose address is blocked. -/
theorem Authentic.not_carriesDeposit (hsealed : Sealed app) (hblocked : app.keeper.authority ∈ blocked)
    {a : AuthorizeEvent} {anys : List Any} (h : Authentic app params blocked q a anys) {msgs : List Msg}
    (hmsgs : List.Forall₂ (fun any msg => app.sdk.unpackAny any = .ok msg) anys msgs) :
    ∀ m ∈ msgs, ¬ CarriesDeposit app m := by
  obtain ⟨msgs', hmsgs', hall⟩ := h.messages
  obtain rfl : msgs = msgs' := by
    have hboth := (except_mapM_eq_ok.mpr hmsgs).symm.trans (except_mapM_eq_ok.mpr hmsgs')
    exact Except.ok.inj hboth
  intro m hm hcarries
  obtain ⟨-, signers, hsigners, hfree⟩ := hall m hm
  obtain ⟨signer, hsigner, htext⟩ := hsealed.signed hcarries hsigners
  exact (hfree signer hsigner).2 (htext ▸ hblocked)

/-- The one message of a transaction that reaches the decorator. -/
theorem msgs_of_reaches_single (hlaw : app.sdk.Lawful) {a : Any} {m : Msg} (ha : app.sdk.unpackAny a = .ok m)
    {tx : Tx} (h : reachesDecorator app ctx (validRawTxBytesFromAnyMsgs [a] q) = .ok tx) : tx.msgs = [m] := by
  have hdec := txDecode_of_reachesDecorator h
  rw [hlaw.txDecode_single q ha] at hdec
  rw [← Except.ok.inj hdec]

/-- The transaction of a deposit that skips the ante chain mints its amount, or its failure is
recorded. -/
theorem runTx_deposit (hlaw : app.Lawful) {m : MsgDepositFromEthereum} (hauth : m.authority = app.keeper.authority)
    (hexempt : o.Exempt) (h : (runTx app ctx (validRawTxBytesFromAnyMsgs [m.toAny] q)).run s = .ok o t) :
    Entry.failed ∈ o.journal ∨
      o.journal.total Entry.depositedAmount = (app.sdk.newIntFromString m.amount).getD 0 := by
  have hunpack := hlaw.sdk.unpackAny_depositFromEthereum m
  obtain ⟨tx, hreach⟩ := reachesDecorator_single hlaw ctx q hunpack rfl (by simp)
  have hmsgs := msgs_of_reaches_single hlaw.sdk hunpack hreach
  cases hante : (anteHandler app ctx .finalize (validRawTxBytesFromAnyMsgs [m.toAny] q) tx).run s with
  | error fault u =>
    rw [run_runTx_of_ante_error hreach hante] at h
    obtain ⟨rfl, rfl⟩ := EStateM.Result.ok.inj h
    rcases hexempt with hpass | hpass <;> cases hpass
  | ok pass u =>
    have hpass : pass ≠ .native := by
      rintro rfl
      have hnative := pass_of_runTx hreach hante h
      rcases hexempt with hpass | hpass <;> simp [hnative] at hpass
    obtain ⟨j, v, hbridge, hj⟩ := run_handleBridge_deposit hauth ctx u
    rw [run_runTx_of_ante hreach hante (run_runMsgsMetered_single hmsgs hpass hbridge)] at h
    obtain ⟨rfl, rfl⟩ := EStateM.Result.ok.inj h
    rcases hj with rfl | rfl
    · exact Or.inl (List.mem_append_right _ (List.mem_singleton_self _))
    · right
      rw [Wiring.total_append, (undeposited_pass pass).total_eq_zero, total_singleton, zero_add]
      rfl

/-- The transaction of an event mints what the event deposits. -/
theorem runTx_event (hlaw : app.Lawful) (hinjective : Function.Injective app.sdk.accAddressString)
    (hsealed : Sealed app) (hblocked : app.keeper.authority ∈ blocked)
    (hevent : GeneratedFrom app params blocked block e txBz) (hexempt : o.Exempt) (hfailed : Entry.failed ∉ o.journal)
    (h : (runTx app ctx txBz).run s = .ok o t) :
    o.journal.total Entry.depositedAmount = depositAmount app.sdk e := by
  obtain ⟨q, hq⟩ := hevent
  cases injectedFor_of_eventTx hlaw.sdk hinjective hq with
  | @deposit d htype hdata =>
    rcases runTx_deposit hlaw rfl hexempt h with habs | htotal
    · exact absurd habs hfailed
    · rw [htotal, depositAmount, htype, hdata]
  | @authorized a anys htype hdata hauthentic =>
    have hnone : Undeposited o.journal := by
      refine runTx_undeposited_of_messages hsealed (fun tx hreach => ?_) h
      obtain ⟨msgs, hmsgs, -⟩ := hauthentic.messages
      have hdec := txDecode_of_reachesDecorator hreach
      rw [hlaw.sdk.txDecode_raw q hmsgs] at hdec
      rw [← Except.ok.inj hdec]
      exact hauthentic.not_carriesDeposit hsealed hblocked hmsgs
    rw [hnone.total_eq_zero, depositAmount, htype]
  | @skipped a reason htype hdata hnot =>
    have hnone : Undeposited o.journal := by
      refine runTx_undeposited_of_messages hsealed (fun tx hreach => ?_) h
      rw [msgs_of_reaches_single hlaw.sdk (hlaw.sdk.unpackAny_skippedEventTx _) hreach]
      simp [CarriesDeposit]
    rw [hnone.total_eq_zero, depositAmount, htype]

/-- The transactions of events mint, one by one, what the events deposit. -/
theorem deliverTxs_events (hlaw : app.Lawful) (hinjective : Function.Injective app.sdk.accAddressString)
    (hsealed : Sealed app) (hblocked : app.keeper.authority ∈ blocked) {events : List Event} {txs : List Bytes}
    (hmade : List.Forall₂ (GeneratedFrom app params blocked block) events txs) {outcomes : List TxOutcome}
    (hexempt : ∀ o ∈ outcomes, o.Exempt) (hfailed : ∀ o ∈ outcomes, Entry.failed ∉ o.journal)
    (h : (deliverTxs app ctx txs).run s = .ok outcomes t) :
    Journal.total (outcomes.flatMap TxOutcome.journal) Entry.depositedAmount =
      (events.map (depositAmount app.sdk)).sum := by
  induction hmade generalizing s outcomes with
  | nil =>
    obtain ⟨rfl, -⟩ := run_pure_eq_ok.mp h
    rfl
  | cons hevent hrest ih =>
    obtain ⟨o, u, rest, hu, hrun, rfl⟩ := deliverTxs_cons_eq_ok.mp h
    rw [List.forall_mem_cons] at hexempt hfailed
    rw [List.flatMap_cons, Wiring.total_append, List.map_cons, List.sum_cons, ih hexempt.2 hfailed.2 hrun,
      runTx_event hlaw hinjective hsealed hblocked hevent hexempt.1 hfailed.1 hu]

/-- Transactions that are not exempt mint nothing. -/
theorem deliverTxs_native_undeposited (hsealed : Sealed app) {txs : List Bytes} {outcomes : List TxOutcome}
    (hnative : ∀ o ∈ outcomes, ¬ o.Exempt) (h : (deliverTxs app ctx txs).run s = .ok outcomes t) :
    Undeposited (outcomes.flatMap TxOutcome.journal) := by
  apply undeposited_flatMap
  induction txs generalizing s outcomes with
  | nil =>
    obtain ⟨rfl, -⟩ := run_pure_eq_ok.mp h
    simp
  | cons txBz txs ih =>
    obtain ⟨o, u, rest, hu, hrun, rfl⟩ := deliverTxs_cons_eq_ok.mp h
    rw [List.forall_mem_cons] at hnative ⊢
    exact ⟨runTx_undeposited_of_native hsealed hnative.1 hu, ih hnative.2 hrun⟩

end Tx

/-! ## One block -/

/-- A block with what its execution yields. -/
structure Executed where
  block : Block
  result : BlockResult

/-- The block is accepted at the state and committed with the result. -/
structure CommitStep (app : App W) (s : State W) (l : Executed) (t : State W) : Prop where
  height : l.block.request.height ≠ 0
  accepted : processProposal app l.block.sidecar l.block.maxGas s l.block.request = .ok ()
  committed : (finalizeBlock app l.block.request.ctx l.block.request.txs.elems).run s = .ok l.result t

theorem CommitStep.blockStep {s t : State W} {l : Executed} (h : CommitStep app s l t) : BlockStep app s l.block t :=
  ⟨h.height, h.accepted, l.result, h.committed⟩

/-- The event transactions of the block can be dispatched, and its entries counted. -/
structure Executed.Regular (app : App W) (l : Executed) : Prop where
  dispatchable : ∀ txBz ∈ injectedEventTxs app l.block, Dispatchable app txBz
  length : l.result.journal.length < 2 ^ 64

theorem authority_mem_blocked {s : State W} {height : UInt64} {v : View} (hv : View.Of app s height v) :
    app.keeper.authority ∈ v.blocked := by
  obtain ⟨validators, -, h⟩ := except_bind_eq_ok.mp hv.blocked
  obtain ⟨operators, -, h⟩ := except_bind_eq_ok.mp h
  rw [← Except.ok.inj h]
  exact List.mem_append_right _ (List.mem_singleton_self _)

/-- The outcomes of an accepted block: that of the index message, those of the event transactions,
and others that deposit nothing. -/
theorem Accepted.outcomes_split (hlaw : app.Lawful) (hsealed : Sealed app) (hheight : ctx.blockHeight ≠ 0)
    {sidecar : Sidecar} {s s₁ s₂ : State W} {maxGas : Option Int64} {time : Time} {v : View} {txs : List Bytes}
    {m : UInt64} {full : Bool} (h : Accepted app sidecar s maxGas time v txs m full)
    (hv : View.Of app s ctx.blockHeight v) (hindex : s.bridge.index = none)
    (hdispatch : ∀ txBz ∈ (txs.drop 1).take m.toNat, Dispatchable app txBz)
    (hopen : (openBlock app ctx).run s = .ok () s₁) {outcomes : List TxOutcome}
    (hdeliver : (deliverTxs app ctx txs).run s₁ = .ok outcomes s₂) : ∃ first events others u w,
      outcomes = first :: (events ++ others) ∧ Undeposited first.journal ∧
      (deliverTxs app ctx ((txs.drop 1).take m.toNat)).run u = .ok events w ∧ (∀ o ∈ events, o.Exempt) ∧
      Undeposited (others.flatMap TxOutcome.journal) := by
  obtain ⟨hlen, hm⟩ := h.length_events
  obtain ⟨tail, hshape⟩ := h.injected_append
  have hexempt := (h.exempt_iff hlaw hheight hv hindex hopen hdeliver hdispatch).1
  obtain ⟨u, rest, supply, -, -, -, hrest, rfl⟩ := h.deliver_first hlaw hheight hv hindex hopen hdeliver
  have hdrop : txs.drop 1 = (txs.drop 1).take m.toNat ++
      ((if v.delta then [v.supplyDeltaTx app] else []) ++ tail) := by
    rw [← List.append_assoc]
    exact congrArg (List.drop 1) hshape
  rw [hdrop] at hrest
  obtain ⟨events, w, others, hevents, hothers, rfl⟩ := deliverTxs_append_eq_ok hrest
  obtain ⟨delta, w', natives, hdelta, hnatives, rfl⟩ := deliverTxs_append_eq_ok hothers
  have hevlen : events.length = m.toNat := (length_deliverTxs hevents).trans hlen
  have hdelen : delta.length = if v.delta then 1 else 0 := by
    rw [length_deliverTxs hdelta]
    split <;> rfl
  refine ⟨_, events, delta ++ natives, u, w, rfl, by simp [Undeposited], hevents, ?_, ?_⟩
  · intro o ho
    obtain ⟨k, hk⟩ := List.mem_iff_getElem?.mp ho
    obtain ⟨hlt, -⟩ := List.getElem?_eq_some_iff.mp hk
    refine (hexempt (k + 1) o ?_).mpr (by rw [v.toNat_total hm]; omega)
    rw [List.getElem?_cons_succ, List.getElem?_append_left hlt, hk]
  · rw [List.flatMap_append]
    refine Undeposited.append ?_ (deliverTxs_native_undeposited hsealed ?_ hnatives)
    · apply undeposited_flatMap
      intro o ho
      -- the one transaction here is that of the supply delta message
      cases hd : v.delta with
      | false =>
        rw [hd] at hdelen
        rw [List.length_eq_zero_iff.mp hdelen] at ho
        cases ho
      | true =>
        rw [hd, if_pos rfl] at hdelta
        obtain ⟨o', w₁, none, ho', hnone, rfl⟩ := deliverTxs_cons_eq_ok.mp hdelta
        obtain ⟨rfl, -⟩ := run_pure_eq_ok.mp hnone
        cases List.mem_singleton.mp ho
        refine runTx_undeposited_of_messages hsealed (fun tx hreach => ?_) ho'
        rw [msgs_of_reaches_single hlaw.sdk (hlaw.sdk.unpackAny_supplyDelta _) hreach]
        simp [CarriesDeposit]
    · intro o ho hex
      obtain ⟨k, hk⟩ := List.mem_iff_getElem?.mp ho
      have hpos := (hexempt (m.toNat + (if v.delta then 1 else 0) + k + 1) o ?_).mp hex
      · rw [v.toNat_total hm] at hpos
        omega
      · rw [List.getElem?_cons_succ, List.getElem?_append_right (by omega),
          List.getElem?_append_right (by omega), ← hk]
        congr 1
        omega

/-- A block mints what the events it delivers deposit. -/
theorem CommitStep.total (hlaw : app.Lawful) (hinjective : Function.Injective app.sdk.accAddressString)
    (hsealed : Sealed app) {s t : State W} {l : Executed} (h : CommitStep app s l t) (hregular : l.Regular app)
    (hindex : s.bridge.index = none) {v : View} {m : UInt64} {full : Bool}
    (hv : View.Of app s l.block.request.height v)
    (haccepted : Accepted app l.block.sidecar s l.block.maxGas l.block.request.time v l.block.request.txs.elems m full)
    {events : List Event}
    (hmade : List.Forall₂ (GeneratedFrom app s.bridge.params v.blocked (v.last + 1)) events
      ((l.block.request.txs.elems.drop 1).take m.toNat)) :
    l.result.journal.total Entry.depositedAmount = (events.map (depositAmount app.sdk)).sum := by
  have hfailed := not_failed_of_finalizeBlock hlaw.sdk hindex h.committed hregular.length
  obtain ⟨s₁, s₂, s₃, i, hopen, hdeliver, hclose, -⟩ := finalizeBlock_follows hlaw.sdk h.committed
  have hdispatch := hregular.dispatchable
  rw [injectedEventTxs_of_accepted hlaw.sdk haccepted] at hdispatch
  obtain ⟨first, outs, others, u, w, hsplit, hfirst, hrun, hexempt, hothers⟩ := haccepted.outcomes_split hlaw hsealed
    (show l.block.request.ctx.blockHeight ≠ 0 from h.height) hv hindex hdispatch hopen hdeliver
  have hall : ∀ o ∈ outs, Entry.failed ∉ o.journal := by
    intro o ho hmem
    refine hfailed (List.mem_append_left _ (List.mem_flatMap.mpr ⟨o, ?_, hmem⟩))
    rw [hsplit]
    exact List.mem_cons_of_mem _ (List.mem_append_left _ ho)
  have htotal := deliverTxs_events hlaw hinjective hsealed (authority_mem_blocked hv) hmade hexempt hall hrun
  rw [BlockResult.journal, Wiring.total_append, hsplit, List.flatMap_cons, List.flatMap_append, Wiring.total_append, Wiring.total_append,
    hfirst.total_eq_zero, hothers.total_eq_zero, (closeOthers_noDeposit hsealed hclose).total_eq_zero, htotal]
  ring

/-! ## Runs -/

/-- The amounts deposited in the journals of a run. -/
def minted (ls : List Executed) : ℤ := Journal.total (ls.flatMap fun l => l.result.journal) Entry.depositedAmount

theorem minted_snoc (ls : List Executed) (l : Executed) :
    minted (ls ++ [l]) = minted ls + l.result.journal.total Entry.depositedAmount := by
  simp [minted]

/-- How far a run has come and what it minted on the way. -/
structure Minted (app : App W) (history : UInt64 → List Event) (start : Cursor UInt64) (ls : List Executed)
    (t : State W) (last offset : UInt64) (delivered : List (List Event)) : Prop extends
    Reached app history start (ls.map Executed.block) t last offset delivered where
  total : (∀ l ∈ ls, l.Regular app) → minted ls = (delivered.flatten.map (depositAmount app.sdk)).sum

/-- One more block, and where it leaves the position. -/
theorem Minted.step (hlaw : app.Lawful) (hinjective : Function.Injective app.sdk.accAddressString)
    (hsealed : Sealed app) {history : UInt64 → List Event} {start : Cursor UInt64} {ls : List Executed}
    {t u : State W} {l : Executed} {last offset : UInt64} {delivered : List (List Event)}
    (h : Minted app history start ls t last offset delivered) (hstep : CommitStep app t l u)
    (hfaithful : l.block.Faithful history t) :
    ∃ last' offset' events, Minted app history start (ls ++ [l]) u last' offset' (delivered ++ [events]) ∧
      (last' = last ∨ last' = last + 1 ∧ ∃ response, l.block.sidecar (last + 1) = .ok response) := by
  obtain ⟨v, m, full, hv, haccepted, hnone, hprogress⟩ := hstep.blockStep.progress hlaw h.noIndex
  obtain rfl : v.last = last := Option.some.inj (hv.last.symm.trans h.hasLast)
  obtain rfl : v.offset = offset := Option.some.inj (hv.offset.symm.trans h.hasOffset)
  obtain ⟨events, hevents, hadvance, hplace⟩ := haccepted.advance hv hfaithful
  have hreached := h.toReached.extend hlaw haccepted hnone hprogress hevents hadvance hplace
  rw [← List.map_singleton, ← List.map_append] at hreached
  refine ⟨_, _, events, ⟨hreached, fun hregular => ?_⟩, ?_⟩
  · have htotal := h.total fun l' hl' => hregular l' (List.mem_append_left _ hl')
    have hblock := hstep.total hlaw hinjective hsealed (hregular l (by simp)) h.noIndex hv haccepted hevents
    rw [minted_snoc, htotal, hblock, List.flatten_append, List.flatten_singleton, List.map_append, List.sum_append]
  · rcases haccepted.events with hno | ⟨response, gen, hsync⟩
    · exact Or.inl (if_neg (by simp [hno.flag]))
    · cases full with
      | false => exact Or.inl rfl
      | true => exact Or.inr ⟨rfl, response, hsync.answer⟩

/-- A block accepted with a sidecar that answers from the history. -/
structure MintStep (app : App W) (history : UInt64 → List Event) (s : State W) (l : Executed) (t : State W) : Prop
    extends CommitStep app s l t where
  faithful : l.block.Faithful history s
  regular : l.Regular app

end FuelSequencer.Abci
