import FuelSequencer.App.Supply
import FuelSequencer.App.Admission

/-! # Where deposits come from

Only a message under the authority of the bridge makes a deposit. When no other module
sends such a message and the ante chain lets no native transaction carry one, every
deposit in the journal of a block belongs to an injected transaction.
-/
namespace FuelSequencer.Wiring
open Go Wire Exec Lib Bridge

variable {W : Type} {app : App W} {ctx : Ctx}

/-- The message is a deposit under the authority; any other deposit is refused. -/
def CarriesDeposit (app : App W) : Msg → Prop
  | .depositFromEthereum m => m.authority = app.keeper.authority
  | _ => False

/-- No message with the property is sent, whatever the calls answer. -/
def Routed.Avoids (p : Msg → Prop) : Routed W → Prop
  | .done _ => True
  | .fail _ _ => True
  | .call _ m next => ¬ p m ∧ ∀ w, (next w).Avoids p
  | .scope body next => body.Avoids p ∧ ∀ fault w, (next fault w).Avoids p

/-- The authority signs nothing itself: other modules do not send its deposits, the ante chain
refuses them in a native transaction, and whoever signs one signs as the authority. -/
structure Sealed (app : App W) : Prop where
  routed : ∀ ctx any w, (app.modules.handleOther ctx any w).Avoids (CarriesDeposit app)
  closing : ∀ ctx w, (app.modules.endBlockBefore ctx w).Avoids (CarriesDeposit app)
  native : ∀ {ctx txBz tx w w' m u}, m ∈ tx.msgs → CarriesDeposit app m →
    (app.modules.anteRest ctx txBz tx).run w ≠ .ok u w'
  signed : ∀ {m signers}, CarriesDeposit app m → app.sdk.getMsgV1Signers m = .ok signers →
    ∃ signer ∈ signers, app.sdk.accAddressString signer = app.keeper.authority

/-! ## Journals without a deposit -/

def Undeposited (j : Journal) : Prop := ∀ amount, Entry.deposited amount ∉ j

theorem undeposited_nil : Undeposited [] := by simp [Undeposited]

theorem Undeposited.append {j j' : Journal} (h : Undeposited j) (h' : Undeposited j') : Undeposited (j ++ j') := by
  intro amount hmem
  rcases List.mem_append.mp hmem with hmem | hmem
  · exact h amount hmem
  · exact h' amount hmem

theorem undeposited_pass (pass : Pass) : Undeposited pass.journal := by
  cases pass <;> simp [Undeposited, Pass.journal]

theorem Undeposited.total_eq_zero {j : Journal} (h : Undeposited j) : j.total Entry.depositedAmount = 0 := by
  refine List.sum_eq_zero fun x hx => ?_
  obtain ⟨e, he, rfl⟩ := List.mem_map.mp hx
  cases e with
  | deposited amount => exact absurd he (h amount)
  | _ => rfl

theorem undeposited_flatMap {outcomes : List TxOutcome} (h : ∀ o ∈ outcomes, Undeposited o.journal) :
    Undeposited (outcomes.flatMap TxOutcome.journal) := by
  intro amount hmem
  obtain ⟨o, ho, hj⟩ := List.mem_flatMap.mp hmem
  exact h o ho amount hj

theorem undeposited_replyJournal {α : Type} (r : Reply α) {entry : α → Entry}
    (h : ∀ a amount, entry a ≠ .deposited amount) : Undeposited (replyJournal r entry) := by
  intro amount hmem
  unfold replyJournal at hmem
  split at hmem
  · exact h _ amount (List.mem_singleton.mp hmem).symm
  · simp at hmem

/-- A computation that never leaves a deposit in its journal. -/
def NoDeposit (x : Run W Journal) : Prop := ∀ ⦃s t j⦄, x.run s = .ok j t → Undeposited j

theorem noDeposit_pure {j : Journal} (h : Undeposited j) : NoDeposit (pure j : Run W Journal) := by
  intro s t j' hrun
  obtain ⟨rfl, -⟩ := run_pure_eq_ok.mp hrun
  exact h

theorem NoDeposit.bind {α : Type} (x : Run W α) {f : α → Run W Journal} (hf : ∀ a, NoDeposit (f a)) :
    NoDeposit (x >>= f) := by
  intro s t j h
  obtain ⟨a, u, -, h⟩ := run_bind_eq_ok.mp h
  exact hf a h

theorem NoDeposit.append {x y : Run W Journal} (hx : NoDeposit x) (hy : NoDeposit y) : NoDeposit (do
    let journal ← x
    let rest ← y
    return journal ++ rest) := by
  intro s t j h
  obtain ⟨journal, u, hu, h⟩ := run_bind_eq_ok.mp h
  obtain ⟨rest, v, hv, h⟩ := run_bind_eq_ok.mp h
  obtain ⟨rfl, rfl⟩ := run_pure_eq_ok.mp h
  exact (hx hu).append (hy hv)

/-! ## Messages -/

/-- A deposit under another authority fails. -/
theorem noDeposit_unauthorised {m : MsgDepositFromEthereum} (h : m.authority ≠ app.keeper.authority)
    (entry : Unit → Entry) : NoDeposit (do
      let r ← handleDepositFromEthereum app m
      return replyJournal r entry) := by
  intro s t j hrun
  obtain ⟨r, u, hr, -⟩ := run_bind_eq_ok.mp hrun
  obtain ⟨ended, v, hv, -⟩ := run_bind_eq_ok.mp hr
  rw [run_tryExec_of_signer (Ne.symm h)] at hv
  cases hv

theorem handleBridge_noDeposit {m : Msg} (h : ¬ CarriesDeposit app m) : NoDeposit (handleBridge app ctx m) := by
  apply NoDeposit.bind
  intro _
  cases m with
  | depositFromEthereum m => exact noDeposit_unauthorised h _
  | supplyDelta m =>
    apply NoDeposit.bind
    intro r
    apply NoDeposit.bind
    intro _
    exact noDeposit_pure (undeposited_replyJournal r fun _ _ heq => by cases heq)
  | index m =>
    apply NoDeposit.bind
    intro store
    apply NoDeposit.bind
    intro r
    exact noDeposit_pure (undeposited_replyJournal r fun _ _ heq => by cases heq)
  | skippedEventTx m =>
    apply NoDeposit.bind
    intro r
    exact noDeposit_pure (undeposited_replyJournal r fun _ _ heq => by cases heq)
  | other a =>
    intro s t j hrun
    cases hrun
  | _ =>
    apply NoDeposit.bind
    intro _
    exact noDeposit_pure (by simp [Undeposited])

theorem runRouted_noDeposit {x : Routed W} (h : x.Avoids (CarriesDeposit app)) :
    NoDeposit (runRouted app ctx x) := by
  induction x with
  | done w => exact NoDeposit.bind _ fun _ => noDeposit_pure undeposited_nil
  | fail fault w =>
    apply NoDeposit.bind
    intro _ s t j hrun
    cases hrun
  | call w m next ih =>
    apply NoDeposit.bind
    intro _ s t j hrun
    simp only [run_bind_eq_ok, run_get_eq_ok, run_pure_eq_ok] at hrun
    obtain ⟨journal, u, hcall, _, _, ⟨rfl, rfl⟩, rest, v, hrest, rfl, rfl⟩ := hrun
    exact (handleBridge_noDeposit h.1 hcall).append (ih _ (h.2 _) hrest)
  | scope body next ihb ihn =>
    intro s t j hrun
    rw [runRouted] at hrun
    obtain ⟨r, u, hr, hnext⟩ := run_bind_eq_ok.mp hrun
    rcases run_caught_isolated_eq_ok.mp hr with ⟨journal, rfl, hbody⟩ | ⟨fault, _, rfl, -, rfl⟩
    · simp only [run_bind_eq_ok, run_get_eq_ok, run_pure_eq_ok] at hnext
      obtain ⟨_, _, ⟨rfl, rfl⟩, rest, v, hrest, rfl, rfl⟩ := hnext
      exact (ihb h.1 hbody).append (ihn none _ (h.2 none _) hrest)
    · simp only [run_bind_eq_ok, run_get_eq_ok] at hnext
      obtain ⟨_, _, ⟨rfl, rfl⟩, hrest⟩ := hnext
      exact ihn (some fault) _ (h.2 (some fault) _) hrest

theorem handleMsg_noDeposit (hsealed : Sealed app) {m : Msg} (h : ¬ CarriesDeposit app m) :
    NoDeposit (handleMsg app ctx m) := by
  cases m with
  | other a =>
    apply NoDeposit.bind
    intro _
    apply NoDeposit.bind
    intro s
    exact runRouted_noDeposit (hsealed.routed ctx a s.world)
  | _ =>
    change NoDeposit (handleBridge app ctx _)
    exact handleBridge_noDeposit h

theorem runMsgs_noDeposit (hsealed : Sealed app) {msgs : List Msg} (h : ∀ m ∈ msgs, ¬ CarriesDeposit app m) :
    NoDeposit (runMsgs app ctx msgs) := by
  induction msgs with
  | nil => exact noDeposit_pure undeposited_nil
  | cons m msgs ih =>
    exact (handleMsg_noDeposit hsealed (h m List.mem_cons_self)).append
      (ih fun m' hm' => h m' (List.mem_cons_of_mem _ hm'))

theorem closeOthers_noDeposit (hsealed : Sealed app) : NoDeposit (closeOthers app ctx) := by
  apply NoDeposit.bind
  intro s
  exact runRouted_noDeposit (hsealed.closing ctx s.world)

/-- The authority's own deposit ends normally: it is made, or its failure is recorded. -/
theorem run_handleBridge_deposit {m : MsgDepositFromEthereum} (hauth : m.authority = app.keeper.authority)
    (ctx : Ctx) (s : State W) : ∃ j t, (handleBridge app ctx (.depositFromEthereum m)).run s = .ok j t ∧
      (j = [.failed] ∨ j = [.deposited ((app.sdk.newIntFromString m.amount).getD 0)]) := by
  have hvalid : (ofOutcome (wrapping id ((Msg.depositFromEthereum m).validateBasic app.sdk)) : Run W Unit).run s =
      .ok () s := rfl
  unfold handleBridge
  rw [run_bind_of_ok hvalid]
  cases hbody : (depositFromEthereum app m).run s with
  | ok a t =>
    have hreply : (handleDepositFromEthereum app m).run s = .ok (reply () (.ok a)) t := by
      rw [handleDepositFromEthereum, run_bind_of_ok (run_tryExec_of_ok hauth.symm hbody)]
      rfl
    exact ⟨_, t, run_bind_of_ok hreply, Or.inr rfl⟩
  | error e t =>
    have hreply : (handleDepositFromEthereum app m).run s =
        .ok (reply () (.error e)) { s with bridge := s.bridge.recordFailure } := by
      rw [handleDepositFromEthereum, run_bind_of_ok (run_tryExec_of_error hauth.symm hbody)]
      rfl
    exact ⟨_, _, run_bind_of_ok hreply, Or.inl rfl⟩

/-! ## Transactions -/

section Tx

variable {txBz : Bytes} {tx : Tx} {s t u : State W} {o : TxOutcome} {pass : Pass}

theorem run_runTx_of_ante_error {fault : Fault GoString} (hreach : reachesDecorator app ctx txBz = .ok tx)
    (hante : (anteHandler app ctx .finalize txBz tx).run s = .error fault u) :
    (runTx app ctx txBz).run s = .ok ⟨some .native, [], some fault⟩ s := by
  unfold runTx
  rw [hreach]
  exact run_bind_of_ok (run_caught_of_error (run_isolated_of_error hante))

theorem run_runTx_of_ante {j : Journal} (hreach : reachesDecorator app ctx txBz = .ok tx)
    (hante : (anteHandler app ctx .finalize txBz tx).run s = .ok pass u)
    (hmsgs : (runMsgsMetered app ctx txBz tx pass).run u = .ok j t) :
    (runTx app ctx txBz).run s = .ok ⟨some pass, pass.journal ++ j, none⟩ t := by
  unfold runTx
  rw [hreach]
  dsimp only
  rw [run_bind_of_ok (run_caught_of_ok (run_isolated_of_ok hante))]
  exact run_bind_of_ok (run_caught_of_ok (run_isolated_of_ok hmsgs))

theorem run_runTx_of_messages_error {fault : Fault GoString} (hreach : reachesDecorator app ctx txBz = .ok tx)
    (hante : (anteHandler app ctx .finalize txBz tx).run s = .ok pass u)
    (hmsgs : (runMsgsMetered app ctx txBz tx pass).run u = .error fault t) :
    (runTx app ctx txBz).run s = .ok ⟨some pass, pass.journal, some fault⟩ u := by
  unfold runTx
  rw [hreach]
  dsimp only
  rw [run_bind_of_ok (run_caught_of_ok (run_isolated_of_ok hante))]
  exact run_bind_of_ok (run_caught_of_error (run_isolated_of_error hmsgs))

theorem pass_of_runTx (hreach : reachesDecorator app ctx txBz = .ok tx)
    (hante : (anteHandler app ctx .finalize txBz tx).run s = .ok pass u)
    (h : (runTx app ctx txBz).run s = .ok o t) : o.pass = some pass := by
  cases hmsgs : (runMsgsMetered app ctx txBz tx pass).run u with
  | ok j v =>
    rw [run_runTx_of_ante hreach hante hmsgs] at h
    rw [← (EStateM.Result.ok.inj h).1]
  | error fault v =>
    rw [run_runTx_of_messages_error hreach hante hmsgs] at h
    rw [← (EStateM.Result.ok.inj h).1]

/-- A single message without a limit on the gas. -/
theorem run_runMsgsMetered_single {m : Msg} {j : Journal} (hmsgs : tx.msgs = [m]) (hpass : pass ≠ .native)
    (h : (handleMsg app ctx m).run s = .ok j t) : (runMsgsMetered app ctx txBz tx pass).run s = .ok j t := by
  have hrun : (runMsgs app ctx tx.msgs).run s = .ok j t := by
    rw [hmsgs]
    refine (run_bind_of_ok h).trans ?_
    exact congrArg (EStateM.Result.ok · t) (List.append_nil j)
  have hgas : (failIf (pass = .native ∧ app.modules.outOfGas ctx txBz tx s.world)
      (Fault.panic (str "out of gas")) : Run W Unit).run t = .ok () t :=
    run_failIf_eq_ok.mpr ⟨fun habs => hpass habs.1, rfl⟩
  refine (run_bind_of_ok (rfl : (get : Run W (State W)).run s = .ok s s)).trans ?_
  rw [run_bind_of_ok hrun, run_bind_of_ok hgas]
  rfl

/-- A transaction whose messages do not run to their end leaves no deposit. -/
theorem runTx_cases (h : (runTx app ctx txBz).run s = .ok o t) : Undeposited o.journal ∨
    ∃ tx pass u j, reachesDecorator app ctx txBz = .ok tx ∧
      (anteHandler app ctx .finalize txBz tx).run s = .ok pass u ∧
      (runMsgsMetered app ctx txBz tx pass).run u = .ok j t ∧ o = ⟨some pass, pass.journal ++ j, none⟩ := by
  cases hreach : reachesDecorator app ctx txBz with
  | error err =>
    unfold runTx at h
    rw [hreach] at h
    obtain ⟨rfl, rfl⟩ := run_pure_eq_ok.mp h
    exact Or.inl undeposited_nil
  | ok tx =>
    cases hante : (anteHandler app ctx .finalize txBz tx).run s with
    | error fault u =>
      rw [run_runTx_of_ante_error hreach hante] at h
      obtain ⟨rfl, rfl⟩ := EStateM.Result.ok.inj h
      exact Or.inl undeposited_nil
    | ok pass u =>
      cases hmsgs : (runMsgsMetered app ctx txBz tx pass).run u with
      | error fault v =>
        rw [run_runTx_of_messages_error hreach hante hmsgs] at h
        obtain ⟨rfl, rfl⟩ := EStateM.Result.ok.inj h
        exact Or.inl (undeposited_pass pass)
      | ok j v =>
        rw [run_runTx_of_ante hreach hante hmsgs] at h
        obtain ⟨rfl, rfl⟩ := EStateM.Result.ok.inj h
        exact Or.inr ⟨tx, pass, u, j, rfl, hante, hmsgs, rfl⟩

theorem runMsgsMetered_noDeposit (hsealed : Sealed app) (h : ∀ m ∈ tx.msgs, ¬ CarriesDeposit app m) :
    NoDeposit (runMsgsMetered app ctx txBz tx pass) := by
  apply NoDeposit.bind
  intro s₀ s t j hrun
  simp only [run_bind_eq_ok, run_failIf_eq_ok, run_pure_eq_ok] at hrun
  obtain ⟨journal, _, hmsgs, _, _, ⟨-, rfl⟩, rfl, rfl⟩ := hrun
  exact runMsgs_noDeposit hsealed h hmsgs

/-- A transaction without the authority's deposits leaves none. -/
theorem runTx_undeposited_of_messages (hsealed : Sealed app)
    (hmsgs : ∀ tx, reachesDecorator app ctx txBz = .ok tx → ∀ m ∈ tx.msgs, ¬ CarriesDeposit app m)
    (h : (runTx app ctx txBz).run s = .ok o t) : Undeposited o.journal := by
  rcases runTx_cases h with hnone | ⟨tx, pass, u, j, hreach, -, hrun, rfl⟩
  · exact hnone
  · exact (undeposited_pass pass).append (runMsgsMetered_noDeposit hsealed (hmsgs tx hreach) hrun)

/-- A transaction that is not exempt from the ante chain leaves no deposit. -/
theorem runTx_undeposited_of_native (hsealed : Sealed app) (hnative : ¬ o.Exempt)
    (h : (runTx app ctx txBz).run s = .ok o t) : Undeposited o.journal := by
  rcases runTx_cases h with hnone | ⟨tx, pass, u, j, hreach, hante, hrun, rfl⟩
  · exact hnone
  · have hpass : pass = .native := by
      cases pass with
      | native => rfl
      | first => exact absurd (Or.inl rfl) hnative
      | injected => exact absurd (Or.inr rfl) hnative
    subst hpass
    refine (undeposited_pass _).append (runMsgsMetered_noDeposit hsealed ?_ hrun)
    intro m hm hcarries
    -- the rest of the chain ran for this transaction, and let it pass
    simp only [anteHandler, run_bind_eq_ok, run_pure_eq_ok, run_onlyIf] at hante
    obtain ⟨pass, v, -, _, v', hrest, rfl, rfl⟩ := hante
    simp only [decide_true, if_true, run_bind_eq_ok] at hrest
    obtain ⟨_, v'', -, hworld⟩ := hrest
    cases hw : (app.modules.anteRest ctx txBz tx).run v''.world with
    | error e w =>
      rw [run_inWorld_of_error hw] at hworld
      cases hworld
    | ok a w => exact hsealed.native hm hcarries hw

end Tx

/-- In the journal of a committed block nothing failed. -/
theorem not_failed_of_finalizeBlock (hlaw : app.sdk.Lawful) {txs : List Bytes} {s t : State W} {r : BlockResult}
    (hnone : s.bridge.index = none) (h : (finalizeBlock app ctx txs).run s = .ok r t)
    (hlen : r.journal.length < 2 ^ 64) : Entry.failed ∉ r.journal := by
  obtain ⟨s₁, s₂, s₃, i, hopen, -, -, hfollows, hi, hsettled, -⟩ := finalizeBlock_follows hlaw h
  obtain ⟨delta, supply, -, hbegun⟩ := openBlock_bridge hopen
  have htally : Tally r.journal s₃.bridge.index := tally_of_follows hfollows (by rw [hbegun]; exact hnone)
  obtain ⟨-, -, -, hfailed, -⟩ := (htally.settled_iff hlen).mp ⟨i, hi, hsettled⟩
  exact hfailed

end FuelSequencer.Wiring
