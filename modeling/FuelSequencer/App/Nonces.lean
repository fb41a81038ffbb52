import FuelSequencer.App.Journal
import FuelSequencer.App.Reference

/-! # The Ethereum nonce

Posting a blob, withdrawing and reporting the supply delta answer with the next nonce of
one counter. The nonces of the answers are consecutive over any interleaving of the three;
a message that fails takes none.
-/
namespace FuelSequencer.Wiring
open Go Wire Exec Lib Bridge

variable {W : Type} {app : App W} {s t : State W}

/-- The messages that answer with a nonce. -/
inductive NonceMsg where
  | postBlob (m : Sequencing.MsgPostBlob)
  | withdrawToEthereum (m : MsgWithdrawToEthereum)
  | supplyDelta (m : MsgSupplyDelta)

/-- Handles the message and yields the nonce of its response; a supply delta message that
failed ends normally and answers without one. -/
def handleNonceMsg (app : App W) (ctx : Ctx) : NonceMsg → Run W (Option ℤ)
  | .postBlob m => do
    let r ← Sequencing.postBlob app m
    return some r.nonce
  | .withdrawToEthereum m => do
    let r ← handleWithdrawToEthereum app m
    return some r.nonce
  | .supplyDelta m => do
    let r ← handleSupplyDelta app ctx m
    failIf (r.response.isNone) errNilPointer
    return r.response.bind MsgSupplyDeltaResponse.nonce

/-- A message and the nonce of its response, if it succeeded. -/
structure Answer where
  msg : NonceMsg
  nonce : Option ℤ

/-- One message. Whatever does not touch the nonce may have happened since the last one. The
writes of a message that fails, or whose transaction fails, are rolled back. -/
inductive NonceStep (app : App W) : State W → Answer → State W → Prop where
  | executed {s s' t : State W} {ctx : Ctx} {msg : NonceMsg} {nonce : Option ℤ}
      (same : s'.bridge.lastEthereumNonce = s.bridge.lastEthereumNonce)
      (h : (handleNonceMsg app ctx msg).run s' = .ok nonce t) : NonceStep app s ⟨msg, nonce⟩ t
  | rolledBack {s s' : State W} (msg : NonceMsg)
      (same : s'.bridge.lastEthereumNonce = s.bridge.lastEthereumNonce) : NonceStep app s ⟨msg, none⟩ s'

/-! ## One message -/

/-- What a handled message does to the counter: it takes the next nonce, or none. -/
theorem handleNonceMsg_nonce (hlaw : app.sdk.Lawful) {ctx : Ctx} {msg : NonceMsg} {nonce : Option ℤ}
    (h : (handleNonceMsg app ctx msg).run s = .ok nonce t) :
    (∃ n, s.bridge.lastEthereumNonce = some n ∧ nonce = some (n + 1) ∧
      t.bridge.lastEthereumNonce = some (n + 1)) ∨
    (nonce = none ∧ t.bridge.lastEthereumNonce = s.bridge.lastEthereumNonce) := by
  cases msg with
  | postBlob m =>
    obtain ⟨r, _, hr, h⟩ := run_bind_eq_ok.mp h
    obtain ⟨rfl, rfl⟩ := run_pure_eq_ok.mp h
    obtain ⟨topic, n, hposted, rfl, rfl⟩ := Sequencing.run_postBlob_eq_ok.mp hr
    exact Or.inl ⟨n, hposted.last, rfl, rfl⟩
  | withdrawToEthereum m =>
    obtain ⟨r, _, hr, h⟩ := run_bind_eq_ok.mp h
    obtain ⟨rfl, rfl⟩ := run_pure_eq_ok.mp h
    obtain ⟨info, n, -, hn, hnonce, hbridge⟩ := handleWithdrawToEthereum_bridge hlaw hr
    exact Or.inl ⟨n, hn, congrArg some hnonce, by rw [hbridge]⟩
  | supplyDelta m =>
    simp only [handleNonceMsg, handleSupplyDelta, run_bind_eq_ok (x := tryExecSpecialMessage _ _ _),
      run_bind_eq_ok, run_failIf_eq_ok, run_pure_eq_ok] at h
    obtain ⟨_, _, ⟨ended, _, hended, rfl, rfl⟩, _, _, ⟨-, rfl⟩, rfl, rfl⟩ := h
    by_cases hs : app.keeper.authority = m.authority
    · cases hbody : (supplyDelta app ctx).run s with
      | ok a v =>
        rw [run_tryExec_of_ok hs hbody] at hended
        cases hended
        obtain ⟨n, info, hready, rfl, rfl⟩ := (run_supplyDelta_eq_ok hlaw).mp hbody
        exact Or.inl ⟨n, hready.hasNonce, rfl, rfl⟩
      | error e v =>
        rw [run_tryExec_of_error hs hbody] at hended
        cases hended
        refine Or.inr ⟨?_, rfl⟩
        cases e <;> rfl
    · rw [run_tryExec_of_signer hs] at hended
      cases hended

/-! ## Runs -/

/-- The nonces answered so far, in order. -/
def nonces (log : List Answer) : List ℤ := log.filterMap Answer.nonce

/-- The nonces answered since `n₀` are consecutive and the counter stands at the last of them. -/
structure Counted (n₀ : ℤ) (log : List Answer) (t : State W) : Prop where
  consecutive : nonces log = (List.range (nonces log).length).map fun i : ℕ => n₀ + 1 + i
  counter : t.bridge.lastEthereumNonce = some (n₀ + (nonces log).length)

theorem Counted.step (hlaw : app.sdk.Lawful) {n₀ : ℤ} {log : List Answer} {a : Answer} (h : Counted n₀ log s)
    (hstep : NonceStep app s a t) : Counted n₀ (log ++ [a]) t := by
  have hnone : ∀ {msg : NonceMsg}, nonces (log ++ [⟨msg, none⟩]) = nonces log := by
    intro msg
    simp [nonces]
  have hsome : ∀ {msg : NonceMsg} {n : ℤ}, nonces (log ++ [⟨msg, some n⟩]) = nonces log ++ [n] := by
    intro msg n
    simp [nonces]
  cases hstep with
  | executed same hrun =>
    rcases handleNonceMsg_nonce hlaw hrun with ⟨n, hn, rfl, ht⟩ | ⟨rfl, ht⟩
    · have hlast : n = n₀ + (nonces log).length :=
        Option.some.inj (hn.symm.trans (same.trans h.counter))
      constructor
      · rw [hsome, List.length_append, List.length_singleton, List.range_succ, List.map_append,
          ← h.consecutive, List.map_singleton, hlast]
        ring_nf
      · rw [ht, hsome, hlast, List.length_append, List.length_singleton]
        push_cast
        ring_nf
    · refine ⟨by rw [hnone]; exact h.consecutive, ?_⟩
      rw [ht, same, hnone]
      exact h.counter
  | rolledBack msg same =>
    refine ⟨by rw [hnone]; exact h.consecutive, ?_⟩
    rw [same, hnone]
    exact h.counter

/-- Over every interleaving of the three messages the nonces of the answers are the consecutive
numbers after the first counter, and after each success the counter is the nonce answered. -/
theorem nonces_consecutive (hlaw : app.sdk.Lawful) {n₀ : ℤ} {log : List Answer}
    (hn : s.bridge.lastEthereumNonce = some n₀) (hrun : Runs (NonceStep app) s log t) :
    nonces log = (List.range (nonces log).length).map (fun i : ℕ => n₀ + 1 + i) ∧
      t.bridge.lastEthereumNonce = some (n₀ + (nonces log).length) ∧
      ∀ earlier msg n, log = earlier ++ [⟨msg, some n⟩] → t.bridge.lastEthereumNonce = some n := by
  have hcounted : Counted n₀ log t := hrun.invariant (I := Counted n₀)
    ⟨rfl, by simpa [nonces] using hn⟩ fun h hstep => h.step hlaw hstep
  refine ⟨hcounted.consecutive, hcounted.counter, ?_⟩
  rintro earlier msg n rfl
  have hlast := congrArg List.getLast? hcounted.consecutive
  have hsplit : nonces (earlier ++ [⟨msg, some n⟩]) = nonces earlier ++ [n] := by simp [nonces]
  rw [hsplit, List.getLast?_concat, List.length_append, List.length_singleton, List.range_succ, List.map_append,
    List.map_singleton, List.getLast?_concat] at hlast
  rw [hcounted.counter, hsplit, List.length_append, List.length_singleton, Option.some.inj hlast]
  push_cast
  ring_nf

/-- A post, a withdrawal that is rolled back, and the report at a supply delta height. -/
def referenceNonceMsgs : NonceMsg × NonceMsg × NonceMsg :=
  (.postBlob ⟨Reference.bech32String Reference.depositor, List.replicate 32 1, some 0, str "blob"⟩,
    .withdrawToEthereum ⟨Reference.bech32String Reference.depositor, Reference.ethText Reference.recipient,
      ⟨Reference.ufuel, 5⟩⟩,
    .supplyDelta ⟨Reference.authority⟩)

theorem nonces_consecutive_reference : ∃ t,
    Runs (NonceStep Reference.app) Reference.state [⟨referenceNonceMsgs.1, some 1⟩,
      ⟨referenceNonceMsgs.2.1, none⟩, ⟨referenceNonceMsgs.2.2, some 2⟩] t ∧
    t.bridge.lastEthereumNonce = some 2 := by
  have h₀ := eq_ok_of_value (by decide +kernel : value
    ((handleNonceMsg Reference.app ⟨10, 0⟩ referenceNonceMsgs.1).run Reference.state) = some (some 1))
  have h₁ := eq_ok_of_value (by decide +kernel : value
    ((handleNonceMsg Reference.app ⟨10, 0⟩ referenceNonceMsgs.2.2).run
      (final ((handleNonceMsg Reference.app ⟨10, 0⟩ referenceNonceMsgs.1).run Reference.state))) = some (some 2))
  have hrun := Runs.cons (NonceStep.executed rfl h₀) (Runs.cons (NonceStep.rolledBack referenceNonceMsgs.2.1 rfl)
    (Runs.single (NonceStep.executed rfl h₁)))
  exact ⟨_, hrun, (nonces_consecutive Reference.sdk_lawful rfl hrun).2.2 [_, _] _ 2 rfl⟩

/-! ## Blocks -/

/-- The entries of the messages that answer with a nonce. -/
def Entry.takesNonce : Entry → Bool
  | .reported _ | .withdrawn _ | .posted _ => true
  | _ => false

/-- Nothing else in a journal moves the counter. -/
theorem nonce_of_follows {ctx : Ctx} {b b' : Store} {j : Journal} {n : ℤ} (h : Follows ctx b j b')
    (hn : b.lastEthereumNonce = some n) : b'.lastEthereumNonce = some (n + j.countP Entry.takesNonce) := by
  refine h.invariant (I := fun j b' => b'.lastEthereumNonce = some (n + j.countP Entry.takesNonce))
    (by simpa using hn) ?_
  intro j b e b' hb hstep
  have hnext : ∀ {m : ℤ}, b.lastEthereumNonce = some m → e.takesNonce = true →
      some (m + 1) = some (n + (j ++ [e]).countP Entry.takesNonce) := by
    intro m hm he
    rw [Option.some.inj (hm.symm.trans hb), List.countP_append, List.countP_singleton, he, if_pos rfl]
    push_cast
    ring_nf
  have hsame : e.takesNonce = false →
      b.lastEthereumNonce = some (n + (j ++ [e]).countP Entry.takesNonce) := by
    intro he
    rw [hb, List.countP_append, List.countP_singleton, he]
    simp
  cases hstep with
  | reported ready => exact hnext ready.hasNonce rfl
  | withdrawn amount hinfo hnonce => exact hnext hnonce rfl
  | posted hnonce => exact hnext hnonce rfl
  | _ => exact hsame rfl

/-- A committed block moves the counter by the number of its messages that answer with a nonce. -/
theorem nonce_of_finalizeBlock (hlaw : app.sdk.Lawful) {ctx : Ctx} {txs : List Bytes} {r : BlockResult} {n : ℤ}
    (h : (finalizeBlock app ctx txs).run s = .ok r t) (hn : s.bridge.lastEthereumNonce = some n) :
    t.bridge.lastEthereumNonce = some (n + r.journal.countP Entry.takesNonce) := by
  obtain ⟨s₁, s₂, s₃, i, hopen, -, -, hfollows, -, -, hend⟩ := finalizeBlock_follows hlaw h
  obtain ⟨delta, supply, -, hbegun⟩ := openBlock_bridge hopen
  have hstart : s₁.bridge.lastEthereumNonce = some n := by
    rw [hbegun]
    exact hn
  have hclose := nonce_of_follows hfollows hstart
  rw [hend]
  exact hclose

end FuelSequencer.Wiring
