import FuelSequencer.App.Gate

/-! # Which transactions skip the rest of the ante chain

While the index announces more injected transactions than were counted, every
transaction that reaches the decorator is let through; from then on none is.
-/
namespace FuelSequencer.Wiring
open Go Wire Exec Lib Bridge

variable {W : Type} {app : App W} {ctx : Ctx}

/-- The transaction skips the checks of signatures, fees and account sequences. -/
def TxOutcome.Exempt (o : TxOutcome) : Prop := o.pass = some .first ∨ o.pass = some .injected

/-! ## Messages leave the counts alone -/

theorem follows_index_of_set {b b' : Store} {j : Journal} {i : Index} (h : Follows ctx b j b')
    (hj : Entry.counted ∉ j) (hi : b.index = some i) :
    ∃ f, b'.index = some { i with numFailedSpecialTxs := f } := by
  refine h.invariant (I := fun j b => Entry.counted ∉ j →
    ∃ f, b.index = some { i with numFailedSpecialTxs := f }) (fun _ => ⟨_, hi⟩) ?_ hj
  intro j t e u ih hstep hnot
  obtain ⟨f, hf⟩ := ih fun hmem => hnot (List.mem_append_left _ hmem)
  rw [hstep.index_eq, hf]
  cases hstep with
  | indexed ready =>
    rw [ready.noIndex] at hf
    cases hf
  | failed => exact ⟨f + 1, rfl⟩
  | counted => exact absurd (by simp) hnot
  | _ => exact ⟨f, rfl⟩

/-! ## One transaction -/

/-- What a transaction with the index set does to the counts. -/
theorem runTx_pass (hlaw : app.sdk.Lawful) (hheight : ctx.blockHeight ≠ 0) {txBz : Bytes} {s t : State W}
    {o : TxOutcome} {i : Index} (hi : s.bridge.index = some i)
    (h : (runTx app ctx txBz).run s = .ok o t) :
    (∃ err, reachesDecorator app ctx txBz = .error err ∧ o.pass = none ∧ t.bridge.index = some i) ∨
      ∃ tx f, reachesDecorator app ctx txBz = .ok tx ∧
        if i.numInjectedTxsAnte < i.numInjectedTxsTotal then o.pass = some .injected ∧
          t.bridge.index = some ⟨i.numInjectedTxsTotal, i.numInjectedTxsAnte + 1, f⟩
        else o.pass = some .native ∧ t.bridge.index = some { i with numFailedSpecialTxs := f } := by
  obtain ⟨o', t', h', hcases⟩ := run_runTx_cases hlaw ctx txBz s
  rw [h'] at h
  obtain ⟨rfl, rfl⟩ := EStateM.Result.ok.inj h
  rcases hcases with ⟨err, herr, rfl, rfl⟩ | ⟨tx, pass, s₁, j, htx, hpass, ho, -, -, hmsgs, hj⟩
  · exact Or.inl ⟨err, herr, rfl, hi⟩
  · rw [run_injectedTxsDecorator, if_neg (by simp [hheight]), hi] at hpass
    dsimp only at hpass
    refine Or.inr ⟨tx, ?_⟩
    by_cases hopen : i.numInjectedTxsAnte < i.numInjectedTxsTotal
    · rw [if_pos hopen] at hpass
      obtain ⟨rfl, rfl⟩ := EStateM.Result.ok.inj hpass
      obtain ⟨f, hf⟩ := follows_index_of_set hmsgs hj rfl
      exact ⟨f, htx, by rw [if_pos hopen]; exact ⟨ho, hf⟩⟩
    · rw [if_neg hopen] at hpass
      obtain ⟨rfl, rfl⟩ := EStateM.Result.ok.inj hpass
      obtain ⟨f, hf⟩ := follows_index_of_set hmsgs hj hi
      exact ⟨f, htx, by rw [if_neg hopen]; exact ⟨ho, hf⟩⟩

/-! ## All transactions of a block -/

theorem deliverTxs_cons_eq_ok {txBz : Bytes} {txs : List Bytes} {s t : State W}
    {outcomes : List TxOutcome} :
    (deliverTxs app ctx (txBz :: txs)).run s = .ok outcomes t ↔ ∃ o u rest,
      (runTx app ctx txBz).run s = .ok o u ∧ (deliverTxs app ctx txs).run u = .ok rest t ∧
      outcomes = o :: rest := by
  simp only [deliverTxs, run_bind_eq_ok, run_pure_eq_ok]
  constructor
  · rintro ⟨o, u, hu, rest, v, hrest, rfl, rfl⟩
    exact ⟨o, u, rest, hu, hrest, rfl⟩
  · rintro ⟨o, u, rest, hu, hrest, rfl⟩
    exact ⟨o, u, hu, rest, t, hrest, rfl, rfl⟩

theorem deliverTxs_append_eq_ok {xs ys : List Bytes} {s t : State W} {outcomes : List TxOutcome}
    (h : (deliverTxs app ctx (xs ++ ys)).run s = .ok outcomes t) : ∃ o₁ u o₂,
      (deliverTxs app ctx xs).run s = .ok o₁ u ∧ (deliverTxs app ctx ys).run u = .ok o₂ t ∧
      outcomes = o₁ ++ o₂ := by
  induction xs generalizing s outcomes with
  | nil => exact ⟨[], s, outcomes, rfl, h, rfl⟩
  | cons txBz xs ih =>
    obtain ⟨o, u, rest, hu, hrest, rfl⟩ := deliverTxs_cons_eq_ok.mp h
    obtain ⟨o₁, v, o₂, h₁, h₂, rfl⟩ := ih hrest
    exact ⟨o :: o₁, v, o₂, deliverTxs_cons_eq_ok.mpr ⟨o, u, o₁, hu, h₁, rfl⟩, h₂, rfl⟩

theorem length_deliverTxs {txs : List Bytes} {s t : State W} {outcomes : List TxOutcome}
    (h : (deliverTxs app ctx txs).run s = .ok outcomes t) : outcomes.length = txs.length := by
  induction txs generalizing s outcomes with
  | nil =>
    obtain ⟨rfl, rfl⟩ := run_pure_eq_ok.mp h
    rfl
  | cons txBz txs ih =>
    obtain ⟨o, u, rest, -, hrest, rfl⟩ := deliverTxs_cons_eq_ok.mp h
    rw [List.length_cons, List.length_cons, ih hrest]

/-- A transaction that the decorator saw had passed the checks before it. -/
theorem reaches_of_deliverTxs (hlaw : app.sdk.Lawful) {txs : List Bytes} {s t : State W}
    {outcomes : List TxOutcome} (h : (deliverTxs app ctx txs).run s = .ok outcomes t) {k : ℕ}
    {txBz : Bytes} {o : TxOutcome} (htx : txs[k]? = some txBz) (ho : outcomes[k]? = some o)
    (hpass : o.pass ≠ none) : ∃ tx, reachesDecorator app ctx txBz = .ok tx := by
  induction txs generalizing s outcomes k with
  | nil => cases htx
  | cons txBz' txs ih =>
    obtain ⟨o', u, rest, hu, hrest, rfl⟩ := deliverTxs_cons_eq_ok.mp h
    cases k with
    | succ k => exact ih hrest (by simpa using htx) (by simpa using ho)
    | zero =>
      cases htx
      cases ho
      obtain ⟨o', t', h', hcases⟩ := run_runTx_cases hlaw ctx txBz s
      rw [h'] at hu
      obtain ⟨rfl, rfl⟩ := EStateM.Result.ok.inj hu
      rcases hcases with ⟨err, -, rfl, -⟩ | ⟨tx, _, _, _, htx, -⟩
      · exact absurd rfl hpass
      · exact ⟨tx, htx⟩

/-- As long as the index announces enough, all transactions that reach the decorator are
let through and counted. -/
theorem deliverTxs_counted (hlaw : app.sdk.Lawful) (hheight : ctx.blockHeight ≠ 0) {txs : List Bytes}
    {s t : State W} {outcomes : List TxOutcome} {i : Index}
    (hreach : ∀ txBz ∈ txs, ∃ tx, reachesDecorator app ctx txBz = .ok tx) (hi : s.bridge.index = some i)
    (hroom : i.numInjectedTxsAnte.toNat + txs.length ≤ i.numInjectedTxsTotal.toNat)
    (h : (deliverTxs app ctx txs).run s = .ok outcomes t) :
    (∀ o ∈ outcomes, o.Exempt) ∧ ∃ f, t.bridge.index =
      some ⟨i.numInjectedTxsTotal, i.numInjectedTxsAnte + UInt64.ofNat txs.length, f⟩ := by
  induction txs generalizing s outcomes i with
  | nil =>
    obtain ⟨rfl, rfl⟩ := run_pure_eq_ok.mp h
    exact ⟨by simp, i.numFailedSpecialTxs, by simpa using hi⟩
  | cons txBz txs ih =>
    obtain ⟨o, u, rest, hu, hrest, rfl⟩ := deliverTxs_cons_eq_ok.mp h
    rw [List.length_cons] at hroom
    have hopen : i.numInjectedTxsAnte < i.numInjectedTxsTotal := UInt64.lt_iff_toNat_lt.mpr (by omega)
    rcases runTx_pass hlaw hheight hi hu with ⟨err, herr, -⟩ | ⟨tx, f, -, hpass⟩
    · obtain ⟨tx, htx⟩ := hreach txBz List.mem_cons_self
      rw [herr] at htx
      cases htx
    · rw [if_pos hopen] at hpass
      have hante : (i.numInjectedTxsAnte + 1).toNat = i.numInjectedTxsAnte.toNat + 1 := by
        have hlt := i.numInjectedTxsTotal.toNat_lt
        rw [UInt64.toNat_add, UInt64.toNat_one]
        omega
      obtain ⟨hall, f', hf'⟩ := ih (fun b hb => hreach b (List.mem_cons_of_mem _ hb)) hpass.2
        (by dsimp only; omega) hrest
      refine ⟨?_, f', ?_⟩
      · intro o' ho'
        rcases List.mem_cons.mp ho' with rfl | ho'
        · exact Or.inr hpass.1
        · exact hall o' ho'
      · rw [hf', List.length_cons, add_ofNat_succ]

/-- When as many transactions were counted as announced, no further one is let through. -/
theorem deliverTxs_native (hlaw : app.sdk.Lawful) (hheight : ctx.blockHeight ≠ 0) {txs : List Bytes}
    {s t : State W} {outcomes : List TxOutcome} {i : Index} (hi : s.bridge.index = some i)
    (hclosed : ¬ i.numInjectedTxsAnte < i.numInjectedTxsTotal)
    (h : (deliverTxs app ctx txs).run s = .ok outcomes t) :
    (∀ o ∈ outcomes, ¬ o.Exempt) ∧ ∃ f, t.bridge.index = some { i with numFailedSpecialTxs := f } := by
  induction txs generalizing s outcomes i with
  | nil =>
    obtain ⟨rfl, rfl⟩ := run_pure_eq_ok.mp h
    exact ⟨by simp, i.numFailedSpecialTxs, hi⟩
  | cons txBz txs ih =>
    obtain ⟨o, u, rest, hu, hrest, rfl⟩ := deliverTxs_cons_eq_ok.mp h
    have hstep : ¬ o.Exempt ∧ ∃ f, u.bridge.index = some { i with numFailedSpecialTxs := f } := by
      rcases runTx_pass hlaw hheight hi hu with ⟨err, -, hnone, hindex⟩ | ⟨tx, f, -, hpass⟩
      · exact ⟨by simp [TxOutcome.Exempt, hnone], i.numFailedSpecialTxs, hindex⟩
      · rw [if_neg hclosed] at hpass
        exact ⟨by simp [TxOutcome.Exempt, hpass.1], f, hpass.2⟩
    obtain ⟨ho, f, hf⟩ := hstep
    obtain ⟨hall, f', hf'⟩ := ih hf hclosed hrest
    refine ⟨?_, f', hf'⟩
    intro o' ho'
    rcases List.mem_cons.mp ho' with rfl | ho'
    · exact ho
    · exact hall o' ho'

end FuelSequencer.Wiring
