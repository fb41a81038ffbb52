import FuelSequencer.App.Journal
import FuelSequencer.App.Reference

/-! # Supply changes reported to Ethereum

The bridge reports how the supply changed apart from its own mints and burns. The
pending report, the last supply and the offset change at four places; over any run of
blocks the reports made so far, the pending one and the three fields balance.
-/
namespace FuelSequencer.Wiring
open Go Wire Exec Lib Bridge

variable {W : Type} {app : App W} {ctx : Ctx}

/-! ## Totals of a journal -/

def Entry.reportedAmount : Entry → ℤ
  | .reported x => x
  | _ => 0

def Entry.depositedAmount : Entry → ℤ
  | .deposited x => x
  | _ => 0

def Entry.withdrawnAmount : Entry → ℤ
  | .withdrawn x => x
  | _ => 0

/-- The sum of an amount over a journal. -/
def Journal.total (j : Journal) (amount : Entry → ℤ) : ℤ := (j.map amount).sum

@[simp] theorem total_nil (amount : Entry → ℤ) : Journal.total [] amount = 0 := rfl

@[simp] theorem total_append (j j' : Journal) (amount : Entry → ℤ) :
    Journal.total (j ++ j') amount = j.total amount + j'.total amount := by
  simp [Journal.total]

@[simp] theorem total_singleton (e : Entry) (amount : Entry → ℤ) : Journal.total [e] amount = amount e := by
  simp [Journal.total]

/-! ## One block -/

/-- How the supply delta info follows a journal: the last supply stays, the offset moves
with deposits and withdrawals, and what is reported is taken from the pending report. -/
structure Balanced (info : SupplyDeltaInfo) (j : Journal) (info' : SupplyDeltaInfo) : Prop where
  lastSupply : info'.lastSupply = info.lastSupply
  offset : info'.offset = info.offset - j.total Entry.depositedAmount + j.total Entry.withdrawnAmount
  toReport : j.total Entry.reportedAmount + info'.toReport = info.toReport
  settled : (∃ x, Entry.reported x ∈ j) → info'.toReport = 0
  pending : info'.toReport = info.toReport ∨ info'.toReport = 0

theorem balanced_nil (info : SupplyDeltaInfo) : Balanced info [] info :=
  ⟨rfl, by simp, by simp, fun ⟨_, h⟩ => (by cases h), Or.inl rfl⟩

theorem Balanced.deposited {info info' : SupplyDeltaInfo} {j : Journal} (h : Balanced info j info')
    (amount : ℤ) :
    Balanced info (j ++ [.deposited amount]) { info' with offset := info'.offset - amount } := by
  obtain ⟨hl, ho, hr, hs, hp⟩ := h
  refine ⟨hl, ?_, ?_, ?_, hp⟩
  · simp [ho, Entry.depositedAmount, Entry.withdrawnAmount]
    ring
  · simpa [Entry.reportedAmount] using hr
  · rintro ⟨x, hx⟩
    exact hs ⟨x, by simpa using hx⟩

theorem Balanced.withdrawn {info info' : SupplyDeltaInfo} {j : Journal} (h : Balanced info j info')
    (amount : ℤ) :
    Balanced info (j ++ [.withdrawn amount]) { info' with offset := info'.offset + amount } := by
  obtain ⟨hl, ho, hr, hs, hp⟩ := h
  refine ⟨hl, ?_, ?_, ?_, hp⟩
  · simp [ho, Entry.depositedAmount, Entry.withdrawnAmount]
    ring
  · simpa [Entry.reportedAmount] using hr
  · rintro ⟨x, hx⟩
    exact hs ⟨x, by simpa using hx⟩

theorem Balanced.reported {info info' : SupplyDeltaInfo} {j : Journal} (h : Balanced info j info') :
    Balanced info (j ++ [.reported info'.toReport]) { info' with toReport := 0 } := by
  obtain ⟨hl, ho, hr, hs, hp⟩ := h
  refine ⟨hl, ?_, ?_, fun _ => rfl, Or.inr rfl⟩
  · simpa [Entry.depositedAmount, Entry.withdrawnAmount] using ho
  · simpa [Entry.reportedAmount] using hr

/-- An entry that is none of these leaves the info as it is. -/
theorem Balanced.other {info info' : SupplyDeltaInfo} {j : Journal} {e : Entry} (h : Balanced info j info')
    (hd : e.depositedAmount = 0) (hw : e.withdrawnAmount = 0) (hr : ∀ x, e ≠ .reported x) :
    Balanced info (j ++ [e]) info' := by
  have hzero : e.reportedAmount = 0 := by
    cases e with
    | reported x => exact absurd rfl (hr x)
    | _ => rfl
  refine ⟨h.lastSupply, ?_, ?_, ?_, h.pending⟩
  · simpa [hd, hw] using h.offset
  · simpa [hzero] using h.toReport
  · rintro ⟨x, hx⟩
    exact h.settled ⟨x, by simpa [(hr x).symm] using hx⟩

/-- The info along a journal. -/
theorem balanced_of_follows {b b' : Store} {j : Journal} {info : SupplyDeltaInfo} (h : Follows ctx b j b')
    (hinfo : b.supplyDeltaInfo = some info) :
    ∃ info', b'.supplyDeltaInfo = some info' ∧ Balanced info j info' := by
  refine h.invariant (I := fun j b' => ∃ info', b'.supplyDeltaInfo = some info' ∧ Balanced info j info')
    ⟨info, hinfo, balanced_nil info⟩ ?_
  rintro j t e u ⟨info', hinfo', hbal⟩ hstep
  cases hstep with
  | reported ready =>
    cases Option.some.inj (ready.hasInfo.symm.trans hinfo')
    exact ⟨_, rfl, hbal.reported⟩
  | deposited amount hi =>
    cases Option.some.inj (hi.symm.trans hinfo')
    exact ⟨_, rfl, hbal.deposited amount⟩
  | withdrawn amount hi =>
    cases Option.some.inj (hi.symm.trans hinfo')
    exact ⟨_, rfl, hbal.withdrawn amount⟩
  | _ => exact ⟨info', hinfo', hbal.other rfl rfl (by simp)⟩

/-- A committed block with what its beginning saw: whether it is a supply delta height
and the supply of the bridged denom. -/
structure SupplyBlock where
  ctx : Ctx
  txs : List Bytes
  result : BlockResult
  delta : Bool
  supply : ℤ

/-- The block runs with the given denom, and at a supply delta height a supply delta
message is executed. -/
structure SupplyStep (app : App W) (denom : GoString) (s : State W) (l : SupplyBlock) (t : State W) :
    Prop where
  hasDenom : s.bridge.params.bridgeDenom = denom
  delta : s.bridge.params.isMsgSupplyDeltaBlock l.ctx.blockHeight = .ok l.delta
  supply : ∃ w, (app.modules.beginBlockBefore l.ctx).run s.world = .ok () w ∧
    l.supply = app.modules.getSupply w denom
  committed : (finalizeBlock app l.ctx l.txs).run s = .ok l.result t
  reported : l.delta = true → ∃ x, Entry.reported x ∈ l.result.journal

/-- A block that begins without a pending report ends without one. At a supply delta
height it reports the change since the last one without the bridge's own changes, and
starts the offset anew; otherwise it reports nothing. -/
theorem SupplyStep.balance (hlaw : app.sdk.Lawful) {denom : GoString} {s t : State W} {l : SupplyBlock}
    (h : SupplyStep app denom s l t) {info : SupplyDeltaInfo} (hinfo : s.bridge.supplyDeltaInfo = some info)
    (hpending : info.toReport = 0) : ∃ info', t.bridge.supplyDeltaInfo = some info' ∧ info'.toReport = 0 ∧
      info'.lastSupply = (if l.delta then l.supply else info.lastSupply) ∧
      info'.offset = (if l.delta then 0 else info.offset) - l.result.journal.total Entry.depositedAmount +
        l.result.journal.total Entry.withdrawnAmount ∧
      l.result.journal.total Entry.reportedAmount =
        if l.delta then l.supply - info.lastSupply + info.offset else 0 := by
  obtain ⟨s₁, s₂, s₃, i, hopen, -, -, hfollows, -, -, hend⟩ := finalizeBlock_follows hlaw h.committed
  obtain ⟨delta, w, hdelta, hworld, -, hbegun⟩ := openBlock_supply hopen
  obtain rfl : l.delta = delta := Except.ok.inj (h.delta.symm.trans hdelta)
  obtain ⟨w', hw', hsupply⟩ := h.supply
  obtain rfl : w' = w := (EStateM.Result.ok.inj (hw'.symm.trans hworld)).2
  rw [h.hasDenom, ← hsupply] at hbegun
  have hbegin : s₁.bridge.supplyDeltaInfo = some (begunInfo l.delta l.supply info) := by
    rw [hbegun, Store.begun, hinfo]
    rfl
  obtain ⟨info', hinfo', hbal⟩ := balanced_of_follows hfollows hbegin
  have hreport := hbal.toReport
  cases hd : l.delta with
  | true =>
    have hsettled : info'.toReport = 0 := hbal.settled (h.reported hd)
    rw [hd] at hbal hreport
    rw [hsettled, add_zero] at hreport
    exact ⟨info', by rw [hend]; exact hinfo', hsettled, hbal.lastSupply, hbal.offset, hreport⟩
  | false =>
    rw [hd] at hbal hreport
    have hzero : info'.toReport = 0 := by
      rcases hbal.pending with hsame | hzero
      · exact hsame.trans hpending
      · exact hzero
    rw [hzero, add_zero] at hreport
    exact ⟨info', by rw [hend]; exact hinfo', hzero, hbal.lastSupply, hbal.offset, hreport.trans hpending⟩

/-! ## Runs -/

/-- The sum of an amount over the journals of a run. -/
def runTotal (ls : List SupplyBlock) (amount : Entry → ℤ) : ℤ :=
  Journal.total (ls.flatMap fun l => l.result.journal) amount

@[simp] theorem runTotal_nil (amount : Entry → ℤ) : runTotal [] amount = 0 := rfl

@[simp] theorem runTotal_snoc (ls : List SupplyBlock) (l : SupplyBlock) (amount : Entry → ℤ) :
    runTotal (ls ++ [l]) amount = runTotal ls amount + l.result.journal.total amount := by
  simp [runTotal]

/-- What a run that began with the info `start` has reported. -/
structure Reports (start : SupplyDeltaInfo) (ls : List SupplyBlock) (info : SupplyDeltaInfo) : Prop where
  pending : info.toReport = 0
  balance : runTotal ls Entry.reportedAmount = info.lastSupply - start.lastSupply +
    (runTotal ls Entry.withdrawnAmount - runTotal ls Entry.depositedAmount) + start.offset - info.offset
  quiet : ∀ l ∈ ls, l.delta = false → l.result.journal.total Entry.reportedAmount = 0
  complete : ∀ before l, ls = before ++ [l] → l.delta = true → runTotal ls Entry.reportedAmount =
    l.supply - start.lastSupply + start.offset -
      (runTotal before Entry.depositedAmount - runTotal before Entry.withdrawnAmount)

theorem Reports.step (hlaw : app.sdk.Lawful) {denom : GoString} {start info : SupplyDeltaInfo}
    {ls : List SupplyBlock} {l : SupplyBlock} {t u : State W} (h : Reports start ls info)
    (hinfo : t.bridge.supplyDeltaInfo = some info) (hstep : SupplyStep app denom t l u) :
    ∃ info', u.bridge.supplyDeltaInfo = some info' ∧ Reports start (ls ++ [l]) info' := by
  obtain ⟨info', hinfo', hzero, hlast, hoffset, hreported⟩ := hstep.balance hlaw hinfo h.pending
  have hbalance := h.balance
  refine ⟨info', hinfo', hzero, ?_, ?_, ?_⟩
  · rw [runTotal_snoc, runTotal_snoc, runTotal_snoc, hreported, hlast, hoffset]
    cases l.delta <;> simp <;> linarith
  · intro l' hl' hquiet
    rcases List.mem_append.mp hl' with hl' | hl'
    · exact h.quiet l' hl' hquiet
    · cases List.mem_singleton.mp hl'
      rw [hreported, hquiet]
      rfl
  · intro before l' heq hdelta
    obtain ⟨rfl, hl⟩ := List.append_inj' heq rfl
    cases List.singleton_inj.mp hl
    rw [runTotal_snoc, hreported, hdelta, if_pos rfl]
    linarith

/-- Over every run of blocks that starts without a pending report, the reports made so far
are the change of the last supply, without the bridge's own mints and burns, up to what
the offset still holds. Only blocks at supply delta heights report, and after such a block
every other change of the supply up to its beginning has been reported exactly once. -/
theorem reports_balance (hlaw : app.sdk.Lawful) {denom : GoString} {s t : State W} {ls : List SupplyBlock}
    {start : SupplyDeltaInfo} (hinfo : s.bridge.supplyDeltaInfo = some start) (hpending : start.toReport = 0)
    (hrun : Runs (SupplyStep app denom) s ls t) :
    ∃ info, t.bridge.supplyDeltaInfo = some info ∧ info.toReport = 0 ∧
      runTotal ls Entry.reportedAmount = info.lastSupply - start.lastSupply +
        (runTotal ls Entry.withdrawnAmount - runTotal ls Entry.depositedAmount) + start.offset - info.offset ∧
      (∀ l ∈ ls, l.delta = false → l.result.journal.total Entry.reportedAmount = 0) ∧
      (∀ before l, ls = before ++ [l] → l.delta = true → runTotal ls Entry.reportedAmount =
        l.supply - start.lastSupply + start.offset -
          (runTotal before Entry.depositedAmount - runTotal before Entry.withdrawnAmount)) := by
  have hreports : ∃ info, t.bridge.supplyDeltaInfo = some info ∧ Reports start ls info := by
    refine hrun.invariant (I := fun ls t => ∃ info, t.bridge.supplyDeltaInfo = some info ∧
      Reports start ls info) ⟨start, hinfo, hpending, by simp, by simp, ?_⟩ ?_
    · intro before l heq
      simp at heq
    · rintro ls t l u ⟨info, hi, hreports⟩ hstep
      exact hreports.step hlaw hi hstep
  obtain ⟨info, hi, hreports⟩ := hreports
  exact ⟨info, hi, hreports.pending, hreports.balance, hreports.quiet, hreports.complete⟩

/-- Seven coins were minted elsewhere since the last report. -/
def inflatedState : State Reference.Ledger :=
  ⟨Reference.store, Reference.sequencing, Reference.ledger.addSupply Reference.ufuel 7⟩

/-- A block at a supply delta height that delivers one deposit. -/
def inflatedBlock : SupplyBlock where
  ctx := ⟨10, 0⟩
  txs := [(Reference.indexMsg 1 true).rawTxBytes 1, Reference.depositTx 5 3,
    (MsgSupplyDelta.mk Reference.authority).rawTxBytes 2]
  result := ⟨[⟨some .first, [.indexed (Reference.indexMsg 1 true) 2], none⟩,
    ⟨some .injected, [.counted, .deposited 5], none⟩, ⟨some .injected, [.counted, .reported 7], none⟩], []⟩
  delta := true
  supply := 7

theorem reports_balance_reference : ∃ t info,
    Runs (SupplyStep Reference.app Reference.ufuel) inflatedState [inflatedBlock] t ∧
      t.bridge.supplyDeltaInfo = some info ∧
      runTotal [inflatedBlock] Entry.reportedAmount = info.lastSupply - 0 + (0 - 5) + 0 - info.offset := by
  have hstep : SupplyStep Reference.app Reference.ufuel inflatedState inflatedBlock _ :=
    ⟨rfl, rfl, ⟨_, rfl, by decide +kernel⟩, eq_ok_of_value (by decide +kernel), fun _ => ⟨7, by decide⟩⟩
  obtain ⟨info, hinfo, -, hbalance, -⟩ := reports_balance Reference.app_lawful.sdk
    (rfl : inflatedState.bridge.supplyDeltaInfo = some ⟨0, 0, 0⟩) rfl (Runs.single hstep)
  exact ⟨_, info, Runs.single hstep, hinfo, hbalance⟩

end FuelSequencer.Wiring
