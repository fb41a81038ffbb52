import FuelSequencer.Abci.Handlers
import FuelSequencer.App.Reference

/-! # Which proposals a verifier accepts

Acceptance is stated on the list of transactions alone: the index transaction at its
head, the part of the generated event transactions behind it, the supply delta
transaction at its height, and the decoding and gas of all of them.
-/
namespace FuelSequencer.Abci
open Go Wire Exec Lib Bridge Wiring

variable {W : Type}

/-- What a handler reads from the state before it looks at any transaction. -/
structure View where
  delta : Bool
  blocked : List GoString
  last : UInt64
  offset : UInt64
  sequence : UInt64

structure View.Of (app : App W) (s : State W) (height : UInt64) (v : View) : Prop where
  delta : s.bridge.params.isMsgSupplyDeltaBlock height = .ok v.delta
  blocked : getAllBlockedBech32Addresses app s = .ok v.blocked
  last : s.bridge.lastEthereumBlockSynced = some v.last
  offset : s.bridge.ethereumEventIndexOffset = some v.offset
  sequence : s.bridge.lastConsensusTxsSequence = some v.sequence

namespace View

def firstEventTxsSequence (v : View) : UInt64 := v.sequence + 1 + (if v.delta then 2 else 1)

def indexMsg (app : App W) (v : View) (m : UInt64) (full : Bool) : MsgIndex :=
  ⟨app.keeper.authority, m, full, v.last + 1⟩

def indexTx (app : App W) (v : View) (m : UInt64) (full : Bool) : Bytes :=
  (v.indexMsg app m full).rawTxBytes (v.sequence + 1)

def supplyDeltaTx (app : App W) (v : View) : Bytes :=
  (MsgSupplyDelta.mk app.keeper.authority).rawTxBytes (v.sequence + 2)

/-- What a proposer injects: the index message, the event transactions behind it, and
the supply delta transaction at its height. -/
def injected (app : App W) (v : View) (m : UInt64) (full : Bool) (eventTxs : List Bytes) : List Bytes :=
  v.indexTx app m full :: (eventTxs ++ if v.delta then [v.supplyDeltaTx app] else [])

/-- The transactions generated from the events of the queried block. -/
def generated (app : App W) (v : View) (params : Params) (events : List Event) :
    Except GoString (List Bytes) :=
  eventTxsFrom app params v.blocked (v.last + 1) events v.firstEventTxsSequence

end View

/-! ## Decoding and gas -/

def gasOf (decode : Bytes → Except GoString Tx) (txBz : Bytes) : UInt64 :=
  match decode txBz with
  | .ok tx => tx.gas.getD 0
  | .error _ => 0

def totalGas (decode : Bytes → Except GoString Tx) (start : UInt64) (txs : List Bytes) : UInt64 :=
  txs.foldl (fun total txBz => total + gasOf decode txBz) start

structure TxsFit (decode : Bytes → Except GoString Tx) (maxGas : ℤ) (start : UInt64)
    (txs : List Bytes) : Prop where
  decodes : ∀ txBz ∈ txs, ∃ tx, decode txBz = .ok tx
  gas : 0 < maxGas → ∀ n < txs.length,
    (totalGas decode start (txs.take (n + 1))).toNat ≤ uint64 maxGas

theorem txsFit_cons {decode : Bytes → Except GoString Tx} {maxGas : ℤ} {start : UInt64}
    {txBz : Bytes} {txs : List Bytes} :
    TxsFit decode maxGas start (txBz :: txs) ↔ (∃ tx, decode txBz = .ok tx) ∧
      (0 < maxGas → (start + gasOf decode txBz).toNat ≤ uint64 maxGas) ∧
      TxsFit decode maxGas (start + gasOf decode txBz) txs := by
  constructor
  · rintro ⟨hd, hg⟩
    refine ⟨hd txBz List.mem_cons_self, fun hm => hg hm 0 (by simp), ?_, ?_⟩
    · exact fun t ht => hd t (List.mem_cons_of_mem _ ht)
    · intro hm n hn
      exact hg hm (n + 1) (by simpa using hn)
  · rintro ⟨hd, hg, hd', hg'⟩
    refine ⟨?_, ?_⟩
    · intro t ht
      rcases List.mem_cons.mp ht with rfl | ht
      · exact hd
      · exact hd' t ht
    · intro hm n hn
      cases n with
      | zero => exact hg hm
      | succ n => exact hg' hm n (by simpa using hn)

theorem verifyTransactionsFrom_eq_ok {decode : Bytes → Except GoString Tx} {maxGas : ℤ}
    {txs : List Bytes} {start : UInt64} {u : Unit} :
    verifyTransactionsFrom decode maxGas start txs = .ok u ↔ TxsFit decode maxGas start txs := by
  induction txs generalizing start with
  | nil =>
    simp only [verifyTransactionsFrom, true_iff]
    exact ⟨by simp, by simp⟩
  | cons txBz txs ih =>
    rw [txsFit_cons]
    cases hd : decode txBz with
    | error e => simp [verifyTransactionsFrom, hd]
    | ok tx =>
      have hgas : gasOf decode txBz = tx.gas.getD 0 := by rw [gasOf, hd]
      simp only [verifyTransactionsFrom, hd, ok_bind, except_bind_eq_ok, failIf_eq_ok, hgas,
        Except.ok.injEq, exists_eq', true_and, exists_const]
      by_cases hm : maxGas > 0
      · simp only [hm, if_true, true_and, forall_const, Nat.not_lt, ih]
      · -- without a limit the running total plays no role in either form
        have hfree : ∀ a b, TxsFit decode maxGas a txs → TxsFit decode maxGas b txs :=
          fun a b h => ⟨h.decodes, fun h0 => absurd h0 hm⟩
        simp only [hm, if_false, false_and, not_false_eq_true, true_and, false_imp_iff, ih]
        exact ⟨hfree _ _, hfree _ _⟩

/-! ## Acceptance -/

section Accepted

variable (app : App W) (sidecar : Sidecar) (s : State W)

/-- The proposer shows no synchronisation and may. -/
structure NotSynced (time : Time) (v : View) (m : UInt64) (full : Bool) : Prop where
  count : m = 0
  flag : full = false
  offset : v.offset = 0
  delay : ethSyncDelayExceeded s.bridge time = false

/-- The proposer delivers a part of what the verifier generates itself. -/
structure Synced (v : View) (txs : List Bytes) (m : UInt64) (full : Bool)
    (response : QueryBlockEventsResponse) (gen : List Bytes) : Prop where
  answer : sidecar (v.last + 1) = .ok response
  generated : v.generated app s.bridge.params response.events = .ok gen
  offset : v.offset = 0 ∨ v.offset.toNat < gen.length
  count_le : m.toNat ≤ gen.length - v.offset.toNat
  count_pos : v.offset.toNat < gen.length → 1 ≤ m.toNat
  flag : full = true ↔ m.toNat = gen.length - v.offset.toNat
  events : (txs.drop 1).take m.toNat = (gen.drop v.offset.toNat).take m.toNat

structure Accepted (maxGas : Option Int64) (time : Time) (v : View) (txs : List Bytes) (m : UInt64)
    (full : Bool) : Prop where
  index : txs[0]? = some (v.indexTx app m full)
  events : NotSynced s time v m full ∨ ∃ response gen, Synced app sidecar s v txs m full response gen
  supplyDelta : v.delta = true → txs[1 + m.toNat]? = some (v.supplyDeltaTx app)
  fits : TxsFit app.sdk.txDecode (maxGas.getD 0).toInt 0 txs

end Accepted

/-! ## The verifier's steps -/

variable {app : App W} {sidecar : Sidecar} {s : State W} {maxGas : Option Int64}

theorem generateTxSequences_eq_ok {delta : Bool} {sequences : TxSequences} :
    generateTxSequences s delta = .ok sequences ↔
      ∃ last, s.bridge.lastConsensusTxsSequence = some last ∧
        sequences = if delta then ⟨last + 1, last + 1 + 1, last + 1 + 2⟩ else ⟨last + 1, 0, last + 1 + 1⟩ := by
  unfold generateTxSequences
  rw [except_bind_eq_ok]
  simp only [required_eq_ok, except_pure, Except.ok.injEq]
  exact exists_congr fun last => and_congr_right fun _ => eq_comm

/-- Cutting a freshly generated list to the part after the offset and to `n` of it. -/
theorem trim_keep_eq_ok {authority : GoString} (gen : List Bytes) {flag : Bool} {block offset n : UInt64}
    (hgen : gen.length < maxLen) {t : MsgIndex × List Bytes} {k : MsgIndex × List Bytes × UInt64} :
    ((⟨authority, UInt64.ofNat gen.length, flag, block⟩ : MsgIndex).trimEventsFromHead gen offset = .ok t ∧
      t.1.keepEventsFromHead t.2 n = .ok k) ↔
    (offset = 0 ∨ offset.toNat < gen.length) ∧ n.toNat ≤ gen.length - offset.toNat ∧
      (offset.toNat < gen.length → 1 ≤ n.toNat) ∧
      t = (⟨authority, UInt64.ofNat (gen.length - offset.toNat), flag, block⟩, gen.drop offset.toNat) ∧
      k = (⟨authority, n, flag && decide (n.toNat = gen.length - offset.toNat), block⟩,
        (gen.drop offset.toNat).take n.toNat, UInt64.ofNat (gen.length - offset.toNat) - n) := by
  have hlen : (gen.drop offset.toNat).length = gen.length - offset.toNat := List.length_drop
  have hcount : (UInt64.ofNat (gen.length - offset.toNat)).toNat = (gen.drop offset.toNat).length := by
    rw [hlen, toNat_ofNat_of_lt_maxLen (lt_of_le_of_lt (Nat.sub_le _ _) hgen)]
  rw [MsgIndex.trimEventsFromHead_eq_ok (toNat_ofNat_of_lt_maxLen hgen)]
  constructor
  · rintro ⟨⟨ho, rfl⟩, hk⟩
    rw [MsgIndex.keepEventsFromHead_eq_ok hcount, hlen] at hk
    obtain ⟨hn, hpos, rfl⟩ := hk
    refine ⟨ho, hn, fun h => hpos (by omega), rfl, ?_⟩
    simp [MsgIndex.withCount]
  · rintro ⟨ho, hn, hpos, rfl, rfl⟩
    refine ⟨⟨ho, rfl⟩, ?_⟩
    rw [MsgIndex.keepEventsFromHead_eq_ok hcount, hlen]
    refine ⟨hn, fun h => hpos (by omega), ?_⟩
    simp [MsgIndex.withCount]

/-- The checks of the proposal against the generated message and transactions. -/
structure Verified (app : App W) (maxGas : Option Int64) (txs : Slice Bytes) (n : UInt64) (delta : Bool)
    (sequences : TxSequences) (msgIndex : MsgIndex) (eventTxs : List Bytes) : Prop where
  count : checkNumInjectedEventTxs msgIndex eventTxs = .ok ()
  events : ∃ injected, txs.slice 1 (n + 1).toNat = some injected ∧ UInt64.ofNat injected.length = n ∧
    verifyInjectedEventTxs injected eventTxs = .ok ()
  index : verifyInjectedMsgIndexTx (txs.elems.headD []) sequences.index msgIndex = .ok ()
  supplyDelta : (if delta then verifyInjectedMsgSupplyDeltaTx app.keeper.authority txs.elems
    msgIndex.numInjectedEventTxs sequences.supplyDelta else .ok ()) = .ok ()
  fits : verifyTransactionsInProposal app.sdk.txDecode maxGas txs.elems = .ok ()
  minimum : checkMinimumNumTxs txs.elems.length msgIndex delta = .ok ()

theorem processProposal_eq_ok_steps {req : RequestProcessProposal} :
    processProposal app sidecar maxGas s req = .ok () ↔
      req.txs.elems.length ≠ 0 ∧ ∃ v : View, View.Of app s req.height v ∧ ∃ sequences,
        generateTxSequences s v.delta = .ok sequences ∧ ∃ injected,
        MsgIndex.fromRawTxBytes app.sdk.txDecode (req.txs.elems.headD []) = .ok injected ∧ ∃ e,
        expectedMsgIndexAndEventTxs app sidecar s req.time injected (v.last + 1) v.blocked
          sequences.firstEventTxs = .ok e ∧ ∃ t k,
        (e.1.trimEventsFromHead e.2 v.offset = .ok t ∧
          t.1.keepEventsFromHead t.2 injected.numInjectedEventTxs = .ok k) ∧
        Verified app maxGas req.txs injected.numInjectedEventTxs v.delta sequences k.1 k.2.1 := by
  simp only [processProposal, except_bind_eq_ok, failIf_eq_ok, required_eq_ok, wrapping_eq_ok,
    wrapFault_eq_ok, Unique.exists_iff, PUnit.default_eq_unit, not_not, ne_eq]
  constructor
  · rintro ⟨hne, delta, hdelta, sequences, hseq, blocked, hblocked, injected, hinj, last, hlast, e, he,
      offset, hoff, t, ht, k, hk, hcount, slice, hslice, hlen, hindex, hevents, hsd, hfits, hmin⟩
    obtain ⟨sequence, hsequence, -⟩ := generateTxSequences_eq_ok.mp hseq
    exact ⟨hne, ⟨delta, blocked, last, offset, sequence⟩, ⟨hdelta, hblocked, hlast, hoff, hsequence⟩,
      sequences, hseq, injected, hinj, e, he, t, k, ⟨ht, hk⟩,
      ⟨hcount, ⟨slice, hslice, hlen, hevents⟩, hindex, hsd, hfits, hmin⟩⟩
  · rintro ⟨hne, v, hv, sequences, hseq, injected, hinj, e, he, t, k, ⟨ht, hk⟩, hver⟩
    obtain ⟨slice, hslice, hlen, hevents⟩ := hver.events
    exact ⟨hne, v.delta, hv.delta, sequences, hseq, v.blocked, hv.blocked, injected, hinj, v.last,
      hv.last, e, he, v.offset, hv.offset, t, ht, k, hk, hver.count, slice, hslice, hlen, hver.index,
      hevents, hver.supplyDelta, hver.fits, hver.minimum⟩

theorem checkMinimumNumTxs_eq_ok {numTxs : ℕ} {m : MsgIndex} {delta : Bool} {u : Unit}
    (hnum : numTxs < maxLen) (hn : m.numInjectedEventTxs.toNat < maxLen) :
    checkMinimumNumTxs numTxs m delta = .ok u ↔
      1 + m.numInjectedEventTxs.toNat + (if delta then 1 else 0) ≤ numTxs := by
  have hlt : m.numInjectedEventTxs.toNat < 2 ^ 63 := hn
  unfold checkMinimumNumTxs
  rw [failIf_eq_ok, UInt64.lt_iff_toNat_lt, toNat_ofNat_of_lt_maxLen hnum, Nat.not_lt]
  cases delta <;> simp only [UInt64.toNat_add, UInt64.toNat_one, UInt64.toNat_zero, if_true, if_false,
    Bool.false_eq_true] <;> omega

theorem getD_eq_iff {α : Type} {xs : List α} {i : ℕ} {a d : α} (h : i < xs.length) :
    xs.getD i d = a ↔ xs[i]? = some a := by
  rw [List.getD_eq_getElem?_getD, List.getElem?_eq_getElem h]
  simp

theorem verifyInjectedMsgSupplyDeltaTx_eq_ok {authority : GoString} {txs : List Bytes}
    {n sequence : UInt64} {u : Unit} (hlen : txs.length < maxLen) (hn : n.toNat < maxLen) :
    verifyInjectedMsgSupplyDeltaTx authority txs n sequence = .ok u ↔
      txs[1 + n.toNat]? = some ((MsgSupplyDelta.mk authority).rawTxBytes sequence) := by
  have hlt : n.toNat < 2 ^ 63 := hn
  have h₁ : (1 + n).toNat = 1 + n.toNat := by
    rw [UInt64.toNat_add, UInt64.toNat_one]
    omega
  have h₂ : (1 + (1 + n)).toNat = 2 + n.toNat := by
    rw [UInt64.toNat_add, h₁, UInt64.toNat_one]
    omega
  unfold verifyInjectedMsgSupplyDeltaTx
  simp only [except_bind_eq_ok, failIf_eq_ok, required_eq_ok, exists_const, UInt64.lt_iff_toNat_lt, h₁, h₂,
    toNat_ofNat_of_lt_maxLen hlen, not_not, exists_eq_right]
  constructor
  · rintro ⟨-, h⟩
    exact h
  · intro h
    obtain ⟨hi, -⟩ := List.getElem?_eq_some_iff.mp h
    exact ⟨by omega, h⟩

/-- The checks, on the list of transactions alone; what lies beyond its length in the
backing array never matters. -/
theorem verified_iff {txs : Slice Bytes} {delta : Bool} {sequences : TxSequences} (n : UInt64)
    (msgIndex : MsgIndex) (eventTxs : List Bytes) (hne : txs.elems.length ≠ 0)
    (hn : n.toNat < maxLen) (hmsg : msgIndex.numInjectedEventTxs = n)
    (hlen : eventTxs.length = n.toNat) :
    Verified app maxGas txs n delta sequences msgIndex eventTxs ↔
      txs.elems[0]? = some (msgIndex.rawTxBytes sequences.index) ∧
      (txs.elems.drop 1).take n.toNat = eventTxs ∧
      (delta = true → txs.elems[1 + n.toNat]? =
        some ((MsgSupplyDelta.mk app.keeper.authority).rawTxBytes sequences.supplyDelta)) ∧
      TxsFit app.sdk.txDecode (maxGas.getD 0).toInt 0 txs.elems := by
  have hcap : txs.elems.length < maxLen := lt_of_le_of_lt (Nat.le_add_right _ _) txs.cap_lt
  have hhead : txs.elems.headD [] = msgIndex.rawTxBytes sequences.index ↔
      txs.elems[0]? = some (msgIndex.rawTxBytes sequences.index) := by
    rw [← getD_eq_iff (Nat.pos_of_ne_zero hne)]
    cases txs.elems <;> rfl
  have hslice : 1 + n.toNat ≤ txs.elems.length →
      txs.slice 1 (n + 1).toNat = some ((txs.elems.drop 1).take n.toNat) := by
    intro hmin
    rw [toNat_add_one hn, Slice.slice_of_le txs (by omega) (by omega), List.drop_take]
    simp
  constructor
  · rintro ⟨-, ⟨injected, hinj, -, hev⟩, hindex, hsd, hfits, hmin⟩
    rw [checkMinimumNumTxs_eq_ok hcap (hmsg ▸ hn), hmsg] at hmin
    rw [hslice (by omega)] at hinj
    refine ⟨hhead.mp (not_not.mp (failIf_eq_ok.mp hindex)), ?_, ?_,
      verifyTransactionsFrom_eq_ok.mp hfits⟩
    · rw [Option.some.inj hinj]
      exact not_not.mp (failIf_eq_ok.mp hev)
    · intro hd
      rw [hd, if_pos rfl, hmsg] at hsd
      exact (verifyInjectedMsgSupplyDeltaTx_eq_ok hcap hn).mp hsd
  · rintro ⟨hindex, hev, hsd, hfits⟩
    have hmin : 1 + n.toNat ≤ txs.elems.length := by
      have hcount := congrArg List.length hev
      rw [List.length_take, List.length_drop, hlen] at hcount
      omega
    refine ⟨?_, ⟨eventTxs, by rw [hslice hmin, hev], ?_, failIf_eq_ok.mpr (not_not.mpr rfl)⟩,
      failIf_eq_ok.mpr (not_not.mpr (hhead.mpr hindex)), ?_, verifyTransactionsFrom_eq_ok.mpr hfits, ?_⟩
    · exact failIf_eq_ok.mpr (not_not.mpr (by rw [hmsg, hlen, UInt64.ofNat_toNat]))
    · rw [hlen, UInt64.ofNat_toNat]
    · cases delta with
      | false => rfl
      | true =>
        rw [if_pos rfl, hmsg]
        exact (verifyInjectedMsgSupplyDeltaTx_eq_ok hcap hn).mpr (hsd rfl)
    · rw [checkMinimumNumTxs_eq_ok hcap (hmsg ▸ hn), hmsg]
      cases delta with
      | false => simpa using hmin
      | true =>
        obtain ⟨hi, -⟩ := List.getElem?_eq_some_iff.mp (hsd rfl)
        simp only [if_true]
        omega

theorem expectedMsgIndexAndEventTxs_eq_ok {time : Time} {injected : MsgIndex} {block q : UInt64}
    {blocked : List GoString} {r : MsgIndex × List Bytes} :
    expectedMsgIndexAndEventTxs app sidecar s time injected block blocked q = .ok r ↔
      (injected.noEthereumSyncing = true ∧ ethSyncDelayExceeded s.bridge time = false ∧
        r = (⟨app.keeper.authority, 0, false, block⟩, [])) ∨
      (injected.noEthereumSyncing = false ∧ ∃ gen,
        eventTxsFrom app s.bridge.params blocked block (answeredEvents (sidecar block)) q = .ok gen ∧
        r = (⟨app.keeper.authority, UInt64.ofNat gen.length, (sidecar block).isOk, block⟩, gen)) := by
  unfold expectedMsgIndexAndEventTxs
  cases injected.noEthereumSyncing with
  | true =>
    simp only [if_true, except_bind_eq_ok, failIf_eq_ok, exists_const, except_pure, Except.ok.injEq,
      Bool.not_eq_true, true_and, Bool.true_eq_false, false_and, or_false]
    exact and_congr_right fun _ => eq_comm
  | false =>
    simp only [Bool.false_eq_true, if_false, wrapping_eq_ok, generateMsgIndexAndEventTxs_eq_ok,
      false_and, true_and, false_or]

/-! ## The verifier's decision -/

theorem fromRawTxBytes_rawTxBytes (hlaw : app.sdk.Lawful) (m : MsgIndex) (sequence : UInt64) :
    MsgIndex.fromRawTxBytes app.sdk.txDecode (m.rawTxBytes sequence) = .ok m := by
  have hdec := hlaw.txDecode_single sequence (hlaw.unpackAny_index m)
  rw [MsgIndex.fromRawTxBytes, MsgIndex.rawTxBytes, hdec]
  rfl

theorem noEthereumSyncing_iff {m : MsgIndex} :
    m.noEthereumSyncing = true ↔ m.newEthereumBlock = false ∧ m.numInjectedEventTxs = 0 := by
  have hpos : ¬ m.numInjectedEventTxs > 0 ↔ m.numInjectedEventTxs = 0 := by
    rw [gt_iff_lt, UInt64.lt_iff_toNat_lt, ← UInt64.toNat_inj]
    simp
  rw [← hpos, MsgIndex.noEthereumSyncing, MsgIndex.isFullEthereumSyncing,
    MsgIndex.isPartialEthereumSyncing]
  cases m.newEthereumBlock <;> simp

/-- The sequences of the handlers in terms of the view. -/
theorem View.Of.sequences {height : UInt64} {v : View} (hv : View.Of app s height v) {q : TxSequences} :
    generateTxSequences s v.delta = .ok q ↔
      q = ⟨v.sequence + 1, if v.delta then v.sequence + 2 else 0, v.firstEventTxsSequence⟩ := by
  have htwo : v.sequence + 1 + 1 = v.sequence + 2 := UInt64.add_assoc _ _ _
  rw [generateTxSequences_eq_ok]
  constructor
  · rintro ⟨last, hlast, rfl⟩
    cases Option.some.inj (hlast.symm.trans hv.sequence)
    cases hd : v.delta <;> simp [View.firstEventTxsSequence, hd, htwo]
  · rintro rfl
    refine ⟨v.sequence, hv.sequence, ?_⟩
    cases hd : v.delta <;> simp [View.firstEventTxsSequence, hd, htwo]

theorem length_generated {v : View} {params : Params} {response : QueryBlockEventsResponse}
    {gen : List Bytes} (h : v.generated app params response.events = .ok gen) :
    gen.length = response.events.length ∧ gen.length < maxLen := by
  have hlen := length_eventTxsFrom h
  exact ⟨hlen, hlen ▸ response.length_lt⟩

/-- Cutting the generated list and checking the proposal against the result. -/
theorem cut_verified_iff {v : View} {txs : Slice Bytes} (gen : List Bytes) (flag : Bool) (n : UInt64)
    (hne : txs.elems.length ≠ 0) (hgen : gen.length < maxLen) :
    (∃ t k, ((⟨app.keeper.authority, UInt64.ofNat gen.length, flag, v.last + 1⟩ :
          MsgIndex).trimEventsFromHead gen v.offset = .ok t ∧ t.1.keepEventsFromHead t.2 n = .ok k) ∧
        Verified app maxGas txs n v.delta ⟨v.sequence + 1, if v.delta then v.sequence + 2 else 0,
          v.firstEventTxsSequence⟩ k.1 k.2.1) ↔
      (v.offset = 0 ∨ v.offset.toNat < gen.length) ∧ n.toNat ≤ gen.length - v.offset.toNat ∧
      (v.offset.toNat < gen.length → 1 ≤ n.toNat) ∧
      txs.elems[0]? =
        some (v.indexTx app n (flag && decide (n.toNat = gen.length - v.offset.toNat))) ∧
      (txs.elems.drop 1).take n.toNat = (gen.drop v.offset.toNat).take n.toNat ∧
      (v.delta = true → txs.elems[1 + n.toNat]? = some (v.supplyDeltaTx app)) ∧
      TxsFit app.sdk.txDecode (maxGas.getD 0).toInt 0 txs.elems := by
  have hsd : (v.delta = true → txs.elems[1 + n.toNat]? = some
      ((MsgSupplyDelta.mk app.keeper.authority).rawTxBytes (if v.delta then v.sequence + 2 else 0))) ↔
      (v.delta = true → txs.elems[1 + n.toNat]? = some (v.supplyDeltaTx app)) := by
    refine forall_congr' fun hd => ?_
    rw [if_pos hd, View.supplyDeltaTx]
  have hcut : n.toNat ≤ gen.length - v.offset.toNat →
      ((gen.drop v.offset.toNat).take n.toNat).length = n.toNat := by
    intro hn
    rw [List.length_take, List.length_drop]
    omega
  constructor
  · rintro ⟨t, k, htk, h⟩
    obtain ⟨ho, hn, hpos, -, rfl⟩ := (trim_keep_eq_ok gen hgen).mp htk
    obtain ⟨hindex, hev, hs, hfits⟩ :=
      (verified_iff n (v.indexMsg app n _) _ hne (by omega) rfl (hcut hn)).mp h
    exact ⟨ho, hn, hpos, hindex, hev, hsd.mp hs, hfits⟩
  · rintro ⟨ho, hn, hpos, hindex, hev, hs, hfits⟩
    exact ⟨_, _, (trim_keep_eq_ok gen hgen).mpr ⟨ho, hn, hpos, rfl, rfl⟩,
      (verified_iff n (v.indexMsg app n _) _ hne (by omega) rfl (hcut hn)).mpr
        ⟨hindex, hev, hsd.mpr hs, hfits⟩⟩

theorem headD_eq_of_getElem? {txs : List Bytes} {tx : Bytes} (h : txs[0]? = some tx) :
    txs.length ≠ 0 ∧ txs.headD [] = tx := by
  cases txs with
  | nil => simp at h
  | cons a txs => exact ⟨by simp, by simpa using h⟩

/-- Every accepted proposal is of the described form. -/
theorem accepted_of_processProposal (hlaw : app.sdk.Lawful) {req : RequestProcessProposal}
    (h : processProposal app sidecar maxGas s req = .ok ()) : ∃ v m full, View.Of app s req.height v ∧
      Accepted app sidecar s maxGas req.time v req.txs.elems m full := by
  obtain ⟨hne, v, hv, q, hq, injected, hinj, e, he, t, k, htk, hver⟩ := processProposal_eq_ok_steps.mp h
  obtain rfl := hv.sequences.mp hq
  rcases expectedMsgIndexAndEventTxs_eq_ok.mp he with ⟨-, hdelay, rfl⟩ | ⟨hsync, gen, hgen, rfl⟩
  · obtain ⟨ho, hn, -, hindex, -, hsd, hfits⟩ :=
      (cut_verified_iff [] false injected.numInjectedEventTxs hne (by decide)).mp ⟨t, k, htk, hver⟩
    have hn0 : injected.numInjectedEventTxs = 0 := UInt64.toNat_inj.mp (by simpa using hn)
    have hoff : v.offset = 0 := by simpa using ho
    rw [hn0] at hindex hsd
    exact ⟨v, 0, false, hv, hindex, Or.inl ⟨rfl, rfl, hoff, hdelay⟩, hsd, hfits⟩
  · have hlt : gen.length < maxLen := by
      rw [length_eventTxsFrom hgen]
      exact length_answeredEvents_lt _
    obtain ⟨ho, hn, hpos, hindex, hev, hsd, hfits⟩ :=
      (cut_verified_iff gen _ injected.numInjectedEventTxs hne hlt).mp ⟨t, k, htk, hver⟩
    cases ha : sidecar (v.last + 1) with
    | error err =>
      -- an erroring sidecar yields the message of no synchronisation, which the first one is not
      rw [ha] at hgen hindex
      cases hgen
      rw [(headD_eq_of_getElem? hindex).2, View.indexTx, fromRawTxBytes_rawTxBytes hlaw] at hinj
      have hn0 : injected.numInjectedEventTxs = 0 := UInt64.toNat_inj.mp (by simpa using hn)
      have hflag : injected.newEthereumBlock = false := by
        rw [← Except.ok.inj hinj]
        rfl
      rw [noEthereumSyncing_iff.mpr ⟨hflag, hn0⟩] at hsync
      cases hsync
    | ok response =>
      rw [ha] at hgen hindex
      refine ⟨v, _, _, hv, hindex, Or.inr ⟨response, gen, ha, hgen, ho, hn, hpos, ?_, hev⟩, hsd, hfits⟩
      simp [Except.isOk, Except.toBool]

theorem processProposal_of_accepted (hlaw : app.sdk.Lawful) {req : RequestProcessProposal} {v : View}
    {m : UInt64} {full : Bool} (hv : View.Of app s req.height v)
    (h : Accepted app sidecar s maxGas req.time v req.txs.elems m full) :
    processProposal app sidecar maxGas s req = .ok () := by
  rcases h with ⟨hindex, hevents, hsd, hfits⟩
  obtain ⟨hne, hhead⟩ := headD_eq_of_getElem? hindex
  refine processProposal_eq_ok_steps.mpr ⟨hne, v, hv, _, hv.sequences.mpr rfl, v.indexMsg app m full,
    ?_, ?_⟩
  · rw [hhead]
    exact fromRawTxBytes_rawTxBytes hlaw _ _
  · rcases hevents with ⟨rfl, rfl, ho, hdelay⟩ | ⟨response, gen, ha, hgen, ho, hn, hpos, hflag, hev⟩
    · exact ⟨_, expectedMsgIndexAndEventTxs_eq_ok.mpr (Or.inl
        ⟨noEthereumSyncing_iff.mpr ⟨rfl, rfl⟩, hdelay, rfl⟩),
        (cut_verified_iff [] false 0 hne (by decide)).mpr
          ⟨Or.inl ho, by simp, by simp, hindex, by simp, hsd, hfits⟩⟩
    · obtain ⟨-, hlt⟩ := length_generated hgen
      have hfull : full = (true && decide (m.toNat = gen.length - v.offset.toNat)) := by
        cases full <;> simp_all
      have hsync : (v.indexMsg app m full).noEthereumSyncing = false := by
        rw [Bool.eq_false_iff]
        intro hno
        obtain ⟨hf, hm⟩ := noEthereumSyncing_iff.mp hno
        change full = false at hf
        change m = 0 at hm
        subst hf hm
        have hrest : ¬ (0 : UInt64).toNat = gen.length - v.offset.toNat := fun hz => by
          cases hflag.mpr hz
        have hone := hpos (by simp at hrest; omega)
        simp at hone
      rw [hfull] at hindex
      refine ⟨_, expectedMsgIndexAndEventTxs_eq_ok.mpr (Or.inr ⟨hsync, gen, ?_, rfl⟩), ?_⟩
      · rw [ha]
        exact hgen
      · rw [ha]
        exact (cut_verified_iff gen true m hne hlt).mpr ⟨ho, hn, hpos, hindex, hev, hsd, hfits⟩

/-- The state determines what the handlers read. -/
theorem View.Of.unique {height : UInt64} {v v' : View} (hv : View.Of app s height v)
    (hv' : View.Of app s height v') : v = v' := by
  cases v
  cases v'
  cases Except.ok.inj (hv.delta.symm.trans hv'.delta)
  cases Except.ok.inj (hv.blocked.symm.trans hv'.blocked)
  cases Option.some.inj (hv.last.symm.trans hv'.last)
  cases Option.some.inj (hv.offset.symm.trans hv'.offset)
  cases Option.some.inj (hv.sequence.symm.trans hv'.sequence)
  rfl

/-- What the handlers read from the reference state at the first height. -/
def referenceView : View := ⟨false, [str "fuelsequencer1qurswpc8qurswpc8qurswpc8qurswpc8yranqr",
  Reference.authority], 0, 0, 0⟩

/-- A block that delivers one deposit and so completes the first Ethereum block. -/
def referenceProposal : RequestProcessProposal where
  txs := ⟨[referenceView.indexTx Reference.app 1 true, validRawTxBytesFromAnyMsgs
    [(MsgDepositFromEthereum.mk Reference.authority (Reference.ethText Reference.depositor)
      (Reference.ethText Reference.recipient) (decimal 5) (decimal 0)).toAny] 2], [], by decide⟩
  height := 1
  time := 0

end FuelSequencer.Abci
