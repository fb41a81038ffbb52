import FuelSequencer.Bridge.Messages

/-! # Packing events into a block

The proposer drops the events that were delivered before, counts how many of the rest
fit beside the index message and keeps these. The count is made with the index message
before its last change; the change never makes it larger.
-/
namespace FuelSequencer.Bridge
open Go Wire Exec Lib Wiring

namespace MsgIndex

variable {m : MsgIndex} {txs : List Bytes} {maxBytes n k : ℕ} {offset sequence : UInt64}

/-! ## How many events fit -/

theorem fitting_le : fitting maxBytes n txs ≤ txs.length := by
  induction txs generalizing n with
  | nil => exact le_rfl
  | cons tx txs ih =>
    unfold fitting
    split_ifs
    · exact Nat.zero_le _
    · exact Nat.succ_le_succ ih

theorem txsSize_take_succ (tx : Bytes) (txs : List Bytes) (k : ℕ) : txsSize ((tx :: txs).take (k + 1)) = txSize tx + txsSize (txs.take k) := by
  simp [txsSize]

theorem txsSize_fitting (hn : n ≤ maxBytes) : n + txsSize (txs.take (fitting maxBytes n txs)) ≤ maxBytes := by
  induction txs generalizing n with
  | nil => simpa [fitting, txsSize] using hn
  | cons tx txs ih =>
    unfold fitting
    split_ifs with hfull
    · simpa [txsSize] using hn
    · have htail := ih (n := n + txSize tx) (by omega)
      have hsum := txsSize_take_succ tx txs (fitting maxBytes (n + txSize tx) txs)
      omega

/-- No longer part of the events fits. -/
theorem le_fitting (hk : k ≤ txs.length) (hsize : n + txsSize (txs.take k) ≤ maxBytes) :
    k ≤ fitting maxBytes n txs := by
  induction txs generalizing n k with
  | nil => exact hk
  | cons tx txs ih =>
    cases k with
    | zero => exact Nat.zero_le _
    | succ k =>
      have hsum := txsSize_take_succ tx txs k
      unfold fitting
      rw [if_neg (by omega)]
      exact Nat.succ_le_succ (ih (Nat.le_of_succ_le_succ hk) (by omega))

theorem isGreatest_fitting (hn : n ≤ maxBytes) :
    IsGreatest {k | k ≤ txs.length ∧ n + txsSize (txs.take k) ≤ maxBytes} (fitting maxBytes n txs) :=
  ⟨⟨fitting_le, txsSize_fitting hn⟩, fun _ hk => le_fitting hk.1 hk.2⟩

theorem fitting_cons_pos_iff {tx : Bytes} : 0 < fitting maxBytes n (tx :: txs) ↔ n + txSize tx ≤ maxBytes := by
  unfold fitting
  split_ifs with hfull
  · simpa using hfull
  · simpa using not_lt.mp hfull

theorem fitting_eq_zero_iff : fitting maxBytes n txs = 0 ↔ ∀ tx rest, txs = tx :: rest → maxBytes < n + txSize tx := by
  cases txs with
  | nil => simp [fitting]
  | cons tx txs =>
    rw [← Nat.le_zero, ← Nat.not_lt, fitting_cons_pos_iff]
    simp

theorem numberOfEventsWithMaxBytes_eq_ok : m.numberOfEventsWithMaxBytes txs maxBytes sequence = .ok k ↔
    txSize (m.rawTxBytes sequence) ≤ maxBytes ∧ fitting maxBytes (txSize (m.rawTxBytes sequence)) txs = k := by
  simp only [numberOfEventsWithMaxBytes, except_bind_eq_ok, failIf_eq_ok, exists_const, except_pure, Except.ok.injEq,
    not_lt, gt_iff_lt]

/-! ## Errors -/

theorem trimEventsFromHead_eq_error (hlen : m.numInjectedEventTxs.toNat = txs.length) {e : Fault GoString}
    (h : m.trimEventsFromHead txs offset = .error e) :
    e = m.errCannotTrimAll ∨ e = errInsufficient offset m.numInjectedEventTxs := by
  by_cases hok : offset = 0 ∨ offset.toNat < txs.length
  · rw [(trimEventsFromHead_eq_ok hlen).mpr ⟨hok, rfl⟩] at h
    cases h
  · rw [not_or, not_lt] at hok
    unfold trimEventsFromHead at h
    rw [if_neg hok.1] at h
    split_ifs at h with hall hmore
    · exact .inl (Except.error.inj h).symm
    · exact .inr (Except.error.inj h).symm
    · -- the count of the message is the number of events
      exfalso
      have hle := UInt64.le_iff_toNat_le.mp (UInt64.not_lt.mp hmore)
      have heq : m.numInjectedEventTxs = offset := UInt64.toNat_inj.mp (by omega)
      refine hall ⟨UInt64.pos_iff_ne_zero.mpr fun hzero => hok.1 ?_, heq⟩
      rw [← heq, hzero]

theorem keepEventsFromHead_eq_error (hlen : m.numInjectedEventTxs.toNat = txs.length) {keep : UInt64}
    {e : Fault GoString} (h : m.keepEventsFromHead txs keep = .error e) :
    e = m.errCannotTrimAll ∨ e = errInsufficient keep m.numInjectedEventTxs := by
  by_cases hok : keep.toNat ≤ txs.length ∧ (0 < txs.length → 0 < keep.toNat)
  · rw [(keepEventsFromHead_eq_ok hlen).mpr ⟨hok.1, hok.2, rfl⟩] at h
    cases h
  · unfold keepEventsFromHead at h
    split_ifs at h with hsame hall hmore
    · exact .inl (Except.error.inj h).symm
    · exact .inr (Except.error.inj h).symm
    · exfalso
      have hle := UInt64.le_iff_toNat_le.mp (UInt64.not_lt.mp hmore)
      refine hok ⟨by omega, fun hpos => ?_⟩
      refine Nat.pos_of_ne_zero fun hzero => hall ⟨?_, UInt64.toNat_inj.mp hzero⟩
      rw [gt_iff_lt, UInt64.lt_iff_toNat_lt, hlen]
      exact hpos

/-! ## The three steps -/

/-- The events from the offset on that fit into the space, and the index message for them. -/
def packEvents (m : MsgIndex) (eventTxs : List Bytes) (offset : UInt64) (maxBytes : ℕ) (sequence : UInt64) :
    Outcome GoString (MsgIndex × List Bytes) := do
  let trimmed ← m.trimEventsFromHead eventTxs offset
  let numberOfEvents ← wrapping id (trimmed.1.numberOfEventsWithMaxBytes trimmed.2 maxBytes sequence)
  let kept ← trimmed.1.keepEventsFromHead trimmed.2 (UInt64.ofNat numberOfEvents)
  return (kept.1, kept.2.1)

/-- The index message after the head is trimmed. -/
def trimmedIndex (m : MsgIndex) (txs : List Bytes) (offset : UInt64) : MsgIndex :=
  m.withCount (txs.length - offset.toNat) m.newEthereumBlock

theorem toNat_trimmedIndex (hlen : m.numInjectedEventTxs.toNat = txs.length) :
    (trimmedIndex m txs offset).numInjectedEventTxs.toNat = (txs.drop offset.toNat).length := by
  have hlt : txs.length < UInt64.size := hlen ▸ m.numInjectedEventTxs.toNat_lt
  rw [List.length_drop]
  exact UInt64.toNat_ofNat_of_lt' (lt_of_le_of_lt (Nat.sub_le _ _) hlt)

/-- The steps succeed exactly if the head can be trimmed, the index message fits and some event
fits beside it unless none is left. -/
theorem packEvents_eq_ok (hlen : m.numInjectedEventTxs.toNat = txs.length) {r : MsgIndex × List Bytes} :
    m.packEvents txs offset maxBytes sequence = .ok r ↔
      (offset = 0 ∨ offset.toNat < txs.length) ∧
      txSize ((trimmedIndex m txs offset).rawTxBytes sequence) ≤ maxBytes ∧
      ∃ k, fitting maxBytes (txSize ((trimmedIndex m txs offset).rawTxBytes sequence)) (txs.drop offset.toNat) = k ∧
        (0 < (txs.drop offset.toNat).length → 0 < k) ∧
        r = (m.withCount k (m.newEthereumBlock && decide (k = (txs.drop offset.toNat).length)),
          (txs.drop offset.toNat).take k) := by
  have hcount : (trimmedIndex m txs offset).numInjectedEventTxs.toNat = (txs.drop offset.toNat).length :=
    toNat_trimmedIndex hlen
  have htoNat : ∀ k ≤ (txs.drop offset.toNat).length, (UInt64.ofNat k).toNat = k := fun k hk =>
    UInt64.toNat_ofNat_of_lt' (lt_of_le_of_lt (hk.trans hcount.ge) (UInt64.toNat_lt _))
  simp only [packEvents, except_bind_eq_ok, wrapping_eq_ok, except_pure, Except.ok.injEq]
  constructor
  · rintro ⟨trimmed, htrim, k, hk, kept, hkept, rfl⟩
    obtain ⟨hoffset, rfl⟩ := (trimEventsFromHead_eq_ok hlen).mp htrim
    obtain ⟨hfits, hk⟩ := numberOfEventsWithMaxBytes_eq_ok.mp hk
    obtain ⟨-, hpos, rfl⟩ := (keepEventsFromHead_eq_ok hcount).mp hkept
    rw [htoNat k (hk ▸ fitting_le)] at hpos ⊢
    exact ⟨hoffset, hfits, k, hk, hpos, rfl⟩
  · rintro ⟨hoffset, hfits, k, hk, hpos, rfl⟩
    have hle : k ≤ (txs.drop offset.toNat).length := hk ▸ fitting_le
    refine ⟨_, (trimEventsFromHead_eq_ok hlen).mpr ⟨hoffset, rfl⟩, k,
      numberOfEventsWithMaxBytes_eq_ok.mpr ⟨hfits, hk⟩, _,
      (keepEventsFromHead_eq_ok hcount).mpr ⟨by rwa [htoNat k hle], by rwa [htoNat k hle], rfl⟩, ?_⟩
    rw [htoNat k hle]
    rfl

/-- Every failure of the steps is a returned error, none of them about a larger message. -/
theorem packEvents_eq_error (hlen : m.numInjectedEventTxs.toNat = txs.length) {e : Fault GoString}
    (h : m.packEvents txs offset maxBytes sequence = .error e) :
    (∃ text, e = .err text) ∧ ∀ before after, e ≠ errSizeIncrease before after := by
  -- the texts differ in their first letter
  have hother : ∀ {text rest : GoString} {c : UInt8}, text = c :: rest → c ≠ 117 → e = .err text →
      (∃ text, e = .err text) ∧ ∀ before after, e ≠ errSizeIncrease before after := by
    rintro text rest c rfl hc rfl
    exact ⟨⟨_, rfl⟩, fun before after heq => hc (List.cons.inj (Fault.err.inj heq)).1⟩
  rcases except_bind_eq_error.mp h with htrim | ⟨trimmed, htrim, h⟩
  · rcases trimEventsFromHead_eq_error hlen htrim with he | he
    · exact hother rfl (by decide) he
    · exact hother rfl (by decide) he
  obtain ⟨-, rfl⟩ := (trimEventsFromHead_eq_ok hlen).mp htrim
  rcases except_bind_eq_error.mp h with hnumber | ⟨k, hnumber, h⟩
  · obtain ⟨text, hnumber, he⟩ := wrapping_eq_error.mp hnumber
    rcases except_bind_eq_error.mp hnumber with hsize | ⟨_, -, hsize⟩
    · obtain ⟨-, rfl⟩ := failIf_eq_error.mp hsize
      exact hother rfl (by decide) he
    · cases hsize
  rcases except_bind_eq_error.mp h with hkeep | ⟨_, -, h⟩
  · rcases keepEventsFromHead_eq_error (toNat_trimmedIndex hlen) hkeep with he | he
    · exact hother rfl (by decide) he
    · exact hother rfl (by decide) he
  · cases h

/-- What the steps return. -/
structure Packed (m : MsgIndex) (txs : List Bytes) (offset : UInt64) (maxBytes : ℕ) (sequence : UInt64) (k : ℕ)
    (r : MsgIndex × List Bytes) : Prop where
  greatest : IsGreatest {k | k ≤ (txs.drop offset.toNat).length ∧
    txSize ((trimmedIndex m txs offset).rawTxBytes sequence) + txsSize ((txs.drop offset.toNat).take k) ≤ maxBytes} k
  events : r.2 = (txs.drop offset.toNat).take k
  count : r.1.numInjectedEventTxs.toNat = k
  newEthereumBlock : r.1.newEthereumBlock = true ↔
    m.newEthereumBlock = true ∧ k = (txs.drop offset.toNat).length
  authority : r.1.authority = m.authority
  blockNumber : r.1.blockNumber = m.blockNumber
  size : txSize (r.1.rawTxBytes sequence) + txsSize r.2 ≤ maxBytes

/-- Trimming, counting and keeping fail exactly if there is nothing left after the offset, the
index message does not fit or no event fits beside it; otherwise they keep the longest part that
fits, and the index message for it fits too. -/
theorem packEvents_spec (hlen : m.numInjectedEventTxs.toNat = txs.length) (offset sequence : UInt64) (maxBytes : ℕ) :
    ((∃ e, m.packEvents txs offset maxBytes sequence = .error e) ↔
      (0 < offset ∧ txs.length ≤ offset.toNat) ∨
      maxBytes < txSize ((trimmedIndex m txs offset).rawTxBytes sequence) ∨
      ∃ tx rest, txs.drop offset.toNat = tx :: rest ∧
        maxBytes < txSize ((trimmedIndex m txs offset).rawTxBytes sequence) + txSize tx) ∧
    (∀ r, m.packEvents txs offset maxBytes sequence = .ok r → ∃ k, Packed m txs offset maxBytes sequence k r) ∧
    ∀ e, m.packEvents txs offset maxBytes sequence = .error e →
      (∃ text, e = .err text) ∧ ∀ before after, e ≠ errSizeIncrease before after := by
  refine ⟨?_, ?_, fun e h => packEvents_eq_error hlen h⟩
  · have hoffset : ¬ (offset = 0 ∨ offset.toNat < txs.length) ↔ 0 < offset ∧ txs.length ≤ offset.toNat := by
      rw [not_or, not_lt, UInt64.pos_iff_ne_zero]
    have hfirst : ∀ n, ¬ (0 < (txs.drop offset.toNat).length → 0 < fitting maxBytes n (txs.drop offset.toNat)) ↔
        ∃ tx rest, txs.drop offset.toNat = tx :: rest ∧ maxBytes < n + txSize tx := by
      intro n
      rw [Classical.not_imp, Nat.not_lt, Nat.le_zero, fitting_eq_zero_iff, List.length_pos_iff_exists_cons]
      constructor
      · rintro ⟨⟨tx, rest, hcons⟩, hall⟩
        exact ⟨tx, rest, hcons, hall tx rest hcons⟩
      · rintro ⟨tx, rest, hcons, hlt⟩
        refine ⟨⟨tx, rest, hcons⟩, fun tx' rest' hcons' => ?_⟩
        rw [hcons] at hcons'
        exact (List.cons.inj hcons').1 ▸ hlt
    rw [exists_eq_error_iff, ← hoffset, ← hfirst, ← not_le (b := maxBytes), ← not_and_or, ← not_and_or]
    simp only [packEvents_eq_ok hlen, exists_and_left, exists_eq_left', exists_eq, and_true]
  · intro r hr
    obtain ⟨-, hfits, k, hk, -, rfl⟩ := (packEvents_eq_ok hlen).mp hr
    have hle : k ≤ (txs.drop offset.toNat).length := hk ▸ fitting_le
    have hcount : (UInt64.ofNat k).toNat = k :=
      UInt64.toNat_ofNat_of_lt' (lt_of_le_of_lt (hle.trans (toNat_trimmedIndex hlen).ge) (UInt64.toNat_lt _))
    have hgreatest : IsGreatest {k | k ≤ (txs.drop offset.toNat).length ∧
        txSize ((trimmedIndex m txs offset).rawTxBytes sequence) + txsSize ((txs.drop offset.toNat).take k) ≤
          maxBytes} k := hk ▸ isGreatest_fitting hfits
    refine ⟨k, hgreatest, rfl, hcount, by simp [withCount], rfl, rfl, ?_⟩
    -- the message changed after the counting, but did not grow
    have hsize : (m.withCount k (m.newEthereumBlock && decide (k = (txs.drop offset.toNat).length))).size ≤
        (trimmedIndex m txs offset).size := by
      refine MsgIndex.size_le rfl rfl ?_ fun h => ((Bool.and_eq_true _ _).mp h).1
      rw [UInt64.le_iff_toNat_le, toNat_trimmedIndex hlen]
      exact hcount.trans_le hle
    have htx := txSize_mono (MsgIndex.length_rawTxBytes_mono sequence hsize)
    have htotal := hgreatest.1.2
    dsimp only
    omega

/-- Three events, the first of them delivered before; only one of the others fits. -/
theorem packEvents_spec_second_of_three :
    let txs : List Bytes := [List.replicate 40 1, List.replicate 50 2, List.replicate 60 3]
    ∃ r k, (⟨str "authority", 3, true, 8⟩ : MsgIndex).packEvents txs 1 150 5 = .ok r ∧
      Packed ⟨str "authority", 3, true, 8⟩ txs 1 150 5 k r ∧ r.2 = [List.replicate 50 2] := by
  intro txs
  have hrun : (⟨str "authority", 3, true, 8⟩ : MsgIndex).packEvents txs 1 150 5 =
      .ok (⟨str "authority", 1, false, 8⟩, [List.replicate 50 2]) := by decide +kernel
  obtain ⟨k, hpacked⟩ := (packEvents_spec rfl 1 5 150).2.1 _ hrun
  exact ⟨_, k, hrun, hpacked, rfl⟩

end MsgIndex

end FuelSequencer.Bridge
