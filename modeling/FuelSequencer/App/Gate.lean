import FuelSequencer.App.Journal
import FuelSequencer.App.Reference

/-! # The index as a gate

The index counts the injected transactions that the ante handler lets through and the
special messages that fail. Over a whole block its value is a tally of the journal, and
the end of the block passes exactly when that tally is in order.
-/
namespace FuelSequencer.Wiring
open Go Wire Exec Lib Bridge

variable {W : Type} {app : App W} {ctx : Ctx}

/-! ## The index along the journal -/

/-- What an entry makes of the index. -/
def replayIndex : Option Index → Entry → Option Index
  | _, .indexed _ total => some ⟨total, 0, 0⟩
  | o, .failed =>
    some { o.getD emptyIndex with numFailedSpecialTxs := (o.getD emptyIndex).numFailedSpecialTxs + 1 }
  | o, .counted => o.map fun i => { i with numInjectedTxsAnte := i.numInjectedTxsAnte + 1 }
  | o, _ => o

theorem Effect.index_eq {b b' : Store} {e : Entry} (h : Effect ctx b e b') :
    b'.index = replayIndex b.index e := by
  cases h with
  | counted hindex _ => rw [hindex]; rfl
  | _ => rfl

/-- Only failures were recorded so far. -/
def failureIndex (failures : ℕ) : Option Index :=
  if failures = 0 then none else some ⟨0, 0, UInt64.ofNat failures⟩

/-- The index after a journal that began without one: only the index message sets the
total, and from then on every count is kept. -/
structure Tally (j : Journal) (o : Option Index) : Prop where
  unset : (∀ msg total, Entry.indexed msg total ∉ j) →
    j.count .counted = 0 ∧ o = failureIndex (j.count .failed)
  set : ∀ msg total, Entry.indexed msg total ∈ j → j.count .counted ≤ total.toNat ∧
    o = some ⟨total, UInt64.ofNat (j.count .counted), UInt64.ofNat (j.count .failed)⟩

theorem tally_nil : Tally [] none := ⟨fun _ => ⟨rfl, rfl⟩, fun _ _ h => by cases h⟩

/-- Whether the index message went through so far. -/
theorem indexed_cases (j : Journal) :
    (∀ msg total, Entry.indexed msg total ∉ j) ∨ ∃ msg total, Entry.indexed msg total ∈ j := by
  by_cases h : ∃ msg total, Entry.indexed msg total ∈ j
  · exact Or.inr h
  · push Not at h
    exact Or.inl h

theorem Tally.neutral {j : Journal} {o : Option Index} {e : Entry} (h : Tally j o)
    (hindexed : ∀ msg total, e ≠ .indexed msg total) (hfailed : e ≠ .failed) (hcounted : e ≠ .counted) :
    Tally (j ++ [e]) o := by
  have hmem : ∀ msg total, Entry.indexed msg total ∈ j ++ [e] ↔ Entry.indexed msg total ∈ j := by
    intro msg total
    simp [(hindexed msg total).symm]
  have hc : (j ++ [e]).count .counted = j.count .counted := by simp [hcounted]
  have hf : (j ++ [e]).count .failed = j.count .failed := by simp [hfailed]
  refine ⟨?_, ?_⟩
  · simp only [hmem, hc, hf]
    exact h.unset
  · simp only [hmem, hc, hf]
    exact h.set

theorem Tally.indexed {j : Journal} (h : Tally j none) (msg : MsgIndex) (total : UInt64) :
    Tally (j ++ [.indexed msg total]) (some ⟨total, 0, 0⟩) := by
  have hnone : ∀ msg total, Entry.indexed msg total ∉ j := by
    intro msg' total' hmem
    cases (h.set msg' total' hmem).2
  obtain ⟨hc, hf⟩ := h.unset hnone
  have hf : j.count .failed = 0 := by
    by_contra hne
    rw [failureIndex, if_neg hne] at hf
    cases hf
  refine ⟨fun habs => absurd (by simp) (habs msg total), ?_⟩
  intro msg' total' hmem
  have heq : Entry.indexed msg' total' = .indexed msg total := by simpa [hnone] using hmem
  cases heq
  simp [hc, hf]

theorem Tally.failed {j : Journal} {o : Option Index} (h : Tally j o) :
    Tally (j ++ [.failed]) (replayIndex o .failed) := by
  have hc : (j ++ [Entry.failed]).count .counted = j.count .counted := by simp
  have hf : (j ++ [Entry.failed]).count .failed = j.count .failed + 1 := by simp
  refine ⟨?_, ?_⟩
  · intro hnone
    obtain ⟨hcount, rfl⟩ := h.unset fun msg total hmem => hnone msg total (by simp [hmem])
    refine ⟨by rw [hc, hcount], ?_⟩
    rw [hf, failureIndex, failureIndex, if_neg (Nat.succ_ne_zero _)]
    by_cases hzero : j.count .failed = 0
    · rw [if_pos hzero, hzero]
      rfl
    · rw [if_neg hzero]
      simp [replayIndex]
  · intro msg total hmem
    obtain ⟨hle, rfl⟩ := h.set msg total (by simpa using hmem)
    rw [hc, hf]
    exact ⟨hle, by simp [replayIndex]⟩

theorem Tally.counted {j : Journal} {i : Index} (h : Tally j (some i))
    (hopen : i.numInjectedTxsAnte < i.numInjectedTxsTotal) :
    Tally (j ++ [.counted]) (replayIndex (some i) .counted) := by
  have hc : (j ++ [Entry.counted]).count .counted = j.count .counted + 1 := by simp
  have hf : (j ++ [Entry.counted]).count .failed = j.count .failed := by simp
  rcases indexed_cases j with hnone | ⟨msg, total, hmem⟩
  · -- without an index message the total is zero and the gate is closed
    obtain ⟨-, ho⟩ := h.unset hnone
    rw [failureIndex] at ho
    split at ho
    · cases ho
    · cases ho
      exact absurd hopen (UInt64.lt_irrefl 0)
  · refine ⟨fun habs => absurd (by simp [hmem]) (habs msg total), ?_⟩
    intro msg' total' hmem'
    obtain ⟨hle, ho⟩ := h.set msg' total' (by simpa using hmem')
    cases ho
    rw [hc, hf]
    have hlt := UInt64.lt_iff_toNat_lt.mp hopen
    rw [UInt64.toNat_ofNat_of_lt' (lt_of_le_of_lt hle total'.toNat_lt)] at hlt
    exact ⟨hlt, by simp [replayIndex]⟩

/-- The index at the end of any run of entries is the tally of the journal. -/
theorem tally_of_follows {b b' : Store} {j : Journal} (h : Follows ctx b j b') (hnone : b.index = none) :
    Tally j b'.index := by
  refine h.invariant (I := fun j b => Tally j b.index) (hnone ▸ tally_nil) ?_
  intro j t e u htally hstep
  rw [hstep.index_eq]
  cases hstep with
  | indexed ready =>
    rw [ready.noIndex] at htally
    exact htally.indexed _ _
  | failed => exact htally.failed
  | counted hindex hopen =>
    rw [hindex] at htally ⊢
    exact htally.counted hopen
  | _ => exact htally.neutral (by simp) (by simp) (by simp)

/-- A tally is in order exactly when the index message went through, nothing failed and
the transactions counted are as many as announced. -/
theorem Tally.settled_iff {j : Journal} {o : Option Index} (h : Tally j o) (hlen : j.length < 2 ^ 64) :
    (∃ i, o = some i ∧ i.Settled) ↔ ∃ msg total, Entry.indexed msg total ∈ j ∧ Entry.failed ∉ j ∧
      j.count .counted = total.toNat := by
  have hcount : ∀ e : Entry, (UInt64.ofNat (j.count e)).toNat = j.count e := fun e =>
    UInt64.toNat_ofNat_of_lt' (lt_of_le_of_lt List.count_le_length hlen)
  have hzero : UInt64.ofNat (j.count .failed) = 0 ↔ Entry.failed ∉ j := by
    rw [← UInt64.toNat_inj, hcount, ← List.count_eq_zero]
    rfl
  rcases indexed_cases j with hnone | ⟨msg, total, hmem⟩
  · obtain ⟨-, rfl⟩ := h.unset hnone
    constructor
    · rintro ⟨i, hi, hsettled⟩
      rw [failureIndex] at hi
      split at hi
      · cases hi
      · rename_i hne
        cases hi
        exact absurd (List.count_eq_zero.mpr (hzero.mp hsettled.passed)) hne
    · rintro ⟨msg, total, hmem, -⟩
      exact absurd hmem (hnone msg total)
  · obtain ⟨-, rfl⟩ := h.set msg total hmem
    constructor
    · rintro ⟨i, hi, hseen, hpassed⟩
      cases hi
      refine ⟨msg, total, hmem, hzero.mp hpassed, ?_⟩
      change _ = total at hseen
      rw [← hseen, hcount]
    · rintro ⟨msg', total', hmem', hfailed, hseen⟩
      obtain ⟨-, heq⟩ := h.set msg' total' hmem'
      obtain rfl : total = total' := congrArg Index.numInjectedTxsTotal (Option.some.inj heq)
      refine ⟨_, rfl, ?_, hzero.mpr hfailed⟩
      rw [hseen, UInt64.ofNat_toNat]

/-! ## The end of the block -/

end FuelSequencer.Wiring
