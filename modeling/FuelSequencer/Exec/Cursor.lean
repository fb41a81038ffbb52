import FuelSequencer.Exec.Runs

/-! # Consuming a sequence of lists part by part

A history gives a finite list for each place of a sequence. A cursor names the first
entry that is not consumed yet. It moves by consuming nothing, a part of the list it
stands in that leaves something over, or all that is left of that list.
-/
namespace FuelSequencer.Exec

variable {ι α : Type*}

structure Cursor (ι : Type*) where
  place : ι
  offset : ℕ

variable {next : ι → ι} {history : ι → List α} {c c' : Cursor ι} {xs : List α}

/-- What is left of the list in which the cursor stands. -/
def Cursor.rest (history : ι → List α) (c : Cursor ι) : List α := (history c.place).drop c.offset

/-- The entries from the cursor on, through `k` further lists. -/
def Cursor.entries (next : ι → ι) (history : ι → List α) : Cursor ι → ℕ → List α
  | c, 0 => c.rest history
  | c, k + 1 => c.rest history ++ Cursor.entries next history ⟨next c.place, 0⟩ k

inductive Cursor.Advance (next : ι → ι) (history : ι → List α) : Cursor ι → List α → Cursor ι → Prop where
  | stay (c : Cursor ι) : Advance next history c [] c
  | part (c : Cursor ι) (n : ℕ) (h : c.offset + n < (history c.place).length) :
      Advance next history c ((c.rest history).take n) ⟨c.place, c.offset + n⟩
  | whole (c : Cursor ι) : Advance next history c (c.rest history) ⟨next c.place, 0⟩

namespace Cursor

/-- What follows the head of the list does not depend on the cursor's offset. -/
theorem entries_eq_append (h : c.rest history = xs ++ c'.rest history) (hplace : c'.place = c.place)
    (k : ℕ) : c.entries next history k = xs ++ c'.entries next history k := by
  cases k with
  | zero => exact h
  | succ k => rw [entries, entries, h, hplace, List.append_assoc]

/-- One move consumes exactly the entries between the two cursors. -/
theorem Advance.entries_eq (h : Advance next history c xs c') : ∃ d, c'.place = next^[d] c.place ∧
    ∀ k, c.entries next history (d + k) = xs ++ c'.entries next history k := by
  cases h with
  | stay => exact ⟨0, rfl, fun k => by rw [Nat.zero_add, List.nil_append]⟩
  | part n hn =>
    refine ⟨0, rfl, fun k => ?_⟩
    rw [Nat.zero_add]
    have hsplit : c.rest history = (c.rest history).take n ++ Cursor.rest history ⟨c.place, c.offset + n⟩ := by
      rw [rest, rest, ← List.drop_drop, List.take_append_drop]
    exact entries_eq_append hsplit rfl k
  | whole =>
    refine ⟨1, rfl, fun k => ?_⟩
    rw [Nat.add_comm, entries]

/-- A run of moves consumes, in order and without a gap, the entries between its ends. -/
theorem entries_of_runs {ls : List (List α)} (h : Runs (Advance next history) c ls c') :
    ∃ d, c'.place = next^[d] c.place ∧
      ∀ k, c.entries next history (d + k) = ls.flatten ++ c'.entries next history k := by
  refine h.invariant (I := fun ls c' => ∃ d, c'.place = next^[d] c.place ∧
    ∀ k, c.entries next history (d + k) = ls.flatten ++ c'.entries next history k) ?_ ?_
  · exact ⟨0, rfl, fun k => by rw [Nat.zero_add, List.flatten_nil, List.nil_append]⟩
  · rintro ls t xs u ⟨d, hplace, hentries⟩ hstep
    obtain ⟨d', hplace', hentries'⟩ := hstep.entries_eq
    refine ⟨d' + d, ?_, fun k => ?_⟩
    · rw [hplace', hplace, Function.iterate_add_apply]
    · calc c.entries next history (d' + d + k)
          = c.entries next history (d + (d' + k)) := by rw [Nat.add_comm d' d, Nat.add_assoc]
        _ = ls.flatten ++ (xs ++ u.entries next history k) := by rw [hentries, hentries']
        _ = (ls ++ [xs]).flatten ++ u.entries next history k := by simp

/-! ## How many moves take the cursor on -/

/-- So many moves take the cursor through `k` lists, if each of them consumes an entry or ends a list. -/
def work (next : ι → ι) (history : ι → List α) : Cursor ι → ℕ → ℕ
  | _, 0 => 0
  | c, k + 1 => max 1 (c.rest history).length + work next history ⟨next c.place, 0⟩ k

/-- `n` such moves have taken the cursor from `c` through `d` lists to `c'`: what is left to do
from there on was spared. -/
structure Paced (next : ι → ι) (history : ι → List α) (c : Cursor ι) (n d : ℕ) (c' : Cursor ι) : Prop where
  place : c'.place = next^[d] c.place
  work_le : ∀ k, d < k → n + c'.work next history (k - d) ≤ c.work next history k

theorem work_pos {k : ℕ} (hk : 0 < k) : 0 < c.work next history k := by
  obtain ⟨k, rfl⟩ := Nat.exists_eq_succ_of_ne_zero hk.ne'
  rw [work]
  omega

theorem paced_refl (c : Cursor ι) : Paced next history c 0 0 c :=
  ⟨rfl, fun k _ => by rw [Nat.zero_add, Nat.sub_zero]⟩

theorem Paced.trans {c'' : Cursor ι} {n n' d d' : ℕ} (h : Paced next history c n d c')
    (h' : Paced next history c' n' d' c'') : Paced next history c (n + n') (d' + d) c'' where
  place := by rw [h'.place, h.place, Function.iterate_add_apply]
  work_le := by
    intro k hk
    have hfirst := h.work_le k (by omega)
    have hsecond := h'.work_le (k - d) (by omega)
    rw [Nat.sub_sub, Nat.add_comm d d'] at hsecond
    omega

/-- A part of a list that leaves something over is worth its entries. -/
theorem work_part {n k : ℕ} (hn : c.offset + n < (history c.place).length) :
    n + work next history ⟨c.place, c.offset + n⟩ (k + 1) = c.work next history (k + 1) := by
  simp only [work, rest, List.length_drop]
  omega

/-- A move counts if it consumes an entry or ends a list. -/
theorem Advance.paced (h : Advance next history c xs c') {i : ℕ} (hi : i ≤ 1)
    (hmoved : i = 1 → xs ≠ [] ∨ c'.place ≠ c.place) : ∃ d, Paced next history c i d c' := by
  cases h with
  | stay =>
    have hzero : i = 0 := by
      rcases Nat.le_one_iff_eq_zero_or_eq_one.mp hi with hzero | hone
      · exact hzero
      · rcases hmoved hone with hxs | hplace
        · exact absurd rfl hxs
        · exact absurd rfl hplace
    rw [hzero]
    exact ⟨0, paced_refl c⟩
  | part n hn =>
    have hle : i ≤ n := by
      by_contra hlt
      have hnone : n = 0 := by omega
      rcases hmoved (by omega) with hxs | hplace
      · apply hxs
        rw [hnone, List.take_zero]
      · exact hplace rfl
    refine ⟨0, rfl, fun k hk => ?_⟩
    obtain ⟨k, rfl⟩ := Nat.exists_eq_succ_of_ne_zero hk.ne'
    have hwork : n + work next history ⟨c.place, c.offset + n⟩ (k + 1) = c.work next history (k + 1) := work_part hn
    rw [Nat.sub_zero]
    exact (Nat.add_le_add_right hle _).trans hwork.le
  | whole =>
    refine ⟨1, rfl, fun k hk => ?_⟩
    obtain ⟨k, rfl⟩ := Nat.exists_eq_succ_of_ne_zero (Nat.ne_of_gt (Nat.zero_lt_of_lt hk))
    rw [Nat.succ_sub_one, work]
    omega

/-- Enough moves have taken the cursor through as many lists as asked. -/
theorem Paced.passed {n d k : ℕ} (h : Paced next history c n d c') (hn : c.work next history k ≤ n) : k ≤ d := by
  by_contra hlt
  have hwork := h.work_le k (by omega)
  have hpos : 0 < c'.work next history (k - d) := work_pos (by omega)
  omega

end Cursor

end FuelSequencer.Exec
