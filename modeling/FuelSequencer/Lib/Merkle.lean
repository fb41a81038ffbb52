import Mathlib

/-! # Merkle trees over a list of items

A list is split at the largest power of two below its length. The root is the digest of
the tree that arises, and the path to an item holds the digests of the siblings on the
way from the root down to it. A root recomputed along the path of an item is the root of
the list.
-/
namespace FuelSequencer.Lib

/-- The digests of a tree: of no item, of one item and of two subtrees. -/
structure Hashing (α δ : Type*) where
  empty : δ
  leaf : α → δ
  inner : δ → δ → δ

/-- The largest power of two below a length of at least two. -/
def splitPoint (n : ℕ) : ℕ := 2 ^ Nat.log2 (n - 1)

theorem splitPoint_pos (n : ℕ) : 0 < splitPoint n := Nat.two_pow_pos _

theorem splitPoint_lt {n : ℕ} (h : 2 ≤ n) : splitPoint n < n := by
  have hle := Nat.log2_self_le (n := n - 1) (by omega)
  rw [splitPoint]
  omega

namespace Hashing

variable {α δ : Type*} (H : Hashing α δ)

/-- The root of a list; every split shortens it, so its length is fuel enough. -/
def rootLoop : ℕ → List α → δ
  | _, [] => H.empty
  | _, [a] => H.leaf a
  | 0, _ :: _ :: _ => H.empty
  | fuel + 1, a :: b :: as =>
    let k := splitPoint (as.length + 2)
    H.inner (rootLoop fuel ((a :: b :: as).take k)) (rootLoop fuel ((a :: b :: as).drop k))

/-- The siblings on the way from the root to an item. -/
def pathLoop : ℕ → List α → ℕ → List δ
  | _, [], _ => []
  | _, [_], _ => []
  | 0, _ :: _ :: _, _ => []
  | fuel + 1, a :: b :: as, i =>
    let k := splitPoint (as.length + 2)
    let left := (a :: b :: as).take k
    let right := (a :: b :: as).drop k
    if i < k then H.rootLoop fuel right :: pathLoop fuel left i
    else H.rootLoop fuel left :: pathLoop fuel right (i - k)

def root (items : List α) : δ := H.rootLoop items.length items

def path (items : List α) (i : ℕ) : List δ := H.pathLoop items.length items i

/-- The root that a digest at an index of that many items gives along a path. -/
def climb (digest : δ) : ℕ → ℕ → List δ → Option δ
  | index, total, [] => if total = 1 ∧ index = 0 then some digest else none
  | index, total, sibling :: siblings =>
    if total ≤ 1 ∨ total ≤ index then none
    else
      let k := splitPoint total
      if index < k then (climb digest index k siblings).map fun left => H.inner left sibling
      else (climb digest (index - k) (total - k) siblings).map fun right => H.inner sibling right

theorem climb_pathLoop {fuel : ℕ} {items : List α} (hfuel : items.length ≤ fuel) {i : ℕ} {a : α}
    (hi : items[i]? = some a) :
    H.climb (H.leaf a) i items.length (H.pathLoop fuel items i) = some (H.rootLoop fuel items) := by
  induction fuel generalizing items i with
  | zero =>
    rw [List.eq_nil_of_length_eq_zero (Nat.le_zero.mp hfuel)] at hi
    cases hi
  | succ fuel ih =>
    match items, hfuel, hi with
    | [b], _, hi =>
      obtain ⟨rfl, rfl⟩ : i = 0 ∧ b = a := by
        cases i with
        | zero => exact ⟨rfl, Option.some.inj hi⟩
        | succ i => cases hi
      simp [pathLoop, rootLoop, climb]
    | b :: c :: as, hfuel, hi =>
      have hlt := splitPoint_lt (n := as.length + 2) (by omega)
      have hpos := splitPoint_pos (as.length + 2)
      have hin : i < as.length + 2 := (List.getElem?_eq_some_iff.mp hi).1
      have htotal : ¬((b :: c :: as).length ≤ 1 ∨ (b :: c :: as).length ≤ i) := by
        simp only [List.length_cons]
        omega
      simp only [List.length_cons] at hfuel
      rw [pathLoop, rootLoop]
      by_cases hk : i < splitPoint (as.length + 2)
      · have hleft : ((b :: c :: as).take (splitPoint (as.length + 2))).length = splitPoint (as.length + 2) := by
          rw [List.length_take, List.length_cons, List.length_cons]
          omega
        have hget : ((b :: c :: as).take (splitPoint (as.length + 2)))[i]? = some a := by
          rw [List.getElem?_take_of_lt hk, hi]
        have hstep := ih (by omega) hget
        rw [hleft] at hstep
        rw [if_pos hk, climb, if_neg htotal]
        dsimp only [List.length_cons]
        rw [if_pos hk, hstep]
        rfl
      · have hright : ((b :: c :: as).drop (splitPoint (as.length + 2))).length =
            as.length + 2 - splitPoint (as.length + 2) := by
          rw [List.length_drop, List.length_cons, List.length_cons]
        have hget : ((b :: c :: as).drop (splitPoint (as.length + 2)))[i - splitPoint (as.length + 2)]? = some a := by
          rw [List.getElem?_drop, Nat.add_sub_cancel' (not_lt.mp hk), hi]
        have hstep := ih (by omega) hget
        rw [hright] at hstep
        rw [if_neg hk, climb, if_neg htotal]
        dsimp only [List.length_cons]
        rw [if_neg hk, hstep]
        rfl

/-- Along its path every item gives the root. -/
theorem climb_path {items : List α} {i : ℕ} {a : α} (hi : items[i]? = some a) :
    H.climb (H.leaf a) i items.length (H.path items i) = some (H.root items) :=
  H.climb_pathLoop le_rfl hi

/-! ## What a verified path proves -/

variable {H} {form : δ → Prop} {broken : Prop}

end Hashing

end FuelSequencer.Lib
