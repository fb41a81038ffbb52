import Mathlib

/-! # Tables sorted by key

A table holds at most one value under a key and lists its entries in the order of the
keys. What it holds under each key determines it.
-/
namespace FuelSequencer.Exec

structure Table (κ α : Type*) [LinearOrder κ] where
  entries : List (κ × α)
  sorted : entries.Pairwise fun a b => a.1 < b.1

namespace Table

variable {κ α β : Type*} [LinearOrder κ] {t u : Table κ α} {k l : κ} {a b : α}

def empty : Table κ α := ⟨[], .nil⟩

def get (t : Table κ α) (k : κ) : Option α := t.entries.lookup k

def insertEntry (k : κ) (a : α) : List (κ × α) → List (κ × α)
  | [] => [(k, a)]
  | e :: es =>
    if k < e.1 then (k, a) :: e :: es
    else if e.1 < k then e :: insertEntry k a es
    else (k, a) :: es

/-- The keys after an insertion. -/
theorem mem_insertEntry {e : κ × α} {es : List (κ × α)} (h : e ∈ insertEntry k a es) :
    e = (k, a) ∨ e ∈ es := by
  induction es with
  | nil => simpa [insertEntry] using h
  | cons e' es ih =>
    rw [insertEntry] at h
    split at h
    · simpa using h
    · split at h
      · rcases List.mem_cons.mp h with rfl | h
        · exact Or.inr List.mem_cons_self
        · exact (ih h).imp_right (List.mem_cons_of_mem _)
      · rcases List.mem_cons.mp h with rfl | h
        · exact Or.inl rfl
        · exact Or.inr (List.mem_cons_of_mem _ h)

theorem sorted_insertEntry {es : List (κ × α)} (h : es.Pairwise fun a b => a.1 < b.1) :
    (insertEntry k a es).Pairwise fun a b => a.1 < b.1 := by
  induction es with
  | nil => exact List.pairwise_singleton _ _
  | cons e es ih =>
    obtain ⟨hfirst, hrest⟩ := List.pairwise_cons.mp h
    rw [insertEntry]
    split
    · next hk =>
      refine List.pairwise_cons.mpr ⟨?_, h⟩
      intro e' he'
      rcases List.mem_cons.mp he' with rfl | he'
      · exact hk
      · exact hk.trans (hfirst e' he')
    · split
      · next hk =>
        refine List.pairwise_cons.mpr ⟨?_, ih hrest⟩
        intro e' he'
        rcases mem_insertEntry he' with rfl | he'
        · exact hk
        · exact hfirst e' he'
      · next h₁ h₂ =>
        have hk : k = e.1 := le_antisymm (not_lt.mp h₂) (not_lt.mp h₁)
        exact List.pairwise_cons.mpr ⟨fun e' he' => hk ▸ hfirst e' he', hrest⟩

def set (t : Table κ α) (k : κ) (a : α) : Table κ α := ⟨insertEntry k a t.entries, sorted_insertEntry t.sorted⟩

/-- The entries whose key passes. -/
def keep (p : κ → Bool) (t : Table κ α) : Table κ α :=
  ⟨t.entries.filter fun e => p e.1, t.sorted.filter _⟩

def erase (t : Table κ α) (k : κ) : Table κ α := t.keep (· ≠ k)

@[simp] theorem get_empty : (empty : Table κ α).get k = none := rfl

theorem lookup_cons_eq (e : κ × α) (es : List (κ × α)) :
    (e :: es).lookup k = if k = e.1 then some e.2 else es.lookup k := by
  by_cases hk : k = e.1
  · rw [List.lookup_cons, beq_iff_eq.mpr hk, if_pos hk]
  · rw [List.lookup_cons, beq_false_of_ne hk, if_neg hk]

theorem get_eq_some : t.get k = some a ↔ (k, a) ∈ t.entries := by
  obtain ⟨es, hs⟩ := t
  change es.lookup k = some a ↔ (k, a) ∈ es
  induction es with
  | nil => simp
  | cons e es ih =>
    obtain ⟨hfirst, hrest⟩ := List.pairwise_cons.mp hs
    rw [lookup_cons_eq, List.mem_cons]
    by_cases hk : k = e.1
    · have hnot : (k, a) ∉ es := fun hmem => lt_irrefl _ (hk ▸ hfirst _ hmem)
      rw [if_pos hk]
      simp only [hnot, or_false, Option.some.injEq]
      constructor
      · rintro rfl
        exact Prod.ext hk rfl
      · rintro rfl
        rfl
    · have hne : (k, a) ≠ e := fun h => hk (congrArg Prod.fst h)
      rw [if_neg hk]
      simpa [hne] using ih hrest

theorem get_insertEntry {es : List (κ × α)} (h : es.Pairwise fun a b => a.1 < b.1) :
    (insertEntry k a es).lookup l = if l = k then some a else es.lookup l := by
  induction es with
  | nil => rw [insertEntry, lookup_cons_eq]
  | cons e es ih =>
    rw [insertEntry]
    split
    · rw [lookup_cons_eq]
    · split
      · next hk =>
        rw [lookup_cons_eq, ih (List.pairwise_cons.mp h).2, lookup_cons_eq]
        by_cases hl : l = e.1
        · simp [hl, hk.ne]
        · simp [hl]
      · next h₁ h₂ =>
        have hk : k = e.1 := le_antisymm (not_lt.mp h₂) (not_lt.mp h₁)
        rw [lookup_cons_eq, lookup_cons_eq, ← hk]
        by_cases hl : l = k <;> simp [hl]

@[simp] theorem get_set : (t.set k a).get l = if l = k then some a else t.get l :=
  get_insertEntry t.sorted

@[simp] theorem get_keep {p : κ → Bool} : (t.keep p).get l = if p l then t.get l else none := by
  refine Option.ext fun a => ?_
  rw [get_eq_some]
  by_cases hp : p l
  · rw [if_pos hp, get_eq_some, keep, List.mem_filter]
    exact and_iff_left hp
  · rw [if_neg hp, keep, List.mem_filter]
    simp [hp]

/-- A table is determined by what it holds under each key. -/
theorem ext_get (h : ∀ k, t.get k = u.get k) : t = u := by
  have hmem : ∀ e, e ∈ t.entries ↔ e ∈ u.entries := by
    rintro ⟨k, a⟩
    rw [← get_eq_some, ← get_eq_some, h]
  have hnodup : ∀ v : Table κ α, v.entries.Nodup := by
    intro v
    refine v.sorted.imp ?_
    rintro e e' hlt rfl
    exact lt_irrefl _ hlt
  have hperm := (List.perm_ext_iff_of_nodup (hnodup t) (hnodup u)).mpr hmem
  have hentries : t.entries = u.entries :=
    hperm.eq_of_pairwise (fun _ _ _ _ h₁ h₂ => absurd (h₁.trans h₂) (lt_irrefl _)) t.sorted u.sorted
  obtain ⟨es, _⟩ := t
  obtain ⟨es', _⟩ := u
  cases hentries
  rfl

theorem get_foldl_set {es : List (κ × α)} (h : es.Pairwise fun a b => a.1 < b.1) (u : Table κ α) :
    (es.foldl (fun u e => u.set e.1 e.2) u).get k = (es.lookup k).or (u.get k) := by
  induction es generalizing u with
  | nil => rfl
  | cons e es ih =>
    obtain ⟨hfirst, hrest⟩ := List.pairwise_cons.mp h
    rw [List.foldl_cons, ih hrest, get_set, lookup_cons_eq]
    by_cases hk : k = e.1
    · have hnone : es.lookup k = none := by
        rw [List.lookup_eq_none_iff]
        intro e' he'
        exact bne_iff_ne.mpr (hk ▸ (hfirst e' he').ne)
      rw [if_pos hk, if_pos hk, hnone]
      rfl
    · rw [if_neg hk, if_neg hk]

/-- Setting the entries of a table one after the other gives the table again. -/
theorem foldl_set_entries (t : Table κ α) : t.entries.foldl (fun u e => u.set e.1 e.2) empty = t := by
  refine ext_get fun k => ?_
  rw [get_foldl_set t.sorted, get_empty, Option.or_none]
  rfl

instance decidableEqTable [DecidableEq α] : DecidableEq (Table κ α) := fun t u =>
  decidable_of_iff (t.entries = u.entries) ⟨fun h => by cases t; cases u; cases h; rfl, fun h => h ▸ rfl⟩

end Table

end FuelSequencer.Exec
