import FuelSequencer.Wire.Varint

/-! # Tagged fields and messages

A message is a list of numbered fields, each an integer or a length-delimited
byte string. The encoder omits default values in the proto3 way through the
constructors below; the decoder recovers the exact field list, so that every
encoder built from these pieces is injective as soon as its field list is.
-/
namespace FuelSequencer.Wire

inductive Payload where
  | varint (v : ℕ)
  | bytes (bz : Bytes)
deriving DecidableEq, Repr

/-- Field numbers start at one: a zero tag is illegal on the wire. -/
structure Field where
  number : ℕ
  payload : Payload
  number_pos : 0 < number
deriving DecidableEq, Repr

def encodeField (f : Field) : Bytes :=
  match f.payload with
  | .varint v => encodeVarint (f.number * 8) ++ encodeVarint v
  | .bytes bz => encodeVarint (f.number * 8 + 2) ++ (encodeVarint bz.length ++ bz)

def encodeFields (fs : List Field) : Bytes := fs.flatMap encodeField

def decodePayload (wireType : ℕ) (input : Bytes) : Option (Payload × Bytes) :=
  if wireType = 0 then (decodeVarint input).map fun p => (.varint p.1, p.2)
  else if wireType = 2 then
    (decodeVarint input).bind fun p =>
      if p.1 ≤ p.2.length then some (.bytes (p.2.take p.1), p.2.drop p.1) else none
  else none

def decodeField (input : Bytes) : Option (Field × Bytes) :=
  (decodeVarint input).bind fun tag =>
    if h : 0 < tag.1 / 8 then
      (decodePayload (tag.1 % 8) tag.2).map fun p => (⟨tag.1 / 8, p.1, h⟩, p.2)
    else none

/-- The field loop; every turn consumes input, so its length is fuel enough. -/
def decodeLoop : ℕ → Bytes → Option (List Field)
  | _, [] => some []
  | 0, _ :: _ => none
  | fuel + 1, b :: rest =>
    (decodeField (b :: rest)).bind fun p => (decodeLoop fuel p.2).map fun fs => p.1 :: fs

def decodeFields (input : Bytes) : Option (List Field) := decodeLoop input.length input

@[simp] theorem encodeFields_nil : encodeFields [] = [] := rfl

@[simp] theorem encodeFields_cons (f : Field) (fs : List Field) :
    encodeFields (f :: fs) = encodeField f ++ encodeFields fs := rfl

theorem encodeFields_append (fs gs : List Field) :
    encodeFields (fs ++ gs) = encodeFields fs ++ encodeFields gs := List.flatMap_append

theorem encodeField_ne_nil (f : Field) : encodeField f ≠ [] := by
  intro h
  have hlen := congrArg List.length h
  unfold encodeField at hlen
  split at hlen
  · have hpos := varintSize_pos (f.number * 8)
    simp only [List.length_append, length_encodeVarint, List.length_nil] at hlen
    omega
  · have hpos := varintSize_pos (f.number * 8 + 2)
    simp only [List.length_append, length_encodeVarint, List.length_nil] at hlen
    omega

/-- A message is empty on the wire only when it has no field at all. -/
@[simp] theorem encodeFields_eq_nil {fs : List Field} : encodeFields fs = [] ↔ fs = [] := by
  cases fs with
  | nil => simp
  | cons f fs => simp [encodeField_ne_nil f]

theorem decodeField_encodeField (f : Field) (rest : Bytes) :
    decodeField (encodeField f ++ rest) = some (f, rest) := by
  rcases f with ⟨number, payload, hpos⟩
  cases payload with
  | varint v =>
    have hn : number * 8 / 8 = number := by omega
    have hw : number * 8 % 8 = 0 := by omega
    simp [encodeField, decodeField, decodePayload, List.append_assoc, hn, hw]
    omega
  | bytes bz =>
    have hn : (number * 8 + 2) / 8 = number := by omega
    have hw : (number * 8 + 2) % 8 = 2 := by omega
    simp [encodeField, decodeField, decodePayload, List.append_assoc, hn, hw]
    omega

theorem decodeLoop_encodeFields (fs : List Field) (fuel : ℕ)
    (h : (encodeFields fs).length ≤ fuel) : decodeLoop fuel (encodeFields fs) = some fs := by
  induction fs generalizing fuel with
  | nil => simp [decodeLoop]
  | cons f fs ih =>
    obtain ⟨b, tail, hb⟩ := List.exists_cons_of_ne_nil (encodeField_ne_nil f)
    rw [encodeFields_cons, List.length_append, hb, List.length_cons] at h
    cases fuel with
    | zero => omega
    | succ fuel =>
      have hf := decodeField_encodeField f (encodeFields fs)
      rw [hb] at hf
      rw [encodeFields_cons, hb, List.cons_append, decodeLoop, ← List.cons_append, hf,
        Option.bind_some, ih fuel (by omega), Option.map_some]

/-- The round trip of whole messages. -/
@[simp] theorem decodeFields_encodeFields (fs : List Field) :
    decodeFields (encodeFields fs) = some fs := decodeLoop_encodeFields fs _ le_rfl

/-! ## Field constructors with the proto3 defaults left out -/

/-- The numbers in use are positive. -/
instance neZeroOne : NeZero 1 := Nat.instNeZeroSucc
instance neZeroTwo : NeZero 2 := Nat.instNeZeroSucc
instance neZeroThree : NeZero 3 := Nat.instNeZeroSucc
instance neZeroFour : NeZero 4 := Nat.instNeZeroSucc
instance neZeroFive : NeZero 5 := Nat.instNeZeroSucc
instance neZeroSix : NeZero 6 := Nat.instNeZeroSucc
instance neZeroSeven : NeZero 7 := Nat.instNeZeroSucc
instance neZeroEight : NeZero 8 := Nat.instNeZeroSucc

def uintField (number : ℕ) [NeZero number] (v : ℕ) : List Field :=
  if v = 0 then [] else [⟨number, .varint v, Nat.pos_of_neZero number⟩]

def bytesField (number : ℕ) [NeZero number] (bz : Bytes) : List Field :=
  if bz = [] then [] else [⟨number, .bytes bz, Nat.pos_of_neZero number⟩]

/-- A present submessage is written even when its encoding is empty. -/
def messageField (number : ℕ) [NeZero number] (bz : Bytes) : Field :=
  ⟨number, .bytes bz, Nat.pos_of_neZero number⟩

theorem length_encodeFields_uintField (number : ℕ) [NeZero number] (v : ℕ) :
    (encodeFields (uintField number v)).length =
      if v = 0 then 0 else varintSize (number * 8) + varintSize v := by
  by_cases hv : v = 0 <;> simp [uintField, encodeField, hv]

theorem length_encodeFields_bytesField (number : ℕ) [NeZero number] (bz : Bytes) :
    (encodeFields (bytesField number bz)).length =
      if bz = [] then 0 else varintSize (number * 8 + 2) + (varintSize bz.length + bz.length) := by
  by_cases hb : bz = [] <;> simp [bytesField, encodeField, hb]

theorem length_encodeField_messageField (number : ℕ) [NeZero number] (bz : Bytes) :
    (encodeField (messageField number bz)).length =
      varintSize (number * 8 + 2) + (varintSize bz.length + bz.length) := by
  simp [messageField, encodeField]

/-- A longer content never encodes to a shorter field. -/
theorem length_encodeFields_bytesField_mono (number : ℕ) [NeZero number] {a b : Bytes}
    (h : a.length ≤ b.length) :
    (encodeFields (bytesField number a)).length ≤ (encodeFields (bytesField number b)).length := by
  rw [length_encodeFields_bytesField, length_encodeFields_bytesField]
  by_cases ha : a = []
  · simp [ha]
  · have hb : b ≠ [] := by
      rintro rfl
      exact ha (List.length_eq_zero_iff.mp (Nat.le_zero.mp h))
    have hsize := varintSize_mono h
    rw [if_neg ha, if_neg hb]
    omega

section Bounds

variable (number : ℕ) [NeZero number] {bz : Bytes} {k : ℕ}

/-- A field of a low number with a short content takes at most three bytes more than the content. -/
theorem length_encodeField_messageField_le (htag : varintSize (number * 8 + 2) = 1) (h : bz.length ≤ k) (hk : k < 16384) :
    (encodeField (messageField number bz)).length ≤ 3 + k := by
  have hsize : varintSize bz.length ≤ 2 := varintSize_le_two (lt_of_le_of_lt h hk)
  rw [length_encodeField_messageField, htag]
  omega

theorem length_encodeFields_bytesField_le (htag : varintSize (number * 8 + 2) = 1) (h : bz.length ≤ k) (hk : k < 16384) :
    (encodeFields (bytesField number bz)).length ≤ 3 + k := by
  have hsize : varintSize bz.length ≤ 2 := varintSize_le_two (lt_of_le_of_lt h hk)
  rw [length_encodeFields_bytesField, htag]
  split_ifs <;> omega

end Bounds

/-! ## Reading a field list back -/

def uintsAt (number : ℕ) (fs : List Field) : List ℕ :=
  fs.filterMap fun f => match f.payload with
    | .varint v => if f.number = number then some v else none
    | .bytes _ => none

def repeatedAt (number : ℕ) (fs : List Field) : List Bytes :=
  fs.filterMap fun f => match f.payload with
    | .bytes bz => if f.number = number then some bz else none
    | .varint _ => none

/-- The last value of that number wins; without one it is the default. -/
def uintAt (number : ℕ) (fs : List Field) : ℕ := (uintsAt number fs).getLastD 0

def bytesAt (number : ℕ) (fs : List Field) : Bytes := (repeatedAt number fs).getLastD []

variable {number other : ℕ} [NeZero other]

@[simp] theorem uintsAt_append (fs gs : List Field) :
    uintsAt number (fs ++ gs) = uintsAt number fs ++ uintsAt number gs := List.filterMap_append

@[simp] theorem repeatedAt_append (fs gs : List Field) :
    repeatedAt number (fs ++ gs) = repeatedAt number fs ++ repeatedAt number gs :=
  List.filterMap_append

@[simp] theorem uintsAt_uintField (v : ℕ) :
    uintsAt number (uintField other v) = if other = number ∧ v ≠ 0 then [v] else [] := by
  by_cases hv : v = 0 <;> by_cases hn : other = number <;> simp [uintsAt, uintField, hv, hn]

@[simp] theorem uintsAt_bytesField (bz : Bytes) : uintsAt number (bytesField other bz) = [] := by
  by_cases hb : bz = [] <;> simp [uintsAt, bytesField, hb]

@[simp] theorem repeatedAt_uintField (v : ℕ) : repeatedAt number (uintField other v) = [] := by
  by_cases hv : v = 0 <;> simp [repeatedAt, uintField, hv]

@[simp] theorem repeatedAt_bytesField (bz : Bytes) :
    repeatedAt number (bytesField other bz) = if other = number ∧ bz ≠ [] then [bz] else [] := by
  by_cases hb : bz = [] <;> by_cases hn : other = number <;> simp [repeatedAt, bytesField, hb, hn]

@[simp] theorem repeatedAt_messageField (bz : Bytes) (fs : List Field) :
    repeatedAt number (messageField other bz :: fs) =
      (if other = number then [bz] else []) ++ repeatedAt number fs := by
  by_cases hn : other = number <;> simp [repeatedAt, messageField, hn]

/-- A default left out on the wire is read back. -/
@[simp] theorem getLast?_getD_of_default {α : Type} [DecidableEq α] (d x : α) :
    (if x = d then [] else [x]).getLast?.getD d = x := by
  by_cases h : x = d <;> simp [h]

theorem bytesAt_append_bytesField (number : ℕ) [NeZero number] (bz : Bytes) (fs : List Field)
    (hf : repeatedAt number fs = []) : bytesAt number (fs ++ bytesField number bz) = bz := by
  by_cases hb : bz = [] <;> simp [bytesAt, hf, hb]

theorem bytesAt_bytesField_append (number : ℕ) [NeZero number] (bz : Bytes) (gs : List Field)
    (hg : repeatedAt number gs = []) : bytesAt number (bytesField number bz ++ gs) = bz := by
  by_cases hb : bz = [] <;> simp [bytesAt, hg, hb]

theorem uintAt_uintField (number : ℕ) [NeZero number] (v : ℕ) :
    uintAt number (uintField number v) = v := by
  by_cases hv : v = 0 <;> simp [uintAt, hv]

end FuelSequencer.Wire
