import FuelSequencer.Go.Basic

/-! # Hexadecimal addresses, address formats and denominations

The checks that the address and coin libraries apply to their texts.
-/
namespace FuelSequencer.Lib
open Go Wire

/-- The value of a hexadecimal digit. -/
def hexValue (c : UInt8) : Option UInt8 :=
  if 48 ≤ c ∧ c ≤ 57 then some (c - 48)
  else if 97 ≤ c ∧ c ≤ 102 then some (c - 87)
  else if 65 ≤ c ∧ c ≤ 70 then some (c - 55)
  else none

/-- The text without its leading `0x`, if it has one. -/
def trimHexMark : GoString → GoString
  | a :: b :: rest => if a = 48 ∧ (b = 120 ∨ b = 88) then rest else a :: b :: rest
  | s => s

def addressLength : ℕ := 20

/-- `common.IsHexAddress`. -/
def isHexAddress (s : GoString) : Bool :=
  (trimHexMark s).length = 2 * addressLength ∧ ∀ c ∈ trimHexMark s, (hexValue c).isSome

/-- `common.Hex2Bytes` stops at the first pair that is not hexadecimal. -/
def hexPairs : GoString → Bytes
  | a :: b :: rest =>
    match hexValue a, hexValue b with
    | some x, some y => (x * 16 + y) :: hexPairs rest
    | _, _ => []
  | _ => []

/-- `common.FromHex`. -/
def fromHex (s : GoString) : Bytes :=
  let t := trimHexMark s
  hexPairs (if t.length % 2 = 1 then 48 :: t else t)

def maxAddrLen : ℕ := 255

/-- `sdk.VerifyAddressFormat` without a custom verifier. -/
def verifyAddressFormat (bz : Bytes) : Except GoString Unit :=
  if bz.length = 0 then .error (str "addresses cannot be empty: unknown address")
  else if bz.length > maxAddrLen then
    .error (str "address max length is " ++ decimal maxAddrLen ++ str ", got " ++
      decimal bz.length ++ str ": unknown address")
  else .ok ()

/-- The width of the white space character at the head of a text, zero if there is none. -/
def spaceWidth : GoString → ℕ
  | [] => 0
  | a :: rest =>
    if (9 ≤ a ∧ a ≤ 13) ∨ a = 32 then 1
    else match a, rest with
      | 0xC2, b :: _ => if b = 0x85 ∨ b = 0xA0 then 2 else 0
      | 0xE1, b :: c :: _ => if b = 0x9A ∧ c = 0x80 then 3 else 0
      | 0xE2, b :: c :: _ =>
        if (b = 0x80 ∧ ((0x80 ≤ c ∧ c ≤ 0x8A) ∨ c = 0xA8 ∨ c = 0xA9 ∨ c = 0xAF)) ∨
          (b = 0x81 ∧ c = 0x9F) then 3 else 0
      | 0xE3, b :: c :: _ => if b = 0x80 ∧ c = 0x80 then 3 else 0
      | _, _ => 0

def blankLoop : ℕ → GoString → Bool
  | _, [] => true
  | 0, _ :: _ => false
  | fuel + 1, s => spaceWidth s ≠ 0 && blankLoop fuel (s.drop (spaceWidth s))

/-- Whether `strings.TrimSpace` leaves nothing. -/
def isBlank (s : GoString) : Bool := blankLoop s.length s

def isAlpha (c : UInt8) : Bool := (97 ≤ c ∧ c ≤ 122) ∨ (65 ≤ c ∧ c ≤ 90)

/-- The characters of a denomination after its first one. -/
def isDenomChar (c : UInt8) : Bool :=
  isAlpha c ∨ (48 ≤ c ∧ c ≤ 57) ∨ c ∈ str "/:._-"

/-- The default denomination pattern, a letter and 2 to 127 further characters. -/
def isValidDenom (denom : GoString) : Bool :=
  match denom with
  | [] => false
  | c :: rest => isAlpha c ∧ 2 ≤ rest.length ∧ rest.length ≤ 127 ∧ ∀ d ∈ rest, isDenomChar d

/-- Digits from which a byte can be read back. -/
def HexDigits (digit : UInt8 → UInt8) : Prop :=
  ∀ b : UInt8, hexValue (digit (b / 16)) = some (b / 16) ∧ hexValue (digit (b % 16)) = some (b % 16)

theorem hexDigits_lower : HexDigits hexDigitLower := by
  have hall : ∀ n < 256, hexValue (hexDigitLower (UInt8.ofNat n / 16)) = some (UInt8.ofNat n / 16) ∧
      hexValue (hexDigitLower (UInt8.ofNat n % 16)) = some (UInt8.ofNat n % 16) := by decide +kernel
  exact fun b => by simpa using hall b.toNat b.toNat_lt

theorem hexDigits_upper : HexDigits hexDigitUpper := by
  have hall : ∀ n < 256, hexValue (hexDigitUpper (UInt8.ofNat n / 16)) = some (UInt8.ofNat n / 16) ∧
      hexValue (hexDigitUpper (UInt8.ofNat n % 16)) = some (UInt8.ofNat n % 16) := by decide +kernel
  exact fun b => by simpa using hall b.toNat b.toNat_lt

theorem hexPairs_digits {digit : UInt8 → UInt8} (h : HexDigits digit) (bz : Bytes) :
    hexPairs (bz.flatMap fun b => [digit (b / 16), digit (b % 16)]) = bz := by
  induction bz with
  | nil => rfl
  | cons b bz ih =>
    have hsum : b / 16 * 16 + b % 16 = b := by
      have hall : ∀ n < 256, UInt8.ofNat n / 16 * 16 + UInt8.ofNat n % 16 = UInt8.ofNat n := by decide +kernel
      simpa using hall b.toNat b.toNat_lt
    change hexPairs (digit (b / 16) :: digit (b % 16) ::
      bz.flatMap fun b => [digit (b / 16), digit (b % 16)]) = b :: bz
    rw [hexPairs, (h b).1, (h b).2, ih]
    exact congrArg (· :: bz) hsum

@[simp] theorem hexPairs_hexLower (bz : Bytes) : hexPairs (hexLower bz) = bz := hexPairs_digits hexDigits_lower bz

@[simp] theorem hexPairs_hexUpper (bz : Bytes) : hexPairs (hexUpper bz) = bz := hexPairs_digits hexDigits_upper bz

theorem length_hexUpper (bz : Bytes) : (hexUpper bz).length = 2 * bz.length := by
  induction bz with
  | nil => rfl
  | cons b bz ih =>
    change (_ :: _ :: hexUpper bz).length = _
    rw [List.length_cons, List.length_cons, ih, List.length_cons]
    ring

theorem isSome_hexValue_hexUpper (bz : Bytes) : ∀ c ∈ hexUpper bz, (hexValue c).isSome := by
  intro c hc
  obtain ⟨b, -, hc⟩ := List.mem_flatMap.mp hc
  obtain ⟨hhigh, hlow⟩ := hexDigits_upper b
  rcases List.mem_cons.mp hc with rfl | hc
  · rw [hhigh]
    rfl
  · rw [List.mem_singleton.mp hc, hlow]
    rfl

/-- The marked upper case text of 20 bytes is a hexadecimal address. -/
theorem isHexAddress_hexUpper {bz : Bytes} (h : bz.length = addressLength) : isHexAddress (48 :: 120 :: hexUpper bz) := by
  have hlength : (hexUpper bz).length = 2 * addressLength := by rw [length_hexUpper, h]
  simp only [isHexAddress, trimHexMark, decide_eq_true_eq]
  exact ⟨hlength, isSome_hexValue_hexUpper bz⟩

theorem fromHex_hexUpper (bz : Bytes) : fromHex (48 :: 120 :: hexUpper bz) = bz := by
  have heven : (hexUpper bz).length % 2 ≠ 1 := by
    rw [length_hexUpper]
    omega
  simp only [fromHex, trimHexMark, true_or, and_true, if_true]
  rw [if_neg heven, hexPairs_hexUpper]

theorem hexLower_injective {bz bz' : Bytes} (h : hexLower bz = hexLower bz') : bz = bz' := by
  rw [← hexPairs_hexLower bz, h, hexPairs_hexLower]

theorem length_hexPairs : ∀ {s : GoString}, (∀ c ∈ s, (hexValue c).isSome) →
    (hexPairs s).length = s.length / 2
  | [], _ => rfl
  | [_], _ => by simp [hexPairs]
  | a :: b :: rest, h => by
    obtain ⟨x, hx⟩ := Option.isSome_iff_exists.mp (h a (by simp))
    obtain ⟨y, hy⟩ := Option.isSome_iff_exists.mp (h b (by simp))
    have hrest := length_hexPairs fun c hc => h c (List.mem_cons_of_mem _ (List.mem_cons_of_mem _ hc))
    simp only [hexPairs, hx, hy, List.length_cons, hrest]
    omega

/-- The bytes of a hexadecimal address have the length of an Ethereum address. -/
theorem length_fromHex {s : GoString} (h : isHexAddress s) : (fromHex s).length = addressLength := by
  simp only [isHexAddress, Bool.decide_and, Bool.and_eq_true, decide_eq_true_eq] at h
  unfold fromHex
  simp only [h.1]
  rw [if_neg (by decide), length_hexPairs h.2, h.1]
  rfl

theorem spaceWidth_of_hexValue {c : UInt8} {rest : GoString} (h : (hexValue c).isSome) :
    spaceWidth (c :: rest) = 0 := by
  have hc : 48 ≤ c ∧ c ≤ 102 := by
    unfold hexValue at h
    split at h
    · constructor <;> grind
    · split at h
      · constructor <;> grind
      · split at h
        · constructor <;> grind
        · simp at h
  have h₁ : c ≠ 0xC2 ∧ c ≠ 0xE1 ∧ c ≠ 0xE2 ∧ c ≠ 0xE3 := by
    refine ⟨?_, ?_, ?_, ?_⟩ <;> rintro rfl <;> exact absurd hc (by decide)
  have h₂ : ¬((9 ≤ c ∧ c ≤ 13) ∨ c = 32) := by
    rintro (⟨-, h⟩ | rfl)
    · have := hc.1
      grind
    · exact absurd hc (by decide)
  obtain ⟨n₁, n₂, n₃, n₄⟩ := h₁
  simp only [spaceWidth, if_neg h₂]
  split <;> simp_all

theorem isBlank_of_isHexAddress {s : GoString} (h : isHexAddress s) : isBlank s = false := by
  simp only [isHexAddress, Bool.decide_and, Bool.and_eq_true, decide_eq_true_eq] at h
  rcases s with _ | ⟨c, rest⟩
  · exact absurd h.1 (by decide)
  · have hc : (hexValue c).isSome := by
      rcases rest with _ | ⟨d, rest⟩
      · exact h.2 c (by simp [trimHexMark])
      · by_cases hm : c = 48 ∧ (d = 120 ∨ d = 88)
        · rw [hm.1]
          rfl
        · exact h.2 c (by simp [trimHexMark, hm])
    simp [isBlank, blankLoop, spaceWidth_of_hexValue hc]

end FuelSequencer.Lib
