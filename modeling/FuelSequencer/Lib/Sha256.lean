import FuelSequencer.Wire.Varint

/-! # SHA-256

The hash function on byte strings, on words that are numbers below `2 ^ 32`.
-/
namespace FuelSequencer.Lib
open Wire

namespace Sha256

def add (x y : ℕ) : ℕ := (x + y) % 2 ^ 32

def rotateRight (x n : ℕ) : ℕ := (x >>> n) ||| (x <<< (32 - n)) % 2 ^ 32

def roundConstants : List ℕ := [
  0x428a2f98, 0x71374491, 0xb5c0fbcf, 0xe9b5dba5, 0x3956c25b, 0x59f111f1, 0x923f82a4, 0xab1c5ed5,
  0xd807aa98, 0x12835b01, 0x243185be, 0x550c7dc3, 0x72be5d74, 0x80deb1fe, 0x9bdc06a7, 0xc19bf174,
  0xe49b69c1, 0xefbe4786, 0x0fc19dc6, 0x240ca1cc, 0x2de92c6f, 0x4a7484aa, 0x5cb0a9dc, 0x76f988da,
  0x983e5152, 0xa831c66d, 0xb00327c8, 0xbf597fc7, 0xc6e00bf3, 0xd5a79147, 0x06ca6351, 0x14292967,
  0x27b70a85, 0x2e1b2138, 0x4d2c6dfc, 0x53380d13, 0x650a7354, 0x766a0abb, 0x81c2c92e, 0x92722c85,
  0xa2bfe8a1, 0xa81a664b, 0xc24b8b70, 0xc76c51a3, 0xd192e819, 0xd6990624, 0xf40e3585, 0x106aa070,
  0x19a4c116, 0x1e376c08, 0x2748774c, 0x34b0bcb5, 0x391c0cb3, 0x4ed8aa4a, 0x5b9cca4f, 0x682e6ff3,
  0x748f82ee, 0x78a5636f, 0x84c87814, 0x8cc70208, 0x90befffa, 0xa4506ceb, 0xbef9a3f7, 0xc67178f2]

structure Words where
  a : ℕ
  b : ℕ
  c : ℕ
  d : ℕ
  e : ℕ
  f : ℕ
  g : ℕ
  h : ℕ

def initialWords : Words :=
  ⟨0x6a09e667, 0xbb67ae85, 0x3c6ef372, 0xa54ff53a, 0x510e527f, 0x9b05688c, 0x1f83d9ab, 0x5be0cd19⟩

def Words.add (x y : Words) : Words :=
  ⟨Sha256.add x.a y.a, Sha256.add x.b y.b, Sha256.add x.c y.c, Sha256.add x.d y.d, Sha256.add x.e y.e,
    Sha256.add x.f y.f, Sha256.add x.g y.g, Sha256.add x.h y.h⟩

def choose (x y z : ℕ) : ℕ := (x &&& y) ^^^ ((2 ^ 32 - 1 - x) &&& z)

def majority (x y z : ℕ) : ℕ := (x &&& y) ^^^ (x &&& z) ^^^ (y &&& z)

/-- One round with the sum of its constant and its word of the schedule. -/
def round (s : Words) (kw : ℕ) : Words :=
  let sigma1 := rotateRight s.e 6 ^^^ rotateRight s.e 11 ^^^ rotateRight s.e 25
  let t1 := (s.h + sigma1 + choose s.e s.f s.g + kw) % 2 ^ 32
  let sigma0 := rotateRight s.a 2 ^^^ rotateRight s.a 13 ^^^ rotateRight s.a 22
  let t2 := sigma0 + majority s.a s.b s.c
  ⟨add t1 t2, s.a, s.b, s.c, add s.d t1, s.e, s.f, s.g⟩

/-- More words of the schedule in front of those so far, which are listed backwards. -/
def extendSchedule : ℕ → List ℕ → List ℕ
  | 0, ws => ws
  | n + 1, ws =>
    let w2 := ws.getD 1 0
    let w15 := ws.getD 14 0
    let sigma0 := rotateRight w15 7 ^^^ rotateRight w15 18 ^^^ (w15 >>> 3)
    let sigma1 := rotateRight w2 17 ^^^ rotateRight w2 19 ^^^ (w2 >>> 10)
    extendSchedule n ((sigma1 + ws.getD 6 0 + sigma0 + ws.getD 15 0) % 2 ^ 32 :: ws)

/-- The big-endian words of a byte string. -/
def wordsOf : Bytes → List ℕ
  | a :: b :: c :: d :: rest =>
    (a.toNat * 2 ^ 24 + b.toNat * 2 ^ 16 + c.toNat * 2 ^ 8 + d.toNat) :: wordsOf rest
  | _ => []

/-- The words after a block of sixteen words. -/
def compress (s : Words) (block : List ℕ) : Words :=
  let schedule := (extendSchedule 48 block.reverse).reverse
  s.add ((List.zipWith add roundConstants schedule).foldl round s)

def compressAll : ℕ → Words → List ℕ → Words
  | 0, s, _ => s
  | n + 1, s, ws => compressAll n (compress s (ws.take 16)) (ws.drop 16)

def bigEndian : ℕ → ℕ → Bytes
  | 0, _ => []
  | n + 1, x => bigEndian n (x / 256) ++ [UInt8.ofNat (x % 256)]

/-- The message with a one bit, zeros and its length in bits, up to a multiple of 64 bytes. -/
def pad (message : Bytes) : Bytes :=
  message ++ 0x80 :: List.replicate ((119 - message.length % 64) % 64) 0 ++ bigEndian 8 (8 * message.length)

def digest (s : Words) : Bytes := [s.a, s.b, s.c, s.d, s.e, s.f, s.g, s.h].flatMap (bigEndian 4)

end Sha256

/-- The digest of a message. -/
def sha256 (message : Bytes) : Bytes :=
  let padded := Sha256.pad message
  Sha256.digest (Sha256.compressAll (padded.length / 64) Sha256.initialWords (Sha256.wordsOf padded))

theorem Sha256.length_bigEndian (n x : ℕ) : (Sha256.bigEndian n x).length = n := by
  induction n generalizing x with
  | zero => rfl
  | succ n ih => rw [Sha256.bigEndian, List.length_append, ih, List.length_singleton]

/-- The digest of the three letters abc. -/
example : sha256 [97, 98, 99] = [0xba, 0x78, 0x16, 0xbf, 0x8f, 0x01, 0xcf, 0xea, 0x41, 0x41, 0x40, 0xde,
    0x5d, 0xae, 0x22, 0x23, 0xb0, 0x03, 0x61, 0xa3, 0x96, 0x17, 0x7a, 0x9c, 0xb4, 0x10, 0xff, 0x61, 0xf2,
    0x00, 0x15, 0xad] := by decide +kernel

end FuelSequencer.Lib
