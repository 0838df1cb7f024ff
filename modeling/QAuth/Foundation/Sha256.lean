import Mathlib.Data.List.Basic

/-!
# SHA-256

The hash as its standard gives it, over a list of bytes: the message is padded to whole blocks of
64 bytes, and each block is compressed into eight words in 64 rounds.
-/

namespace Sha256

/-- The eight words of the state. -/
structure State where
  a : UInt32
  b : UInt32
  c : UInt32
  d : UInt32
  e : UInt32
  f : UInt32
  g : UInt32
  h : UInt32

/-- The first 32 bits of the fractional parts of the square roots of the first 8 primes. -/
def initial : State where
  a := 0x6a09e667
  b := 0xbb67ae85
  c := 0x3c6ef372
  d := 0xa54ff53a
  e := 0x510e527f
  f := 0x9b05688c
  g := 0x1f83d9ab
  h := 0x5be0cd19

/-- The first 32 bits of the fractional parts of the cube roots of the first 64 primes. -/
def roundConstants : List UInt32 :=
  [0x428a2f98, 0x71374491, 0xb5c0fbcf, 0xe9b5dba5, 0x3956c25b, 0x59f111f1, 0x923f82a4, 0xab1c5ed5,
    0xd807aa98, 0x12835b01, 0x243185be, 0x550c7dc3, 0x72be5d74, 0x80deb1fe, 0x9bdc06a7, 0xc19bf174,
    0xe49b69c1, 0xefbe4786, 0x0fc19dc6, 0x240ca1cc, 0x2de92c6f, 0x4a7484aa, 0x5cb0a9dc, 0x76f988da,
    0x983e5152, 0xa831c66d, 0xb00327c8, 0xbf597fc7, 0xc6e00bf3, 0xd5a79147, 0x06ca6351, 0x14292967,
    0x27b70a85, 0x2e1b2138, 0x4d2c6dfc, 0x53380d13, 0x650a7354, 0x766a0abb, 0x81c2c92e, 0x92722c85,
    0xa2bfe8a1, 0xa81a664b, 0xc24b8b70, 0xc76c51a3, 0xd192e819, 0xd6990624, 0xf40e3585, 0x106aa070,
    0x19a4c116, 0x1e376c08, 0x2748774c, 0x34b0bcb5, 0x391c0cb3, 0x4ed8aa4a, 0x5b9cca4f, 0x682e6ff3,
    0x748f82ee, 0x78a5636f, 0x84c87814, 0x8cc70208, 0x90befffa, 0xa4506ceb, 0xbef9a3f7, 0xc67178f2]

/-- The word rotated to the right. -/
def rotateRight (x n : UInt32) : UInt32 := (x >>> n) ||| (x <<< (32 - n))

def round (s : State) (k w : UInt32) : State :=
  let sum1 := rotateRight s.e 6 ^^^ rotateRight s.e 11 ^^^ rotateRight s.e 25
  let choice := (s.e &&& s.f) ^^^ (~~~ s.e &&& s.g)
  let temp1 := s.h + sum1 + choice + k + w
  let sum0 := rotateRight s.a 2 ^^^ rotateRight s.a 13 ^^^ rotateRight s.a 22
  let majority := (s.a &&& s.b) ^^^ (s.a &&& s.c) ^^^ (s.b &&& s.c)
  { a := temp1 + (sum0 + majority)
    b := s.a
    c := s.b
    d := s.c
    e := s.d + temp1
    f := s.e
    g := s.f
    h := s.g }

/-- The word after sixteen others. -/
def nextWord : List UInt32 → UInt32
  | [w0, w1, _, _, _, _, _, _, _, w9, _, _, _, _, w14, _] =>
    let sigma0 := rotateRight w1 7 ^^^ rotateRight w1 18 ^^^ (w1 >>> 3)
    let sigma1 := rotateRight w14 17 ^^^ rotateRight w14 19 ^^^ (w14 >>> 10)
    w0 + sigma0 + w9 + sigma1
  | _ => 0

/-- A round for each constant that is left, from the sixteen words that come next. -/
def rounds : List UInt32 → List UInt32 → State → State
  | k :: ks, w :: window, s => rounds ks (window ++ [nextWord (w :: window)]) (round s k w)
  | _, _, s => s

/-- Four bytes as a word, the first one highest. -/
def words : List UInt8 → List UInt32
  | b0 :: b1 :: b2 :: b3 :: rest =>
    (b0.toUInt32 <<< 24 ||| b1.toUInt32 <<< 16 ||| b2.toUInt32 <<< 8 ||| b3.toUInt32) :: words rest
  | _ => []

/-- One block of 64 bytes. -/
def compress (s : State) (block : List UInt8) : State :=
  let t := rounds roundConstants (words block) s
  { a := s.a + t.a
    b := s.b + t.b
    c := s.c + t.c
    d := s.d + t.d
    e := s.e + t.e
    f := s.f + t.f
    g := s.g + t.g
    h := s.h + t.h }

/-- The blocks of a message, one after the other. -/
def compressBlocks : ℕ → List UInt8 → State → State
  | 0, _, s => s
  | n + 1, message, s => compressBlocks n (message.drop 64) (compress s (message.take 64))

/-- The lowest `n` bytes of a number, the highest first. -/
def bigEndian : ℕ → ℕ → List UInt8
  | 0, _ => []
  | n + 1, m => bigEndian n (m / 256) ++ [UInt8.ofNat (m % 256)]

/-- The message with a one bit, zeros and its length in bits, to a whole number of blocks. -/
def pad (message : List UInt8) : List UInt8 :=
  message ++ 0x80 :: (List.replicate ((119 - message.length % 64) % 64) 0 ++
    bigEndian 8 (8 * message.length))

def wordBytes (w : UInt32) : List UInt8 := bigEndian 4 w.toNat

/-- The digest of a message. -/
def hash (message : List UInt8) : List UInt8 :=
  let padded := pad message
  let s := compressBlocks (padded.length / 64) padded initial
  [s.a, s.b, s.c, s.d, s.e, s.f, s.g, s.h].flatMap wordBytes

@[simp] theorem length_bigEndian {n m : ℕ} : (bigEndian n m).length = n := by
  induction n generalizing m with
  | zero => rfl
  | succ n ih => rw [bigEndian, List.length_append, ih, List.length_singleton]

/-- A digest has 32 bytes. -/
theorem length_hash (message : List UInt8) : (hash message).length = 32 := by
  simp only [hash, List.flatMap_cons, List.flatMap_nil, List.length_append, wordBytes,
    length_bigEndian, List.length_nil]

/-- The keyed digest of a message, HMAC-SHA256. -/
def hmac (key message : List UInt8) : List UInt8 :=
  let key := if 64 < key.length then hash key else key
  let block := key ++ List.replicate (64 - key.length) 0
  hash (block.map (· ^^^ 0x5C) ++ hash (block.map (· ^^^ 0x36) ++ message))

example : hash [97, 98, 99] =
    [0xba, 0x78, 0x16, 0xbf, 0x8f, 0x01, 0xcf, 0xea, 0x41, 0x41, 0x40, 0xde, 0x5d, 0xae, 0x22, 0x23,
      0xb0, 0x03, 0x61, 0xa3, 0x96, 0x17, 0x7a, 0x9c, 0xb4, 0x10, 0xff, 0x61, 0xf2, 0x00, 0x15,
      0xad] := by
  decide +kernel

example : hmac (List.replicate 20 0x0B) [0x48, 0x69, 0x20, 0x54, 0x68, 0x65, 0x72, 0x65] =
    [0xb0, 0x34, 0x4c, 0x61, 0xd8, 0xdb, 0x38, 0x53, 0x5c, 0xa8, 0xaf, 0xce, 0xaf, 0x0b, 0xf1, 0x2b,
      0x88, 0x1d, 0xc2, 0x00, 0xc9, 0x83, 0x3d, 0xa7, 0x26, 0xe9, 0x37, 0x6c, 0x2e, 0x32, 0xcf,
      0xf7] := by
  decide +kernel

end Sha256
