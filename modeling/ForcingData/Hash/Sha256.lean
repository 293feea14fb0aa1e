/-! # SHA-256

`sha256 bytes` is the digest, `sha256Hex bytes` its text in lower case hexadecimal digits. -/

namespace ForcingData.Hash

/-- The first 32 bits of the fractional parts of the cube roots of the first 64 primes. -/
def roundConstants : List UInt32 := [
  0x428a2f98, 0x71374491, 0xb5c0fbcf, 0xe9b5dba5, 0x3956c25b, 0x59f111f1, 0x923f82a4, 0xab1c5ed5,
  0xd807aa98, 0x12835b01, 0x243185be, 0x550c7dc3, 0x72be5d74, 0x80deb1fe, 0x9bdc06a7, 0xc19bf174,
  0xe49b69c1, 0xefbe4786, 0x0fc19dc6, 0x240ca1cc, 0x2de92c6f, 0x4a7484aa, 0x5cb0a9dc, 0x76f988da,
  0x983e5152, 0xa831c66d, 0xb00327c8, 0xbf597fc7, 0xc6e00bf3, 0xd5a79147, 0x06ca6351, 0x14292967,
  0x27b70a85, 0x2e1b2138, 0x4d2c6dfc, 0x53380d13, 0x650a7354, 0x766a0abb, 0x81c2c92e, 0x92722c85,
  0xa2bfe8a1, 0xa81a664b, 0xc24b8b70, 0xc76c51a3, 0xd192e819, 0xd6990624, 0xf40e3585, 0x106aa070,
  0x19a4c116, 0x1e376c08, 0x2748774c, 0x34b0bcb5, 0x391c0cb3, 0x4ed8aa4a, 0x5b9cca4f, 0x682e6ff3,
  0x748f82ee, 0x78a5636f, 0x84c87814, 0x8cc70208, 0x90befffa, 0xa4506ceb, 0xbef9a3f7, 0xc67178f2]

/-- The eight working words. -/
structure Digest where
  a : UInt32
  b : UInt32
  c : UInt32
  d : UInt32
  e : UInt32
  f : UInt32
  g : UInt32
  h : UInt32
deriving DecidableEq, Repr

/-- The first 32 bits of the fractional parts of the square roots of the first eight primes. -/
def Digest.start : Digest :=
  ⟨0x6a09e667, 0xbb67ae85, 0x3c6ef372, 0xa54ff53a, 0x510e527f, 0x9b05688c, 0x1f83d9ab, 0x5be0cd19⟩

def Digest.add (x y : Digest) : Digest :=
  ⟨x.a + y.a, x.b + y.b, x.c + y.c, x.d + y.d, x.e + y.e, x.f + y.f, x.g + y.g, x.h + y.h⟩

def Digest.words (x : Digest) : List UInt32 := [x.a, x.b, x.c, x.d, x.e, x.f, x.g, x.h]

def rotr (x : UInt32) (n : UInt32) : UInt32 := (x >>> n) ||| (x <<< (32 - n))

def smallSigma0 (x : UInt32) : UInt32 := rotr x 7 ^^^ rotr x 18 ^^^ (x >>> 3)
def smallSigma1 (x : UInt32) : UInt32 := rotr x 17 ^^^ rotr x 19 ^^^ (x >>> 10)
def bigSigma0 (x : UInt32) : UInt32 := rotr x 2 ^^^ rotr x 13 ^^^ rotr x 22
def bigSigma1 (x : UInt32) : UInt32 := rotr x 6 ^^^ rotr x 11 ^^^ rotr x 25

/-- One round, with its constant and its word of the schedule. -/
def round (s : Digest) (k w : UInt32) : Digest :=
  let t1 := s.h + bigSigma1 s.e + ((s.e &&& s.f) ^^^ (~~~s.e &&& s.g)) + k + w
  let t2 := bigSigma0 s.a + ((s.a &&& s.b) ^^^ (s.a &&& s.c) ^^^ (s.b &&& s.c))
  ⟨t1 + t2, s.a, s.b, s.c, s.d + t1, s.e, s.f, s.g⟩

/-- The next word of the schedule, from the last sixteen, oldest first. -/
def nextWord : List UInt32 → UInt32
  | w0 :: w1 :: _ :: _ :: _ :: _ :: _ :: _ :: _ :: w9 :: _ :: _ :: _ :: _ :: w14 :: _ =>
    smallSigma1 w14 + w9 + smallSigma0 w1 + w0
  | _ => 0

/-- The rounds for the given constants; `window` holds the next sixteen words. -/
def rounds : List UInt32 → List UInt32 → Digest → Digest
  | [], _, s => s
  | k :: ks, window, s =>
    rounds ks (window.drop 1 ++ [nextWord window]) (round s k (window.headD 0))

/-- Takes one block of sixteen words in. -/
def compress (s : Digest) (block : List UInt32) : Digest :=
  s.add (rounds roundConstants block s)

def word (b0 b1 b2 b3 : UInt8) : UInt32 :=
  b0.toUInt32 <<< 24 ||| b1.toUInt32 <<< 16 ||| b2.toUInt32 <<< 8 ||| b3.toUInt32

def wordsOfBytes : List UInt8 → List UInt32
  | b0 :: b1 :: b2 :: b3 :: rest => word b0 b1 b2 b3 :: wordsOfBytes rest
  | _ => []

/-- The big-endian bytes of a number, `n` of them. -/
def bytesOfNat (n value : Nat) : List UInt8 :=
  (List.range n).map fun i => (value >>> (8 * (n - 1 - i))).toUInt8

/-- What follows a message of `n` bytes: a one bit, zeros, and its length in bits. -/
def padding (n : Nat) : List UInt8 :=
  0x80 :: List.replicate ((119 - n % 64) % 64) 0 ++ bytesOfNat 8 (8 * n)

/-- The whole blocks of a list of words. -/
def absorb : Nat → List UInt32 → Digest → Digest
  | 0, _, s => s
  | blocks + 1, ws, s => absorb blocks (ws.drop 16) (compress s (ws.take 16))

def sha256 (bytes : List UInt8) : Digest :=
  let padded := bytes ++ padding bytes.length
  absorb (padded.length / 64) (wordsOfBytes padded) .start

def hexDigit (n : Nat) : Char := (Nat.toDigits 16 (n % 16)).headD '0'

def hexOfByte (b : UInt8) : List Char := [hexDigit (b.toNat / 16), hexDigit b.toNat]

def Digest.hex (x : Digest) : String :=
  String.ofList (x.words.flatMap fun w => (bytesOfNat 4 w.toNat).flatMap hexOfByte)

def sha256Hex (bytes : ByteArray) : String := (sha256 bytes.toList).hex

end ForcingData.Hash
