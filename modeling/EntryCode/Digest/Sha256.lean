import EntryCode.Word

/-!
SHA-256. A message is padded to whole blocks; each block is expanded to sixty-four words and mixed
into eight words of state, which are the digest in the end.
-/

namespace EntryCode.Sha256

section Words

def choose (x y z : Word) : Word := (x &&& y) ^^^ (~~~x &&& z)
def majority (x y z : Word) : Word := (x &&& y) ^^^ (x &&& z) ^^^ (y &&& z)
def mixA (x : Word) : Word := x.rotateRight 2 ^^^ x.rotateRight 13 ^^^ x.rotateRight 22
def mixE (x : Word) : Word := x.rotateRight 6 ^^^ x.rotateRight 11 ^^^ x.rotateRight 25
def spread0 (x : Word) : Word := x.rotateRight 7 ^^^ x.rotateRight 18 ^^^ (x >>> 3)
def spread1 (x : Word) : Word := x.rotateRight 17 ^^^ x.rotateRight 19 ^^^ (x >>> 10)

/-- The first thirty-two bits of the fractions of the cube roots of the first primes. -/
def roundConstants : List Word :=
  [0x428a2f98, 0x71374491, 0xb5c0fbcf, 0xe9b5dba5, 0x3956c25b, 0x59f111f1, 0x923f82a4, 0xab1c5ed5,
   0xd807aa98, 0x12835b01, 0x243185be, 0x550c7dc3, 0x72be5d74, 0x80deb1fe, 0x9bdc06a7, 0xc19bf174,
   0xe49b69c1, 0xefbe4786, 0x0fc19dc6, 0x240ca1cc, 0x2de92c6f, 0x4a7484aa, 0x5cb0a9dc, 0x76f988da,
   0x983e5152, 0xa831c66d, 0xb00327c8, 0xbf597fc7, 0xc6e00bf3, 0xd5a79147, 0x06ca6351, 0x14292967,
   0x27b70a85, 0x2e1b2138, 0x4d2c6dfc, 0x53380d13, 0x650a7354, 0x766a0abb, 0x81c2c92e, 0x92722c85,
   0xa2bfe8a1, 0xa81a664b, 0xc24b8b70, 0xc76c51a3, 0xd192e819, 0xd6990624, 0xf40e3585, 0x106aa070,
   0x19a4c116, 0x1e376c08, 0x2748774c, 0x34b0bcb5, 0x391c0cb3, 0x4ed8aa4a, 0x5b9cca4f, 0x682e6ff3,
   0x748f82ee, 0x78a5636f, 0x84c87814, 0x8cc70208, 0x90befffa, 0xa4506ceb, 0xbef9a3f7, 0xc67178f2]

end Words

structure State where
  a : Word
  b : Word
  c : Word
  d : Word
  e : Word
  f : Word
  g : Word
  h : Word
  deriving DecidableEq, Repr

namespace State

/-- The first thirty-two bits of the fractions of the square roots of the first eight primes. -/
def initial : State :=
  { a := 0x6a09e667, b := 0xbb67ae85, c := 0x3c6ef372, d := 0xa54ff53a
    e := 0x510e527f, f := 0x9b05688c, g := 0x1f83d9ab, h := 0x5be0cd19 }

def add (s t : State) : State :=
  { a := s.a + t.a, b := s.b + t.b, c := s.c + t.c, d := s.d + t.d
    e := s.e + t.e, f := s.f + t.f, g := s.g + t.g, h := s.h + t.h }

def round (s : State) (k w : Word) : State :=
  let t := s.h + mixE s.e + choose s.e s.f s.g + k + w
  { a := t + mixA s.a + majority s.a s.b s.c, b := s.a, c := s.b, d := s.c
    e := s.d + t, f := s.e, g := s.f, h := s.g }

def words (s : State) : List Word :=
  [s.a, s.b, s.c, s.d, s.e, s.f, s.g, s.h]

end State

def bytesOfWord (w : Word) : Bytes :=
  [w.extractLsb' 24 8, w.extractLsb' 16 8, w.extractLsb' 8 8, w.extractLsb' 0 8]

def wordsOfBytes : Bytes → List Word
  | b3 :: b2 :: b1 :: b0 :: rest => (b3 ++ b2 ++ b1 ++ b0) :: wordsOfBytes rest
  | _ => []

def pad (message : Bytes) : Bytes :=
  let zeros := (119 - message.length % 64) % 64
  let length := BitVec.ofNat 64 (8 * message.length)
  message ++ [0x80] ++ List.replicate zeros 0 ++
    bytesOfWord (length.extractLsb' 32 32) ++ bytesOfWord (length.extractLsb' 0 32)

/-- The next word of a schedule, given its last sixteen words. -/
def nextWord (last : List Word) : Word :=
  spread1 (last.getD 14 0) + last.getD 9 0 + spread0 (last.getD 1 0) + last.getD 0 0

/-- `n` words of a schedule, given its first sixteen. -/
def schedule : Nat → List Word → List Word
  | 0, _ => []
  | n + 1, window => window.headD 0 :: schedule n (window.drop 1 ++ [nextWord window])

/-- Mixes one block of sixteen words into the state. -/
def compress (s : State) (block : List Word) : State :=
  s.add ((roundConstants.zip (schedule 64 block)).foldl (fun s (k, w) => s.round k w) s)

/-- Mixes `n` blocks, which lie one after the other, into the state. -/
def absorb : Nat → State → List Word → State
  | 0, s, _ => s
  | n + 1, s, ws => absorb n (compress s (ws.take 16)) (ws.drop 16)

def digest (message : Bytes) : Bytes :=
  let padded := pad message
  (absorb (padded.length / 64) .initial (wordsOfBytes padded)).words.flatMap bytesOfWord

end EntryCode.Sha256
