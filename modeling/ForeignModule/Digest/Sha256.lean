/-!
# SHA-256

The digest of a text of bytes. The text is padded to whole blocks of 64 bytes; each block is
compressed into a state of eight words, and the words of the last state are the digest.
-/

namespace ForeignModule.Digest

/-- The eight words that a block is compressed into. -/
structure Words where
  a : UInt32
  b : UInt32
  c : UInt32
  d : UInt32
  e : UInt32
  f : UInt32
  g : UInt32
  h : UInt32
deriving DecidableEq, Repr, Inhabited

/-- The state before the first block: the square roots of the first eight primes. -/
def initial : Words :=
  { a := 0x6a09e667, b := 0xbb67ae85, c := 0x3c6ef372, d := 0xa54ff53a
    e := 0x510e527f, f := 0x9b05688c, g := 0x1f83d9ab, h := 0x5be0cd19 }

/-- One constant for each round: the cube roots of the first 64 primes. -/
def constants : List UInt32 :=
  [0x428a2f98, 0x71374491, 0xb5c0fbcf, 0xe9b5dba5, 0x3956c25b, 0x59f111f1, 0x923f82a4, 0xab1c5ed5,
    0xd807aa98, 0x12835b01, 0x243185be, 0x550c7dc3, 0x72be5d74, 0x80deb1fe, 0x9bdc06a7, 0xc19bf174,
    0xe49b69c1, 0xefbe4786, 0x0fc19dc6, 0x240ca1cc, 0x2de92c6f, 0x4a7484aa, 0x5cb0a9dc, 0x76f988da,
    0x983e5152, 0xa831c66d, 0xb00327c8, 0xbf597fc7, 0xc6e00bf3, 0xd5a79147, 0x06ca6351, 0x14292967,
    0x27b70a85, 0x2e1b2138, 0x4d2c6dfc, 0x53380d13, 0x650a7354, 0x766a0abb, 0x81c2c92e, 0x92722c85,
    0xa2bfe8a1, 0xa81a664b, 0xc24b8b70, 0xc76c51a3, 0xd192e819, 0xd6990624, 0xf40e3585, 0x106aa070,
    0x19a4c116, 0x1e376c08, 0x2748774c, 0x34b0bcb5, 0x391c0cb3, 0x4ed8aa4a, 0x5b9cca4f, 0x682e6ff3,
    0x748f82ee, 0x78a5636f, 0x84c87814, 0x8cc70208, 0x90befffa, 0xa4506ceb, 0xbef9a3f7, 0xc67178f2]

/-- A word with its bits turned to the right. -/
def rotate (x n : UInt32) : UInt32 := (x >>> n) ||| (x <<< (32 - n))

/-- One round, with a constant and a word that comes from the block. -/
def round (s : Words) (k x : UInt32) : Words :=
  let mixed := rotate s.e 6 ^^^ rotate s.e 11 ^^^ rotate s.e 25
  let choice := (s.e &&& s.f) ^^^ (~~~s.e &&& s.g)
  let first := s.h + mixed + choice + k + x
  let spread := rotate s.a 2 ^^^ rotate s.a 13 ^^^ rotate s.a 22
  let majority := (s.a &&& s.b) ^^^ (s.a &&& s.c) ^^^ (s.b &&& s.c)
  { a := first + (spread + majority), b := s.a, c := s.b, d := s.c
    e := s.d + first, f := s.e, g := s.f, h := s.g }

/-- The word that comes sixteen places behind the first of these. -/
def nextWord (window : List UInt32) : UInt32 :=
  let word := fun n => window.getD n 0
  let low := rotate (word 1) 7 ^^^ rotate (word 1) 18 ^^^ (word 1 >>> 3)
  let high := rotate (word 14) 17 ^^^ rotate (word 14) 19 ^^^ (word 14 >>> 10)
  word 0 + low + word 9 + high

/-- All rounds. The window holds the words of this round and of the fifteen after it. -/
def rounds (s : Words) (window : List UInt32) : List UInt32 → Words
  | [] => s
  | k :: ks => rounds (round s k (window.headD 0)) (window.tail ++ [nextWord window]) ks

/-- Bytes as words, high bytes first. -/
def wordsOf : List UInt8 → List UInt32
  | p :: q :: r :: s :: rest =>
    ((p.toUInt32 <<< 24) ||| (q.toUInt32 <<< 16) ||| (r.toUInt32 <<< 8) ||| s.toUInt32)
      :: wordsOf rest
  | _ => []

/-- Compresses a block into a state. -/
def compress (s : Words) (block : List UInt8) : Words :=
  let t := rounds s (wordsOf block) constants
  { a := s.a + t.a, b := s.b + t.b, c := s.c + t.c, d := s.d + t.d
    e := s.e + t.e, f := s.f + t.f, g := s.g + t.g, h := s.h + t.h }

/-- The bytes of a word, high byte first. -/
def bytesOf (x : UInt32) : List UInt8 :=
  [(x >>> 24).toUInt8, (x >>> 16).toUInt8, (x >>> 8).toUInt8, x.toUInt8]

/-- The bytes of a state. -/
def Words.bytes (s : Words) : List UInt8 :=
  [s.a, s.b, s.c, s.d, s.e, s.f, s.g, s.h].flatMap bytesOf

/-- What is put behind a text of `size` bytes: a set bit, as many zeros as it takes, and the number
of bits as eight bytes. -/
def padding (size : Nat) : List UInt8 :=
  let bits := (8 * size).toUInt64
  let zeros : List UInt8 := List.replicate ((119 - size % 64) % 64) 0
  0x80 :: zeros ++ bytesOf (bits >>> 32).toUInt32 ++ bytesOf bits.toUInt32

/-- Cuts a list into pieces of `size`, of which only the last one may be shorter. `room` more
elements belong to the first piece. -/
def cut (size room : Nat) : List α → List (List α)
  | [] => []
  | x :: rest =>
    match room with
    | 0 | 1 => [x] :: cut size size rest
    | room + 1 =>
      match cut size room rest with
      | [] => [[x]]
      | piece :: more => (x :: piece) :: more

/-- The digest of a text of bytes. -/
def sha256 (text : List UInt8) : List UInt8 :=
  ((cut 64 64 (text ++ padding text.length)).foldl compress initial).bytes

/-- Bytes in two small hexadecimal digits each. -/
def hex (bytes : List UInt8) : String :=
  .ofList (bytes.flatMap fun b => [(b.toNat / 16).digitChar, (b.toNat % 16).digitChar])

end ForeignModule.Digest
