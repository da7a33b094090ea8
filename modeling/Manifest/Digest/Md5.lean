import Manifest.Number.Power
/-!
# The MD5 digest

Sixty-four steps over each block of sixty-four bytes, in arithmetic modulo
`2 ^ 32`. Words are read and written with their low byte first.
-/

namespace Manifest.Md5

/-- The four words that a block transforms. -/
structure State where
  a : UInt32
  b : UInt32
  c : UInt32
  d : UInt32
deriving DecidableEq

def State.start : State := ⟨0x67452301, 0xefcdab89, 0x98badcfe, 0x10325476⟩

def State.add (s t : State) : State := ⟨s.a + t.a, s.b + t.b, s.c + t.c, s.d + t.d⟩

/-- The whole parts of `2 ^ 32 · |sin (i + 1)|`. -/
def sines : List UInt32 :=
  [0xd76aa478, 0xe8c7b756, 0x242070db, 0xc1bdceee, 0xf57c0faf, 0x4787c62a, 0xa8304613, 0xfd469501,
   0x698098d8, 0x8b44f7af, 0xffff5bb1, 0x895cd7be, 0x6b901122, 0xfd987193, 0xa679438e, 0x49b40821,
   0xf61e2562, 0xc040b340, 0x265e5a51, 0xe9b6c7aa, 0xd62f105d, 0x02441453, 0xd8a1e681, 0xe7d3fbc8,
   0x21e1cde6, 0xc33707d6, 0xf4d50d87, 0x455a14ed, 0xa9e3e905, 0xfcefa3f8, 0x676f02d9, 0x8d2a4c8a,
   0xfffa3942, 0x8771f681, 0x6d9d6122, 0xfde5380c, 0xa4beea44, 0x4bdecfa9, 0xf6bb4b60, 0xbebfbc70,
   0x289b7ec6, 0xeaa127fa, 0xd4ef3085, 0x04881d05, 0xd9d4d039, 0xe6db99e5, 0x1fa27cf8, 0xc4ac5665,
   0xf4292244, 0x432aff97, 0xab9423a7, 0xfc93a039, 0x655b59c3, 0x8f0ccc92, 0xffeff47d, 0x85845dd1,
   0x6fa87e4f, 0xfe2ce6e0, 0xa3014314, 0x4e0811a1, 0xf7537e82, 0xbd3af235, 0x2ad7d2bb, 0xeb86d391]

/-- How far each step rotates: four amounts a round, repeated. -/
def rotations : List UInt32 :=
  [[7, 12, 17, 22], [5, 9, 14, 20], [4, 11, 16, 23], [6, 10, 15, 21]].flatMap fun round =>
    (List.replicate 4 round).flatten

def rotateLeft (x n : UInt32) : UInt32 := (x <<< n) ||| (x >>> (32 - n))

/-- The mixing function of step `i` and the index of the word it reads. -/
def mix (i : Nat) (s : State) : UInt32 × Nat :=
  if i < 16 then ((s.b &&& s.c) ||| (~~~s.b &&& s.d), i)
  else if i < 32 then ((s.d &&& s.b) ||| (~~~s.d &&& s.c), (5 * i + 1) % 16)
  else if i < 48 then (s.b ^^^ s.c ^^^ s.d, (3 * i + 5) % 16)
  else (s.c ^^^ (s.b ||| ~~~s.d), (7 * i) % 16)

def step (words : List UInt32) (s : State) (i : Nat) : State :=
  let (f, g) := mix i s
  let sum := s.a + f + sines.getD i 0 + words.getD g 0
  ⟨s.d, s.b + rotateLeft sum (rotations.getD i 0), s.b, s.c⟩

def block (s : State) (words : List UInt32) : State :=
  s.add ((List.range 64).foldl (step words) s)

/-- The consecutive pieces of `n` items; a last, shorter piece is kept. -/
def chunks {α : Type} (n : Nat) (items : List α) : List (List α) :=
  (List.range ((items.length + n - 1) / n)).map fun i => (items.drop (n * i)).take n

def wordOf (bytes : List UInt8) : UInt32 :=
  bytes.foldr (fun byte word => (word <<< 8) ||| byte.toUInt32) 0

/-- The `count` low bytes of `n`, lowest first. -/
def lowBytes (count n : Nat) : List UInt8 :=
  (List.range count).map fun i => UInt8.ofNat (n / pow2 (8 * i))

/-- A one bit, zeros up to eight bytes short of a block, and the length in
bits. -/
def padded (message : List UInt8) : List UInt8 :=
  let length := message.length
  message ++ 0x80 :: List.replicate ((119 - length % 64) % 64) 0 ++ lowBytes 8 (8 * length)

/-- The sixteen bytes of the digest. -/
def digest (message : List UInt8) : List UInt8 :=
  let s := ((chunks 64 (padded message)).map fun b => (chunks 4 b).map wordOf).foldl block .start
  [s.a, s.b, s.c, s.d].flatMap fun word => lowBytes 4 word.toNat

end Manifest.Md5
