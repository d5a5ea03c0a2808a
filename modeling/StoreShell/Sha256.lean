import StoreShell.Text.Bytes

/-!
# SHA-256

The digest that a store reports for the content of a file, as FIPS 180-4 defines it: the message is
padded to whole blocks of 64 bytes, and each block is mixed into a state of eight words.
-/

namespace StoreShell.Sha256

/-- Fractional parts of the cube roots of the first 64 primes. -/
def roundConstants : Array UInt32 := #[
  0x428a2f98, 0x71374491, 0xb5c0fbcf, 0xe9b5dba5, 0x3956c25b, 0x59f111f1, 0x923f82a4, 0xab1c5ed5,
  0xd807aa98, 0x12835b01, 0x243185be, 0x550c7dc3, 0x72be5d74, 0x80deb1fe, 0x9bdc06a7, 0xc19bf174,
  0xe49b69c1, 0xefbe4786, 0x0fc19dc6, 0x240ca1cc, 0x2de92c6f, 0x4a7484aa, 0x5cb0a9dc, 0x76f988da,
  0x983e5152, 0xa831c66d, 0xb00327c8, 0xbf597fc7, 0xc6e00bf3, 0xd5a79147, 0x06ca6351, 0x14292967,
  0x27b70a85, 0x2e1b2138, 0x4d2c6dfc, 0x53380d13, 0x650a7354, 0x766a0abb, 0x81c2c92e, 0x92722c85,
  0xa2bfe8a1, 0xa81a664b, 0xc24b8b70, 0xc76c51a3, 0xd192e819, 0xd6990624, 0xf40e3585, 0x106aa070,
  0x19a4c116, 0x1e376c08, 0x2748774c, 0x34b0bcb5, 0x391c0cb3, 0x4ed8aa4a, 0x5b9cca4f, 0x682e6ff3,
  0x748f82ee, 0x78a5636f, 0x84c87814, 0x8cc70208, 0x90befffa, 0xa4506ceb, 0xbef9a3f7, 0xc67178f2]

/-- The eight words of the state. -/
structure State where
  (a b c d e f g h : UInt32)
  deriving DecidableEq, Repr

/-- Fractional parts of the square roots of the first eight primes. -/
def State.initial : State :=
  ⟨0x6a09e667, 0xbb67ae85, 0x3c6ef372, 0xa54ff53a, 0x510e527f, 0x9b05688c, 0x1f83d9ab, 0x5be0cd19⟩

/-- Words of two states added one by one. -/
def State.add (x y : State) : State :=
  ⟨x.a + y.a, x.b + y.b, x.c + y.c, x.d + y.d, x.e + y.e, x.f + y.f, x.g + y.g, x.h + y.h⟩

def State.words (x : State) : List UInt32 := [x.a, x.b, x.c, x.d, x.e, x.f, x.g, x.h]

/-- A word turned right by `n` bits. -/
def rotateRight (x : UInt32) (n : UInt32) : UInt32 :=
  (x >>> n) ||| (x <<< (32 - n))

/-- The four bytes of a word, the highest first. -/
def wordBytes (x : UInt32) : Bytes :=
  [(x >>> 24).toUInt8, (x >>> 16).toUInt8, (x >>> 8).toUInt8, x.toUInt8]

/-- The eight bytes of a number below `2 ^ 64`, the highest first. -/
def lengthBytes (n : Nat) : Bytes :=
  wordBytes (n / 0x100000000).toUInt32 ++ wordBytes n.toUInt32

/-- The message, a one bit, zeros, and the length in bits, together whole blocks. -/
def pad (message : Bytes) : Bytes :=
  let size := message.length
  message ++ 0x80 :: (List.replicate ((119 - size % 64) % 64) 0 ++ lengthBytes (8 * size))

/-- Four bytes make a word; bytes left over are dropped. -/
def words : Bytes → List UInt32 → List UInt32
  | a :: b :: c :: d :: rest, done =>
    words rest <|
      ((a.toUInt32 <<< 24) ||| (b.toUInt32 <<< 16) ||| (c.toUInt32 <<< 8) ||| d.toUInt32) :: done
  | _, done => done.reverse

/-- The next word of the schedule from the sixteen before it, the newest first. -/
def nextWord (recent : Array UInt32) : UInt32 :=
  let back := fun n => recent.getD (recent.size - n) 0
  let s0 := let x := back 15; rotateRight x 7 ^^^ rotateRight x 18 ^^^ (x >>> 3)
  let s1 := let x := back 2; rotateRight x 17 ^^^ rotateRight x 19 ^^^ (x >>> 10)
  back 16 + s0 + back 7 + s1

/-- The 64 words that a block is mixed in with. -/
def schedule (block : List UInt32) : Array UInt32 :=
  (List.range 48).foldl (fun made _ => made.push (nextWord made)) block.toArray

def round (s : State) (constant word : UInt32) : State :=
  let s1 := rotateRight s.e 6 ^^^ rotateRight s.e 11 ^^^ rotateRight s.e 25
  let choice := (s.e &&& s.f) ^^^ ((~~~ s.e) &&& s.g)
  let t1 := s.h + s1 + choice + constant + word
  let s0 := rotateRight s.a 2 ^^^ rotateRight s.a 13 ^^^ rotateRight s.a 22
  let majority := (s.a &&& s.b) ^^^ (s.a &&& s.c) ^^^ (s.b &&& s.c)
  ⟨t1 + s0 + majority, s.a, s.b, s.c, s.d + t1, s.e, s.f, s.g⟩

/-- Mixes one block of sixteen words into the state. -/
def compress (s : State) (block : List UInt32) : State :=
  let scheduled := schedule block
  s.add <| (List.range 64).foldl
    (fun t i => round t (roundConstants.getD i 0) (scheduled.getD i 0)) s

/-- Mixes in all blocks of a padded message. -/
def compressAll (s : State) (message : List UInt32) : State :=
  match message with
  | [] => s
  | first :: rest => compressAll (compress s ((first :: rest).take 16)) ((first :: rest).drop 16)
termination_by message.length
decreasing_by
  simp only [List.length_drop, List.length_cons]
  omega

/-- The digest of a message: 32 bytes. -/
def digest (message : Bytes) : Bytes :=
  (compressAll .initial (words (pad message) [])).words.flatMap wordBytes

end StoreShell.Sha256
