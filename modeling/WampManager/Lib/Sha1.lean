/-
# SHA-1

The digest of a byte string as forty small hexadecimal digits. The message is
padded to whole blocks of sixteen words, and every block is mixed into a state
of five words. All recursions are structural, so digests of short messages can
be evaluated.
-/

import WampManager.Lib.Text

namespace Sha1

/-- A machine word. -/
abbrev Word := BitVec 32

/-- The chaining state. -/
structure State where
  a : Word
  b : Word
  c : Word
  d : Word
  e : Word

/-- The state before the first block. -/
def initial : State :=
  ⟨0x67452301#32, 0xEFCDAB89#32, 0x98BADCFE#32, 0x10325476#32, 0xC3D2E1F0#32⟩

/-- Component-wise sum. -/
def State.add (s t : State) : State :=
  ⟨s.a + t.a, s.b + t.b, s.c + t.c, s.d + t.d, s.e + t.e⟩

/-- The eight bytes of the message length in bits. -/
def lengthBytes (n : ℕ) : List UInt8 :=
  (List.range 8).map fun i => UInt8.ofNat ((n * 8) >>> (56 - 8 * i))

/-- The message with its end marker, the filling and its length. -/
def pad (message : List UInt8) : List UInt8 :=
  message ++ 0x80 :: List.replicate ((119 - message.length % 64) % 64) 0 ++
    lengthBytes message.length

/-- Four bytes make a word, the first one on top. -/
def words : List UInt8 → List Word
  | a :: b :: c :: d :: rest =>
      (a.toBitVec ++ b.toBitVec ++ c.toBitVec ++ d.toBitVec) :: words rest
  | _ => []

/-- Extend a schedule that is kept last word first. -/
def extend : ℕ → List Word → List Word
  | 0, ws => ws
  | n + 1, ws =>
      let w := ws.getD 2 0 ^^^ ws.getD 7 0 ^^^ ws.getD 13 0 ^^^ ws.getD 15 0
      extend n (w.rotateLeft 1 :: ws)

/-- The mixing function and the constant of a round. -/
def mix (round : ℕ) (s : State) : Word :=
  if round < 20 then ((s.b &&& s.c) ||| (~~~s.b &&& s.d)) + 0x5A827999#32
  else if round < 40 then (s.b ^^^ s.c ^^^ s.d) + 0x6ED9EBA1#32
  else if round < 60 then ((s.b &&& s.c) ||| (s.b &&& s.d) ||| (s.c &&& s.d)) + 0x8F1BBCDC#32
  else (s.b ^^^ s.c ^^^ s.d) + 0xCA62C1D6#32

/-- The rounds from a given one on, one for each word of the schedule. -/
def rounds : ℕ → List Word → State → State
  | _, [], s => s
  | round, w :: ws, s =>
      rounds (round + 1) ws
        ⟨s.a.rotateLeft 5 + mix round s + s.e + w, s.a, s.b.rotateLeft 30, s.c, s.d⟩

/-- Mix one block into the state. -/
def compress (s : State) (block : List Word) : State :=
  s.add (rounds 0 (extend 64 block.reverse).reverse s)

/-- Mix a number of blocks into the state. -/
def blocks : ℕ → List Word → State → State
  | 0, _, s => s
  | n + 1, ws, s => blocks n (ws.drop 16) (compress s (ws.take 16))

/-- The eight digits of a word. -/
def hex (w : Word) : Text :=
  (List.range 8).map fun i => Nat.digitChar ((w.toNat >>> (28 - 4 * i)) % 16)

/-- The digest. -/
def sha1 (message : List UInt8) : Text :=
  let ws := words (pad message)
  let s := blocks (ws.length / 16) ws initial
  hex s.a ++ hex s.b ++ hex s.c ++ hex s.d ++ hex s.e

@[simp]
theorem length_hex (w : Word) : (hex w).length = 8 := by
  simp [hex]

/-- Every digest has forty digits. -/
@[simp]
theorem length_sha1 (message : List UInt8) : (sha1 message).length = 40 := by
  simp [sha1]

/-- The bytes of an ASCII text. -/
def bytes (t : String) : List UInt8 := t.toList.map fun c => UInt8.ofNat c.toNat

/-- A message of one block and one of two. -/
example : sha1 (bytes "abc") = "a9993e364706816aba3e25717850c26c9cd0d89d".toList ∧
    sha1 (bytes "abcdbcdecdefdefgefghfghighijhijkijkljklmklmnlmnomnopnopq") =
      "84983e441c3bd26ebaae4aa1f95129e5e54670f1".toList := by decide +kernel

end Sha1
