import TagVersion.ObjectId
import TagVersion.Text.Bytes

/-!
The digest that names an object by its content: a hundred and sixty bits, in five words that each
block of the message stirs in turn.
-/

namespace TagVersion.Git.Sha1

def rotate (w : UInt32) (n : UInt32) : UInt32 := (w <<< n) ||| (w >>> (32 - n))

/-- The five words of a digest. -/
structure Words where
  a : UInt32
  b : UInt32
  c : UInt32
  d : UInt32
  e : UInt32
deriving DecidableEq, Repr

/-- The words in front of the first block. -/
def start : Words := ⟨0x67452301, 0xEFCDAB89, 0x98BADCFE, 0x10325476, 0xC3D2E1F0⟩

/-- The number that bytes write, most significant first. -/
def number (bytes : Bytes) : Nat := bytes.foldl (fun n b => n * 256 + b.toNat) 0

/-- The last `width` bytes of a number, most significant first. -/
def bytesOf : Nat → Nat → Bytes
  | 0, _ => []
  | width + 1, n => bytesOf width (n / 256) ++ [(n % 256).toUInt8]

/-- A message with a one bit, zeros, and its length in bits behind it: whole blocks. -/
def padded (message : Bytes) : Bytes :=
  let zeros := (119 - message.length % 64) % 64
  message ++ 0x80 :: List.replicate zeros 0 ++ bytesOf 8 (message.length * 8)

/-- The sixteen words of a block. -/
def words : Bytes → Array UInt32
  | a :: b :: c :: d :: rest => #[(number [a, b, c, d]).toUInt32] ++ words rest
  | _ => #[]

/-- The eighty words that the rounds use: those of the block, and then each from four before. -/
def schedule (block : Bytes) : Array UInt32 :=
  (List.range 64).foldl (fun w _ =>
    let back (n : Nat) := w.getD (w.size - n) 0
    w.push (rotate (back 3 ^^^ back 8 ^^^ back 14 ^^^ back 16) 1)) (words block)

/-- What a round mixes in by its number: a function of three words, and a constant. -/
def mix (round : Nat) (b c d : UInt32) : UInt32 :=
  if round < 20 then ((b &&& c) ||| ((~~~b) &&& d)) + 0x5A827999
  else if round < 40 then (b ^^^ c ^^^ d) + 0x6ED9EBA1
  else if round < 60 then ((b &&& c) ||| (b &&& d) ||| (c &&& d)) + 0x8F1BBCDC
  else (b ^^^ c ^^^ d) + 0xCA62C1D6

def round (s : Words) (k : Nat) (word : UInt32) : Words :=
  ⟨rotate s.a 5 + mix k s.b s.c s.d + s.e + word, s.a, rotate s.b 30, s.c, s.d⟩

/-- Stirs a block in. -/
def stir (s : Words) (block : Bytes) : Words :=
  let (t, _) := (schedule block).foldl (fun (t, k) word => (round t k word, k + 1)) (s, 0)
  ⟨s.a + t.a, s.b + t.b, s.c + t.c, s.d + t.d, s.e + t.e⟩

/-- Stirs in all blocks, of which there are at most `count`. -/
def stirAll (s : Words) : Nat → Bytes → Words
  | 0, _ => s
  | count + 1, bytes =>
    if bytes.isEmpty then s else stirAll (stir s (bytes.take 64)) count (bytes.drop 64)

/-- The digest as a number. -/
def digest (message : Bytes) : Nat :=
  let bytes := padded message
  let s := stirAll start (bytes.length / 64) bytes
  [s.a, s.b, s.c, s.d, s.e].foldl (fun n w => n * Nat.pow 2 32 + w.toNat) 0

end TagVersion.Git.Sha1

namespace TagVersion.ObjectId

/-- The id whose digits write a number of a hundred and sixty bits. -/
def ofNumber (n : Nat) : ObjectId :=
  ofDigits (Hex.numeral 40 n) (Hex.length_numeral 40 n) (all_isLowerDigit_numeral 40 n)

/-- The id that twenty bytes write. -/
def ofBytes (bytes : Bytes) : ObjectId := ofNumber (Git.Sha1.number bytes)

/-- The bytes that an id writes, two digits each. -/
def bytes (id : ObjectId) : Bytes := (Hex.toBytes? id.text.toList).getD []

end TagVersion.ObjectId
