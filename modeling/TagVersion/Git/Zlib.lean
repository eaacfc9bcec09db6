import TagVersion.Text.Bytes

/-!
The compressed form that objects are stored in. Every form is read: stored blocks, blocks with the
fixed codes, and blocks that bring their own codes. What is written is stored as it is.
-/

namespace TagVersion.Git.Zlib

/-- The bits that are left, from the lowest bit of each byte to the highest. -/
structure Bits where
  bytes : Bytes
  /-- How many bits of the first byte are used. -/
  used : Nat := 0

namespace Bits

def next? (s : Bits) : Option (Nat × Bits) :=
  match s.bytes with
  | [] => none
  | b :: rest =>
    let bit := b.toNat / Nat.pow 2 s.used % 2
    some (bit, if s.used = 7 then ⟨rest, 0⟩ else ⟨b :: rest, s.used + 1⟩)

/-- A number of some bits, lowest bit first. -/
def take? : Nat → Bits → Option (Nat × Bits)
  | 0, s => some (0, s)
  | count + 1, s => do
    let (bit, s) ← s.next?
    let (n, s) ← take? count s
    return (bit + 2 * n, s)

/-- The bytes that are left after the one that is begun. -/
def whole (s : Bits) : Bytes := if s.used = 0 then s.bytes else s.bytes.tail

end Bits

/-- A code for symbols: how many code words each length has, from length one on, and the symbols
in the order of their code words. -/
structure Code where
  counts : List Nat
  symbols : Array Nat

namespace Code

/-- The longest code word. -/
def maxLength : Nat := 15

/-- The code that gives each symbol a word of a certain length; zero for symbols without. -/
def ofLengths (lengths : List Nat) : Code where
  counts := (List.range maxLength).map fun n => lengths.count (n + 1)
  symbols := ((List.range maxLength).flatMap fun n =>
    (lengths.zipIdx.filter fun (length, _) => length = n + 1).map (·.2)).toArray

/-- Reads a code word bit by bit: `word` so far, the first word of its length, and how many
symbols have shorter words. -/
def read? (code : Code) (word first index : Nat) : List Nat → Bits → Option (Nat × Bits)
  | [], _ => none
  | count :: counts, s => do
    let (bit, s) ← s.next?
    let word := word + bit
    if first ≤ word && word < first + count then
      return (← code.symbols[index + (word - first)]?, s)
    else read? code (word * 2) ((first + count) * 2) (index + count) counts s

/-- The next symbol. -/
def next? (code : Code) (s : Bits) : Option (Nat × Bits) := code.read? 0 0 0 code.counts s

end Code

/-- For the length symbols from 257 on: the shortest length meant, and how many bits add to it. -/
def lengths : List (Nat × Nat) :=
  [(3, 0), (4, 0), (5, 0), (6, 0), (7, 0), (8, 0), (9, 0), (10, 0), (11, 1), (13, 1), (15, 1),
   (17, 1), (19, 2), (23, 2), (27, 2), (31, 2), (35, 3), (43, 3), (51, 3), (59, 3), (67, 4),
   (83, 4), (99, 4), (115, 4), (131, 5), (163, 5), (195, 5), (227, 5), (258, 0)]

/-- The same for the symbols of distances. -/
def distances : List (Nat × Nat) :=
  [(1, 0), (2, 0), (3, 0), (4, 0), (5, 1), (7, 1), (9, 2), (13, 2), (17, 3), (25, 3), (33, 4),
   (49, 4), (65, 5), (97, 5), (129, 6), (193, 6), (257, 7), (385, 7), (513, 8), (769, 8),
   (1025, 9), (1537, 9), (2049, 10), (3073, 10), (4097, 11), (6145, 11), (8193, 12), (12289, 12),
   (16385, 13), (24577, 13)]

/-- The number that a symbol and its further bits mean. -/
def extended? (table : List (Nat × Nat)) (symbol : Nat) (s : Bits) : Option (Nat × Bits) := do
  let (base, bits) ← table[symbol]?
  let (n, s) ← s.take? bits
  return (base + n, s)

/-- Repeats what was written `distance` bytes ago. -/
def copy (distance : Nat) : Nat → Array UInt8 → Array UInt8
  | 0, out => out
  | count + 1, out => copy distance count (out.push (out.getD (out.size - distance) 0))

/-- Reads the symbols of a block up to its end. -/
def symbols? (literals offsets : Code) : Nat → Array UInt8 → Bits → Option (Array UInt8 × Bits)
  | 0, _, _ => none
  | fuel + 1, out, s => do
    let (symbol, s) ← literals.next? s
    if symbol < 256 then symbols? literals offsets fuel (out.push symbol.toUInt8) s
    else if symbol = 256 then return (out, s)
    else
      let (length, s) ← extended? lengths (symbol - 257) s
      let (symbol, s) ← offsets.next? s
      let (distance, s) ← extended? distances symbol s
      if out.size < distance then none
      else symbols? literals offsets fuel (copy distance length out) s

/-- The code of literals and lengths that needs no description. -/
def fixedLiterals : Code :=
  .ofLengths (List.replicate 144 8 ++ List.replicate 112 9 ++ List.replicate 24 7 ++
    List.replicate 8 8)

def fixedOffsets : Code := .ofLengths (List.replicate 30 5)

/-- The order in which the lengths of the code for code lengths are given. -/
def order : List Nat := [16, 17, 18, 0, 8, 7, 9, 6, 10, 5, 11, 4, 12, 3, 13, 2, 14, 1, 15]

/-- Reads numbers of three bits. -/
def triples? : Nat → Bits → Option (List Nat × Bits)
  | 0, s => some ([], s)
  | count + 1, s => do
    let (n, s) ← s.take? 3
    let (rest, s) ← triples? count s
    return (n :: rest, s)

/-- Reads code lengths, which may be repeated, until there are `count`. -/
def codeLengths? (code : Code) (count : Nat) : Nat → Array Nat → Bits → Option (Array Nat × Bits)
  | 0, _, _ => none
  | fuel + 1, out, s =>
    if count ≤ out.size then some (out, s)
    else do
      let (symbol, s) ← code.next? s
      match symbol with
      | 16 =>
        let (n, s) ← s.take? 2
        codeLengths? code count fuel (out ++ Array.replicate (3 + n) (← out.back?)) s
      | 17 =>
        let (n, s) ← s.take? 3
        codeLengths? code count fuel (out ++ Array.replicate (3 + n) 0) s
      | 18 =>
        let (n, s) ← s.take? 7
        codeLengths? code count fuel (out ++ Array.replicate (11 + n) 0) s
      | length => codeLengths? code count fuel (out.push length) s

/-- Reads the two codes that a block brings. -/
def codes? (s : Bits) : Option (Code × Code × Bits) := do
  let (literals, s) ← s.take? 5
  let (offsets, s) ← s.take? 5
  let (given, s) ← s.take? 4
  let (triples, s) ← triples? (given + 4) s
  let named := order.zip triples
  let code := Code.ofLengths ((List.range 19).map fun n => (named.lookup n).getD 0)
  let count := literals + 257 + (offsets + 1)
  let (lengths, s) ← codeLengths? code count (count + 1) #[] s
  let lengths := (lengths.toList).take count
  return (.ofLengths (lengths.take (literals + 257)), .ofLengths (lengths.drop (literals + 257)), s)

/-- Reads blocks up to the last one. -/
def blocks? (size : Nat) : Nat → Array UInt8 → Bits → Option (Array UInt8)
  | 0, _, _ => none
  | fuel + 1, out, s => do
    let (last, s) ← s.take? 1
    let (kind, s) ← s.take? 2
    let (out, s) ←
      match kind with
      | 0 =>
        match s.whole with
        | a :: b :: _ :: _ :: rest =>
          let count := a.toNat + 256 * b.toNat
          if rest.length < count then none
          else some (out ++ (rest.take count).toArray, ⟨rest.drop count, 0⟩)
        | _ => none
      | 1 => symbols? fixedLiterals fixedOffsets size out s
      | 2 => do
        let (literals, offsets, s) ← codes? s
        symbols? literals offsets size out s
      | _ => none
    if last = 1 then return out else blocks? size fuel out s

/-- The bytes that a stream holds. Every symbol and every block takes a bit or more. -/
def decode? (stream : Bytes) : Option Bytes := do
  match stream with
  | method :: flags :: rest =>
    if method.toNat % 16 != 8 || (method.toNat * 256 + flags.toNat) % 31 != 0 then none
    else
      let size := 8 * rest.length + 1
      return (← blocks? size size #[] ⟨rest, 0⟩).toList
  | _ => none

/-- The checksum behind a stream. -/
def checksum (bytes : Bytes) : Nat :=
  let (a, b) := bytes.foldl (fun (a, b) byte =>
    let a := (a + byte.toNat) % 65521
    (a, (b + a) % 65521)) (1, 0)
  b * 65536 + a

/-- The most bytes that one block stores. -/
def blockSize : Nat := 65535

/-- Stored blocks of some bytes, of which there are at most `count`. -/
def stored : Nat → Bytes → Bytes
  | 0, _ => []
  | count + 1, bytes =>
    let block := bytes.take blockSize
    let rest := bytes.drop blockSize
    let size := block.length
    let low := (size % 256).toUInt8
    let high := (size / 256).toUInt8
    (if rest.isEmpty then 1 else 0) :: low :: high :: (255 - low) :: (255 - high) :: block ++
      if rest.isEmpty then [] else stored count rest

/-- A stream that holds some bytes. -/
def encode (bytes : Bytes) : Bytes :=
  let sum := checksum bytes
  0x78 :: 0x01 :: stored (bytes.length / blockSize + 1) bytes ++
    [(sum / Nat.pow 2 24).toUInt8, (sum / Nat.pow 2 16 % 256).toUInt8, (sum / 256 % 256).toUInt8,
      (sum % 256).toUInt8]

end TagVersion.Git.Zlib
