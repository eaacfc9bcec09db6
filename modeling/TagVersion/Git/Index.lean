import TagVersion.Git.Object

/-!
The index: the files that the next commit takes up, by path, with up to three entries in place of
one for a path that a merge left in conflict. On disk entries come in the order of their paths,
framed by a head with their number and by a digest.
-/

namespace TagVersion.Git

namespace Index

structure Entry where
  path : Bytes
  /-- Zero, or the side of a conflict. -/
  stage : Nat
  mode : Mode
  id : ObjectId
  /-- The size of the file in bytes. -/
  size : Nat
deriving DecidableEq

/-- The order of entries: by path, then by stage. -/
def Entry.precedes (a b : Entry) : Bool := a.path < b.path || (a.path = b.path && a.stage ≤ b.stage)

end Index

structure Index where
  entries : List Index.Entry := []
deriving DecidableEq

namespace Index

/-- The entries of files without conflict. -/
def settled (index : Index) : List Entry := index.entries.filter (·.stage = 0)

/-- The paths in conflict. -/
def conflicts (index : Index) : List Bytes :=
  ((index.entries.filter (·.stage ≠ 0)).map (·.path)).eraseDups

/-- The index without a path. -/
def erase (index : Index) (path : Bytes) : Index :=
  ⟨index.entries.filter (·.path ≠ path)⟩

/-- The index with some entries in place of what their path had. -/
def put (index : Index) (path : Bytes) (entries : List Entry) : Index :=
  ⟨((index.erase path).entries ++ entries).mergeSort Entry.precedes⟩

/-! ### The file -/

def magic : Bytes := Bytes.ofText "DIRC"

/-- The zeros behind a path: at least one, up to a multiple of eight bytes for the entry. -/
def padding (size : Nat) : Nat := 8 - size % 8

/-- The bytes of an entry in front of its path, without what only the file system knows. -/
def encodeEntry (e : Entry) : Bytes :=
  let flags := e.stage * Nat.pow 2 12 + min e.path.length 0xFFF
  let head := List.replicate 24 0 ++ Sha1.bytesOf 4 e.mode.bits ++ List.replicate 8 0 ++
    Sha1.bytesOf 4 e.size ++ e.id.bytes ++ Sha1.bytesOf 2 flags ++ e.path
  head ++ List.replicate (padding head.length) 0

def encode (index : Index) : Bytes :=
  let body := magic ++ Sha1.bytesOf 4 2 ++ Sha1.bytesOf 4 index.entries.length ++
    index.entries.flatMap encodeEntry
  body ++ Sha1.bytesOf 20 (Sha1.digest body)

/-- Reads an entry. The second version of flags, where there is one, takes two bytes more. -/
def entry? (bytes : Bytes) : Option (Entry × Bytes) := do
  let mode ← Mode.ofBits? (Sha1.number ((bytes.drop 24).take 4))
  let size := Sha1.number ((bytes.drop 36).take 4)
  let id := ObjectId.ofBytes ((bytes.drop 40).take 20)
  let flags := Sha1.number ((bytes.drop 60).take 2)
  let head := if flags / Nat.pow 2 14 % 2 = 1 then 64 else 62
  let (path, _) ← Bytes.cut? 0 (bytes.drop head)
  let whole := head + path.length
  let whole := whole + padding whole
  if bytes.length < whole || path.isEmpty then none
  else some (⟨path, flags / Nat.pow 2 12 % 4, mode, id, size⟩, bytes.drop whole)

def entries? : Nat → Bytes → Option (List Entry)
  | 0, _ => some []
  | count + 1, bytes => do
    let (first, rest) ← entry? bytes
    return first :: (← entries? count rest)

/-- Reads the file. What stands between the entries and the digest is passed over. -/
def decode? (file : Bytes) : Option Index := do
  let body := file.take (file.length - 20)
  let rest ← magic.isPrefixOf? body
  let version := Sha1.number (rest.take 4)
  let count := Sha1.number ((rest.drop 4).take 4)
  if file.length < 32 || version < 2 || 3 < version ||
      Sha1.number (file.drop body.length) ≠ Sha1.digest body then none
  else return ⟨← entries? count (rest.drop 8)⟩

end Index

end TagVersion.Git
