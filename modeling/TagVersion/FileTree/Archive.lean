import TagVersion.FileTree

/-!
Archives of files as `tar` writes them. An archive is a row of blocks: a header for each file and
then the file's content, filled up to whole blocks. It is read as the tree that comes of unpacking
it at the root.
-/

namespace TagVersion.FileTree

namespace Archive

def blockSize : Nat := 512

/-- How many bytes the blocks take that hold a content. -/
def padded (size : Nat) : Nat := (size + blockSize - 1) / blockSize * blockSize

/-- A field of a header, up to its first zero. -/
def field (header : Bytes) (start length : Nat) : Bytes :=
  ((header.drop start).take length).takeWhile (· != 0)

/-- The number that a field holds in octal digits. -/
def number (field : Bytes) : Nat :=
  (field.filter fun b => 48 ≤ b && b ≤ 55).foldl (fun n b => 8 * n + (b.toNat - 48)) 0

/-- The byte that says what kind of entry a header starts. -/
def kind? (header : Bytes) : Option UInt8 := (header.drop 156).head?

/-- The name in a header. Where the format has room for it, its first directories stand apart. -/
def name (header : Bytes) : Bytes :=
  let above := if field header 257 6 = Bytes.ofText "ustar" then field header 345 155 else []
  if above.isEmpty then field header 0 100 else above ++ 47 :: field header 0 100

/-- What the header of a file does not say itself because it is too long: a special entry before
says it. -/
structure Ahead where
  name : Option Bytes := none
  target : Option Bytes := none

/-- What has been read, and what is known of the next file. -/
structure Progress where
  tree : FileTree := {}
  ahead : Ahead := {}

/-- The place that a name leads to from the root. -/
def place? (name : Bytes) : Option Place :=
  name.text?.map fun path => (Path.segments path).filter (· != ".")

/-- Whether a mode lets anyone execute the file. -/
def isExecutable (mode : Nat) : Bool := mode % 2 = 1 || mode / 8 % 2 = 1 || mode / 64 % 2 = 1

/-- Unpacks one file. Names that are no text are left out, and so are devices. -/
def unpack (p : Progress) (header content : Bytes) : Progress :=
  match place? (p.ahead.name.getD (name header)) with
  | none => { p with ahead := {} }
  | some place =>
    match kind? header with
    | some 0 | some 48 =>
      let tree := p.tree.write place content
      { tree := tree.setExecutable place (isExecutable (number (field header 100 8))) }
    | some 50 =>
      let target := p.ahead.target.getD (field header 157 100)
      { tree := p.tree.symlink place (target.text?.getD "") }
    | some 53 => { tree := p.tree.makeFolder place }
    | _ => { p with ahead := {} }

/-- Reads one entry: a file, or what is said ahead of one. -/
def entry (p : Progress) (header content : Bytes) : Progress :=
  let said := content.takeWhile (· != 0)
  match kind? header with
  | some 75 => { p with ahead := { p.ahead with target := some said } }
  | some 76 => { p with ahead := { p.ahead with name := some said } }
  | _ => unpack p header content

/-- Reads the blocks of an archive. It ends where a header is empty. -/
def read (p : Progress) : Bytes → Progress
  | [] => p
  | b :: rest =>
    let header := b :: rest.take (blockSize - 1)
    if header.all (· == 0) then p
    else
      let body := rest.drop (blockSize - 1)
      let size := number (field header 124 12)
      read (entry p header (body.take size)) (body.drop (padded size))
termination_by bytes => bytes.length
decreasing_by simp +arith [blockSize]

end Archive

/-- The tree that an archive holds. -/
def ofArchive (archive : Bytes) : FileTree := (Archive.read {} archive).tree

end TagVersion.FileTree
