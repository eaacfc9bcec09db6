/-!
Paths as they are spelled. A path keeps its spelling, but two spellings name the same place in
the tree of directories if they have the same parts.
-/

namespace TagVersion.Path

/-- A part of a path. -/
inductive Part where
  /-- The root, in front of an absolute path. -/
  | root
  /-- The directory itself, written `.` at the very start. -/
  | here
  /-- The directory above, written `..`. -/
  | up
  | name (text : String)
deriving DecidableEq, Repr

/-- Whether a path starts at the root. -/
def isAbsolute (path : String) : Bool := path.toList.head? == some '/'

/-- The texts between slashes that are not empty. -/
def segments (path : String) : List String :=
  ((path.toList.splitOn '/').filter (!·.isEmpty)).map String.ofList

/-- A text between slashes as a part; `.` is none. -/
def part? (segment : String) : Option Part :=
  if segment = "." then none else if segment = ".." then some .up else some (.name segment)

/-- The parts of a path. Repeated and trailing slashes do not count, nor does `.` unless a
relative path starts with it. -/
def parts (path : String) : List Part :=
  let rest := (segments path).filterMap part?
  if isAbsolute path then .root :: rest
  else if (segments path).head? = some "." then .here :: rest
  else rest

/-- A path below another. An absolute path stays what it is; otherwise a slash is put in between
where the left side has none at its end. -/
def join (left right : String) : String :=
  if isAbsolute right then right
  else if left.isEmpty || left.toList.getLast? == some '/' then left ++ right
  else left ++ "/" ++ right

end TagVersion.Path
