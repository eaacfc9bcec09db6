import TagVersion.Text.Bytes

/-!
Files as a program meets them that looks at one path at a time.
-/

namespace TagVersion

/-- What is found at a path when links are followed. -/
inductive Source where
  /-- Nothing, or a directory. -/
  | absent
  /-- A file that cannot be read, and why. -/
  | unreadable (why : String)
  | content (bytes : Bytes)
deriving DecidableEq, Repr

/-- Whether a file is there. -/
def Source.isFile (source : Source) : Bool := source != .absent

/-- What is found at each path, by its spelling. -/
abbrev Files := String → Source

namespace Files

/-- Why a file that is no text in UTF-8 cannot be read as text. -/
def notText : String := "stream did not contain valid UTF-8"

/-- Reads a file as text. -/
def readText (files : Files) (path : String) : Except String String :=
  match files path with
  | .absent => .error "No such file or directory (os error 2)"
  | .unreadable why => .error why
  | .content bytes =>
    match bytes.text? with
    | some text => .ok text
    | none => .error notText

end Files

end TagVersion
