/-!
Tag prefixes. A prefix names one product among several that a repository tags: it is empty, or a
run of words of ASCII letters, each closed by a separator, with at most one lead character in
front. Main definitions: the recogniser `Prefix.allows` and the removal `Prefix.strip`.
-/

namespace TagVersion

namespace Prefix

/-- What may close a word. -/
def isSeparator (c : Char) : Bool := c == '/' || c == '@' || c == '-'

/-- What may stand in front of the first word. -/
def isLead (c : Char) : Bool := c == '/' || c == '@'

/-- Words, each of one letter or more and one separator; `inside` says that a word is open. -/
def words (inside : Bool) : List Char → Bool
  | [] => !inside
  | c :: rest =>
    if c.isAlpha then words true rest else inside && isSeparator c && words false rest

/-- The recogniser of prefixes. -/
def allows : List Char → Bool
  | [] => true
  | c :: rest => if isLead c then !rest.isEmpty && words false rest else words false (c :: rest)

/-- The rule of `allows` as it is shown to users. -/
def pattern : String := "|([/@]?([A-Za-z]+[/@-])+)"

end Prefix

structure Prefix where
  text : String
  allowed : Prefix.allows text.toList = true
deriving DecidableEq

namespace Prefix

/-- The empty prefix, which every tag starts with. -/
def empty : Prefix := ⟨"", rfl⟩

def isEmpty (p : Prefix) : Bool := p.text.isEmpty

def ofText? (text : String) : Option Prefix :=
  if h : allows text.toList = true then some ⟨text, h⟩ else none

/-- What is left of a tag's name after the prefix and after at most one `v`. A name that does not
start with the prefix is left as it is. -/
def strip (p : Prefix) (name : String) : String :=
  match p.text.toList.isPrefixOf? name.toList with
  | none => name
  | some ('v' :: rest) => String.ofList rest
  | some rest => String.ofList rest

end Prefix

end TagVersion
