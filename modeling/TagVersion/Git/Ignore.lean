import TagVersion.FileTree
import TagVersion.Git.Glob

/-!
Files to ignore. A list of rules lies in any directory of the work tree and speaks about what is
below it; one more list belongs to the repository. Of all rules that match a path the last one of
the deepest list decides, and where no rule matches a path is ignored with its directory.
-/

namespace TagVersion.Git

namespace Ignore

structure Rule where
  pattern : Bytes
  /-- Whether the rule takes back what others ignore. -/
  negated : Bool
  /-- Whether only directories are meant. -/
  folders : Bool
  /-- Whether the pattern is about whole paths, and not about the last name in them. -/
  wholePath : Bool
  /-- Whether the pattern is more than a literal name. -/
  wild : Bool
deriving DecidableEq, Repr

/-! ### Reading rules -/

/-- The bytes up to the end of a line, and what follows. A backslash hides the end of a line. -/
def line (hidden : Bool) : Bytes → Bytes × Bytes
  | [] => ([], [])
  | b :: rest =>
    if !hidden && (b = 10 || b = 11 || b = 12) then ([], b :: rest)
    else
      let (taken, rest) := line (!hidden && b = 92) rest
      (b :: taken, rest)

/-- Whether a byte that no backslash hides has a meaning of its own in patterns. -/
def isWild (hidden : Bool) : Bytes → Bool
  | [] => false
  | b :: rest =>
    (!hidden && (b = 42 || b = 63 || b = 91)) || isWild (!hidden && b = 92) rest

/-- Whether an odd number of backslashes stands at the start. -/
def isHidden : Bytes → Bool
  | 92 :: rest => !isHidden rest
  | _ => false

/-- Takes the blanks away that stand at the start of a reversed pattern, up to one that a
backslash keeps. -/
def dropBlanks : Bytes → Bytes
  | b :: rest => if (b = 32 || b = 9) && !isHidden rest then dropBlanks rest else b :: rest
  | [] => []

/-- Takes the backslashes away that keep blanks. -/
def unescape (hidden : Bool) : Bytes → Bytes
  | [] => []
  | b :: rest =>
    if !hidden && b = 92 then unescape true rest
    else if hidden && !Bytes.isBlank b then 92 :: b :: unescape false rest
    else b :: unescape false rest

/-- Reads a rule from a line that is neither empty nor a remark. A slash at the end asks for
directories; another slash makes the pattern one of whole paths. -/
def rule? (line : Bytes) : Option Rule :=
  let negated := line.head? = some 33
  let line := if negated then line.tail else line
  let rooted := line.head? = some 47
  let body := if rooted then line.tail else line
  let trimmed := if body.getLast? = some 13 then body.dropLast else body
  let trimmed := (dropBlanks trimmed.reverse).reverse
  if trimmed.isEmpty then none
  else
    let folders := trimmed.getLast? = some 47
    let pattern := if folders then trimmed.dropLast else trimmed
    let slashes := line.count 47
    some {
      pattern := unescape false pattern
      negated
      folders
      wholePath := if folders then 1 < slashes else 0 < slashes
      wild := isWild false body }

/-- Whether a rule without wildcards is about the same name as another: one is the other, or its
last name is. -/
def sameName (a b : Bytes) : Bool :=
  a = b || (!a.contains 47 && (47 :: a).isSuffixOf b) || (!b.contains 47 && (47 :: b).isSuffixOf a)

/-- Whether a rule that takes back has something to take back from an earlier rule. -/
def takesBack (earlier rule : Rule) : Bool :=
  if earlier.wild then Glob.matches earlier.wholePath earlier.pattern rule.pattern
  else !earlier.negated && sameName earlier.pattern rule.pattern

/-- Adds a rule to a list. One that takes back without wildcards is left out if it would take back
nothing. -/
def addRule (rules : List Rule) (rule : Rule) : List Rule :=
  if rule.negated && !rule.wild && !rules.any (takesBack · rule) then rules else rules ++ [rule]

/-- Reads the lines of a list, of which there are at most `count`. -/
def rulesFrom (rules : List Rule) : Nat → Bytes → List Rule
  | 0, _ => rules
  | count + 1, bytes =>
    if bytes.isEmpty then rules
    else
      let (taken, rest) :=
        if bytes.head? = some 35 then bytes.span (· != 10) else line false bytes
      let rest := (rest.dropWhile (· != 10)).dropWhile fun b => b = 10 || b = 13
      let rules :=
        if taken.isEmpty || taken.head? = some 35 || taken = [13] then rules
        else
          match rule? taken with
          | some rule => addRule rules rule
          | none => rules
      rulesFrom rules count rest

/-- The mark of byte order that a file may begin with. -/
def mark : Bytes := [0xEF, 0xBB, 0xBF]

/-- Reads a list of rules; it ends at a zero. -/
def rules (content : Bytes) : List Rule :=
  let content := (mark.isPrefixOf? content).getD content
  let content := content.takeWhile (· != 0)
  rulesFrom [] content.length content

/-! ### Asking -/

/-- A list of rules with the directory that it lies in. -/
structure Rules where
  folder : List String
  rules : List Rule

def joined (names : List String) : Bytes := Bytes.ofText (String.intercalate "/" names)

/-- Whether a rule of a list matches a path. Deeper down, a rule about directories also matches a
file whose whole path its pattern covers. -/
def Rule.matches (rule : Rule) (folder names : List String) (isFolder : Bool) : Bool :=
  match folder.isPrefixOf? names with
  | none | some [] => false
  | some below =>
    let path := joined below
    if rule.folders && !isFolder then
      1 < below.length && path != rule.pattern && Glob.matches rule.wholePath rule.pattern path
    else
      Glob.matches rule.wholePath rule.pattern
        (if rule.wholePath then path else Bytes.ofText (below.getLast?.getD ""))

/-- What the lists say about a path, if any rule matches it; the deepest list comes first. -/
def verdict (lists : List Rules) (names : List String) (isFolder : Bool) : Option Bool :=
  lists.findSome? fun list =>
    (list.rules.reverse.find? (·.matches list.folder names isFolder)).map fun rule => !rule.negated

/-- Whether the directories of a path, and at last the path itself, are ignored, from the outermost
on; `inherited` says that of the directory they lie in. -/
def states (lists : List Rules) (isFolder inherited : Bool) (above : List String) :
    List String → List Bool
  | [] => []
  | name :: rest =>
    let here := above ++ [name]
    let ignored := (verdict lists here (isFolder || !rest.isEmpty)).getD inherited
    ignored :: states lists isFolder ignored here rest

end Ignore

end TagVersion.Git
