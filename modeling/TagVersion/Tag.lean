import TagVersion.Instant
import TagVersion.ObjectId

/-!
Tags on one commit, and which of them names it: an annotated tag before a plain one, then the
later time, no time being the earliest, then the smaller name.
-/

namespace TagVersion

/-- A tag together with the commit it leads to. -/
structure Tag where
  name : String
  target : ObjectId
  peeled : ObjectId
  annotated : Bool
  time : Option Instant
deriving DecidableEq

namespace Tag

/-- The order in which tags are preferred; the greater is the better. Names count in the order of
their code points, which is that of their bytes, and the smaller name is the better. -/
def preference (a b : Tag) : Ordering :=
  (compare a.annotated b.annotated).then <|
    (compare a.time b.time).then (compare b.name a.name)

/-- The better of two things by their tags; of equally good ones the second. -/
def betterBy {α : Type} (tagOf : α → Tag) (a b : α) : α :=
  match preference (tagOf a) (tagOf b) with
  | .gt => a
  | _ => b

/-- The thing with the best tag; the last one if several are equally good. -/
def selectBy {α : Type} (tagOf : α → Tag) : List α → Option α
  | [] => none
  | a :: rest => some (rest.foldl (betterBy tagOf) a)

/-- The best of some tags. -/
def select (tags : List Tag) : Option Tag := selectBy id tags

end Tag

end TagVersion
