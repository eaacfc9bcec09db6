import TagVersion.Json.Quoted
import TagVersion.ObjectId

/-!
Object ids as JSON: a text of their digits. A text that is read as an id may be spelled with escapes
and in either case.
-/

namespace TagVersion.ObjectId

/-- An id as a JSON document. -/
def json (id : ObjectId) : String := Json.quoted id.text

/-- The id that a JSON document is of, if it is a text that is one. -/
def ofJson? (document : String) : Option ObjectId := do
  let text ← Json.string? document
  (ofText text).toOption

end TagVersion.ObjectId
