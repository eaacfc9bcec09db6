/-!
Moments in time, as a count of seconds and of nanoseconds within them. The nanoseconds of a leap
second pass a thousand million, so moments are ordered by the seconds first.
-/

namespace TagVersion

structure Instant where
  seconds : Int
  nanoseconds : Nat
deriving DecidableEq, Repr

namespace Instant

/-- The earlier seconds, then the fewer nanoseconds. -/
instance : Ord Instant :=
  ⟨fun a b => (compare a.seconds b.seconds).then (compare a.nanoseconds b.nanoseconds)⟩

/-- The first second of the calendar: the year -262143 begins. -/
def firstSecond : Int := -8334601228800

/-- The last second of the calendar: the year 262142 ends. -/
def lastSecond : Int := 8210266876799

/-- A count of seconds as a moment, if the calendar reaches that far. -/
def ofSeconds? (seconds : Int) : Option Instant :=
  if firstSecond ≤ seconds ∧ seconds ≤ lastSecond then some ⟨seconds, 0⟩ else none

end Instant

end TagVersion
