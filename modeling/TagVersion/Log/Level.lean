/-!
Levels of log lines, and the thresholds that let lines through.
-/

namespace TagVersion.Log

inductive Level where
  | error
  | warn
  | info
  | debug
  | trace
deriving DecidableEq, Repr

namespace Level

/-- The levels, most severe first. -/
def all : List Level := [.error, .warn, .info, .debug, .trace]

def name : Level → String
  | .error => "error"
  | .warn => "warn"
  | .info => "info"
  | .debug => "debug"
  | .trace => "trace"

/-- The place in `all`, counted from one. -/
def rank : Level → Nat
  | .error => 1
  | .warn => 2
  | .info => 3
  | .debug => 4
  | .trace => 5

end Level

/-- How much is let through: nothing, or every level up to one. -/
inductive Threshold where
  | off
  | upTo (level : Level)
deriving DecidableEq, Repr

namespace Threshold

/-- The thresholds by their number, from zero. -/
def all : List Threshold := .off :: Level.all.map .upTo

def name : Threshold → String
  | .off => "off"
  | .upTo level => level.name

/-- Whether lines of a level are let through. -/
def admits : Threshold → Level → Bool
  | .off, _ => false
  | .upTo bound, level => level.rank ≤ bound.rank

end Threshold

/-- What a filter looks at in a log line: its level, and the part of the program it comes from. -/
structure Line where
  level : Level
  target : String
deriving DecidableEq, Repr

end TagVersion.Log
