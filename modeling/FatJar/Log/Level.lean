/-
FatJar.Log.Level — how important a message of the log is.

A threshold lets through the messages that are at least as important as it is;
the threshold `off` lets nothing through.

Contents:
1. levels and thresholds;
2. their names and numbers.
-/
import FatJar.Text.Case
import FatJar.Text.Number

namespace FatJar.Log

/-! ## 1. Levels -/

/-- How important a message is. -/
inductive Level where
  | error
  | warn
  | info
  | debug
  | trace
  deriving DecidableEq, Repr

/-- The place of a level among all levels; the most important comes first. -/
def Level.rank : Level → Nat
  | .error => 1
  | .warn => 2
  | .info => 3
  | .debug => 4
  | .trace => 5

/-- The least important level that is let through, if any is. -/
inductive Threshold where
  | off
  | upTo (level : Level)
  deriving DecidableEq, Repr

/-- Whether a message of the level is let through. -/
def Threshold.allows : Threshold → Level → Bool
  | .off, _ => false
  | .upTo least, level => level.rank ≤ least.rank

/-! ## 2. Names and numbers -/

/-- The name of a level in the log. -/
def Level.name : Level → String
  | .error => "ERROR"
  | .warn => "WARN"
  | .info => "INFO"
  | .debug => "DEBUG"
  | .trace => "TRACE"

/-- The threshold with a number: how many levels are let through. -/
def Threshold.ofNumber? : Nat → Option Threshold
  | 0 => some .off
  | 1 => some (.upTo .error)
  | 2 => some (.upTo .warn)
  | 3 => some (.upTo .info)
  | 4 => some (.upTo .debug)
  | 5 => some (.upTo .trace)
  | _ => none

/-- The names of the thresholds. -/
def thresholdNames : List (String × Threshold) :=
  [("off", .off), ("error", .upTo .error), ("warn", .upTo .warn), ("info", .upTo .info),
    ("debug", .upTo .debug), ("trace", .upTo .trace)]

/-- The threshold with a name, in any case. -/
def Threshold.ofName? (text : String) : Option Threshold :=
  (thresholdNames.find? fun entry => Text.sameIgnoringCase entry.1 text).map (·.2)

/-- The threshold for which a text stands, by its number or its name. -/
def Threshold.ofText? (text : String) : Option Threshold :=
  match Text.readNumber text.toList with
  | .ok n => Threshold.ofNumber? n
  | .error _ => Threshold.ofName? text

end FatJar.Log
