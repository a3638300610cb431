/-
Capturing log records: those at or above a level are kept until they are handed out or cleared. Nothing is captured
until a level is set.
-/
import NestedGuest.Observe.Level

namespace NestedGuest

/-- one captured record -/
structure LogRecord where
  level : Level
  target : String
  text : String
deriving DecidableEq, Repr

structure LogCapture where
  /-- records pass from the most severe down to this level; `none` lets nothing pass -/
  threshold : Option Level := none
  /-- in the order of their arrival -/
  records : List LogRecord := []
deriving DecidableEq, Repr

/-- a record of that level passes the threshold -/
def Level.passes (l : Level) (threshold : Option Level) : Bool := decide (l.rank ≤ (threshold.map rank).getD 0)

namespace LogCapture

/-- from now on only records at or above `threshold` are captured -/
def setThreshold (c : LogCapture) (threshold : Option Level) : LogCapture := { c with threshold }

/-- captures a record if it passes -/
def record (c : LogCapture) (r : LogRecord) : LogCapture :=
  if r.level.passes c.threshold then { c with records := c.records ++ [r] } else c

def count (c : LogCapture) : Nat := c.records.length

def get? (c : LogCapture) (i : Nat) : Option LogRecord := c.records[i]?

def clear (c : LogCapture) : LogCapture := { c with records := [] }

/-- hands out the records and forgets them -/
def take (c : LogCapture) : List LogRecord × LogCapture := (c.records, c.clear)

end LogCapture
end NestedGuest
