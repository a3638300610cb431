/-
Levels of severity, and lines of a log.
-/
namespace NestedGuest

/-- from the most severe on -/
inductive Level where
  | error
  | warn
  | info
  | debug
  | trace
deriving DecidableEq, Repr

namespace Level

/-- 1 for the most severe; a filter of 0 lets nothing pass -/
def rank : Level → Nat
  | .error => 1
  | .warn => 2
  | .info => 3
  | .debug => 4
  | .trace => 5

def name : Level → String
  | .error => "ERROR"
  | .warn => "WARN"
  | .info => "INFO"
  | .debug => "DEBUG"
  | .trace => "TRACE"

def all : List Level := [.error, .warn, .info, .debug, .trace]

/-- the level of that name -/
def ofName? (s : String) : Option Level := all.find? fun l => l.name == s

end Level

/-- one line of a log -/
structure LogLine where
  level : Level
  text : String
deriving DecidableEq, Repr

end NestedGuest
