/-
Capturing spans and events of a trace. Spans are numbered from 1 in the order in which they are opened; those that are
less severe than the level of the capture are disabled and get no number.

A span has fields, to which further ones can be recorded while it is entered. Entered spans form a stack, and the one
on top is the current span. Asking for a number that no span has fails.
-/
import NestedGuest.Observe.LogCapture
import NestedGuest.Text.Layout

namespace NestedGuest

/-- the fields of a captured span: a number given when it is opened, and a text recorded later -/
structure SpanFields where
  n : Nat
  late : Option String := none
deriving DecidableEq, Repr

/-- one captured span -/
structure CapturedSpan where
  id : Nat
  level : Level
  fields : SpanFields
deriving DecidableEq, Repr

/-- why a capture could not answer -/
inductive SpanError where
  /-- the number has no fields -/
  | unknownSpan (id : Nat)
  /-- the number has no name and level -/
  | unknownMetadata (id : Nat)
  /-- fields were recorded on a span that was cleared -/
  | unknownRecorded (id : Nat)
  /-- the span that was left is not the one on top of the stack -/
  | notOnTop (top : Option Nat) (id : Nat)
deriving DecidableEq, Repr

def SpanError.message : SpanError → String
  | .unknownSpan id => s!"Failed to get span ID {id}"
  | .unknownMetadata id => s!"Failed to get span metadata ID {id}"
  | .unknownRecorded id => s!"Failed to get span with ID {id}"
  | .notOnTop top id =>
    "assertion `left == right` failed\n  left: " ++ Text.option (top.map fun i => s!"Id({i})")
      ++ "\n right: " ++ Text.option (some s!"Id({id})")

structure SpanCapture where
  level : Level
  /-- in the order of their numbers -/
  spans : List CapturedSpan := []
  /-- messages of the events -/
  events : List String := []
  nextId : Nat := 1
  /-- numbers of the entered spans, innermost first -/
  stack : List Nat := []
deriving DecidableEq, Repr

namespace SpanCapture

def new (level : Level) : SpanCapture := { level }

/-- a span or event of that level is captured -/
def enabled (c : SpanCapture) (l : Level) : Bool := l.passes (some c.level)

/-- opens a span; the number is that of an enabled one -/
def openSpan (c : SpanCapture) (level : Level) (n : Nat) : Option Nat × SpanCapture :=
  if c.enabled level then
    (some c.nextId, { c with spans := c.spans ++ [⟨c.nextId, level, { n }⟩], nextId := c.nextId + 1 })
  else (none, c)

def enter (c : SpanCapture) (id : Nat) : SpanCapture := { c with stack := id :: c.stack }

/-- leaves the span on top, which has to be `id` -/
def exit (c : SpanCapture) (id : Nat) : Except SpanError SpanCapture :=
  if c.stack.head? = some id then .ok { c with stack := c.stack.tail } else .error (.notOnTop c.stack.head? id)

def span? (c : SpanCapture) (id : Nat) : Option CapturedSpan := c.spans.find? fun s => s.id == id

/-- records the late field of span `id` -/
def record (c : SpanCapture) (id : Nat) (text : String) : Except SpanError SpanCapture :=
  match c.span? id with
  | none => .error (.unknownRecorded id)
  | some _ =>
    .ok { c with
      spans := c.spans.map fun s => if s.id = id then { s with fields := { s.fields with late := some text } } else s }

/-- captures an event, if it is enabled -/
def event (c : SpanCapture) (level : Level) (message : String) : SpanCapture :=
  if c.enabled level then { c with events := c.events ++ [message] } else c

/-- the name of a span of that level -/
def spanName (level : Level) : String :=
  match level with
  | .error => "error_span"
  | .warn => "warn_span"
  | .info => "info_span"
  | .debug => "debug_span"
  | .trace => "trace_span"

/-- the fields of span `id` -/
def fields (c : SpanCapture) (id : Nat) : Except SpanError SpanFields :=
  match c.span? id with
  | none => .error (.unknownSpan id)
  | some s => .ok s.fields

/-- the level of span `id`, which also gives its name -/
def metadata (c : SpanCapture) (id : Nat) : Except SpanError Level :=
  match c.span? id with
  | none => .error (.unknownMetadata id)
  | some s => .ok s.level

/-- the current span, if one is entered -/
def current (c : SpanCapture) : Except SpanError (Option (Nat × Level)) :=
  match c.stack with
  | [] => .ok none
  | id :: _ => (c.metadata id).map fun level => some (id, level)

/-- names of all spans in the order in which they were opened -/
def names (c : SpanCapture) : List String := c.spans.map fun s => spanName s.level

/-- hands out the numbers of the spans and the number of events, and forgets the events -/
def take (c : SpanCapture) : (List Nat × Nat) × SpanCapture :=
  ((c.spans.map CapturedSpan.id, c.events.length), { c with events := [] })

/-- forgets all that was captured -/
def clear (c : SpanCapture) : SpanCapture := new c.level

end SpanCapture

/-! ## Scopes -/

/-- A program that opens spans and leaves them in reverse order. A disabled span is a scope too, but the capture never
hears of it. -/
structure SpanScopes where
  capture : SpanCapture
  /-- the numbers of the spans entered, innermost first, `none` for a disabled one -/
  scopes : List (Option Nat)
deriving DecidableEq, Repr

namespace SpanScopes

/-- opens and enters a span -/
def enter (s : SpanScopes) (level : Level) (n : Nat) : Option Nat × SpanScopes :=
  let (id, capture) := s.capture.openSpan level n
  (id, ⟨(id.map capture.enter).getD capture, id :: s.scopes⟩)

/-- leaves the innermost scope; false if there is none -/
def leave (s : SpanScopes) : Except SpanError (Bool × SpanScopes) :=
  match s.scopes with
  | [] => .ok (false, s)
  | none :: scopes => .ok (true, { s with scopes })
  | some id :: scopes => (s.capture.exit id).map fun capture => (true, ⟨capture, scopes⟩)

/-- records the late field of the innermost scope, unless that is disabled -/
def record (s : SpanScopes) (text : String) : Except SpanError SpanScopes :=
  match s.scopes with
  | some id :: _ => (s.capture.record id text).map fun capture => { s with capture }
  | _ => .ok s

end SpanScopes
end NestedGuest
