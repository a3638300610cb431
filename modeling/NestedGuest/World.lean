/-
The world in which sessions run: the surroundings, the identities taken, and a journal of all that can be observed.

The journal holds, newest first, each call with its answer and the identities taken at that moment, lines logged, spans
opened, failures of traced operations, and counts. Operations only add to it.
-/
import NestedGuest.Error
import NestedGuest.Observe.Level
import NestedGuest.Vmid

namespace NestedGuest

/-- a call and its answer -/
structure Exchange where
  call : Call
  answer : call.Answer
  /-- the identities taken when the call was made -/
  vmids : VmidAllocator

/-- something that can be observed -/
inductive Note where
  | exchange (e : Exchange)
  | log (line : LogLine)
  /-- a traced operation begins -/
  | span (name : String)
  /-- a traced operation failed; the text describes its error -/
  | failure (text : String)
  /-- a counter is incremented -/
  | count (counter : String)

structure World (σ : Type) where
  host : σ
  vmids : VmidAllocator
  /-- newest first -/
  journal : List Note

/-- an operation in a world -/
abbrev Run (σ : Type) := StateM (World σ)

variable {σ α β ε : Type}

/-! ## Observations -/

/-- adds to the journal -/
def observe (n : Note) : Run σ Unit := fun w => ((), { w with journal := n :: w.journal })

def log (level : Level) (text : String) : Run σ Unit := observe (.log ⟨level, text⟩)

def count (counter : String) : Run σ Unit := observe (.count counter)

/-- an operation that a tracer sees begin -/
def spanned (name : String) (act : Run σ α) : Run σ α := do
  observe (.span name)
  act

/-- an operation that a tracer also sees fail; `error` gives the text of a failed outcome -/
def traced (name : String) (error : α → Option String) (act : Run σ α) : Run σ α := do
  observe (.span name)
  let a ← act
  match error a with
  | some text => observe (.failure text)
  | none => pure ()
  return a

/-- the text of a failed outcome -/
def failureText (describe : ε → String) : Except ε β → Option String
  | .ok _ => none
  | .error e => some (describe e)

/-! ## Views of a journal -/

/-- the calls among the notes -/
def exchanges (notes : List Note) : List Exchange :=
  notes.filterMap fun n => match n with
    | .exchange e => some e
    | _ => none

/-- the lines logged -/
def logLines (notes : List Note) : List LogLine :=
  notes.filterMap fun n => match n with
    | .log line => some line
    | _ => none

/-- the names of the traced operations -/
def spanNames (notes : List Note) : List String :=
  notes.filterMap fun n => match n with
    | .span name => some name
    | _ => none

/-- the texts of the failures of traced operations -/
def failures (notes : List Note) : List String :=
  notes.filterMap fun n => match n with
    | .failure text => some text
    | _ => none

/-- how often each counter was incremented -/
def counters (notes : List Note) : List (String × Nat) :=
  let names := notes.filterMap fun n => match n with
    | .count counter => some counter
    | _ => none
  names.eraseDups.map fun name => (name, names.count name)

/-! ## Calls -/

/-- makes a call -/
def ask (P : Platform σ) (c : Call) : Run σ c.Answer := fun w =>
  let (a, host) := P.answer c w.host
  (a, { w with host, journal := .exchange ⟨c, a, w.vmids⟩ :: w.journal })

/-- the dataspace still exists -/
def stillAlive (P : Platform σ) (ds : Dataspace) : Run σ Bool := fun w => (P.alive ds w.host, w)

/-! ## Identities -/

/-- takes the least free identity; one without room in a byte is refused after it is taken -/
def allocVmid : Run σ (Except SessionError Nat) :=
  traced "alloc" (failureText SessionError.describe) fun w =>
    match w.vmids.alloc? with
    | none => (.error .outOfVmIds, w)
    | some (id, vmids) => (if VmidAllocator.isByte id then .ok id else .error .outOfVmIds, { w with vmids })

/-- gives an identity back; a misuse is logged -/
def freeVmid (id : Nat) : Run σ Unit :=
  spanned "free" do
    let w ← get
    let (vmids, misuse) := w.vmids.free id
    set { w with vmids }
    match misuse with
    | some m => log .warn m.message
    | none => pure ()

end NestedGuest
