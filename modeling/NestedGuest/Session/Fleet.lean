/-
All sessions of one world. They share its allocator of identities and are numbered in the order of their creation; a
session that has ended leaves its number behind.
-/
import NestedGuest.Session.Request

namespace NestedGuest

variable {σ : Type}

structure Fleet where
  /-- `none` for a session that has ended -/
  sessions : List (Option Session)

inductive FleetRequest where
  /-- creates a session from session arguments -/
  | create (virt : Option Virt) (args : String)
  /-- creates a session from a configuration -/
  | createWith (virt : Option Virt) (config : Config)
  | serve (i : Nat) (request : Request)
  | close (i : Nat)
deriving DecidableEq, Repr

inductive FleetReply where
  | created (i : Nat)
  | refused (e : SessionError)
  | served (reply : Reply)
  | closed
  | noSession

namespace Fleet

def new : Fleet := ⟨[]⟩

/-- session `i`, if it was created and has not ended -/
def session? (f : Fleet) (i : Nat) : Option Session := f.sessions[i]?.join

/-- the sessions that have not ended -/
def live (f : Fleet) : List Session := f.sessions.filterMap id

/-- adds a session that was created -/
def join (f : Fleet) : Except SessionError Session → FleetReply × Fleet
  | .ok s => (.created f.sessions.length, ⟨f.sessions ++ [some s]⟩)
  | .error e => (.refused e, f)

/-- serves one request -/
def perform (P : Platform σ) (f : Fleet) : FleetRequest → Run σ (FleetReply × Fleet)
  | .create virt args => return f.join (← Session.create P virt args)
  | .createWith virt config => return f.join (← Session.createWith P virt config)
  | .serve i request =>
    match f.session? i with
    | none => return (.noSession, f)
    | some s => do
      let (reply, s) ← s.perform P request
      return (.served reply, ⟨f.sessions.set i (some s)⟩)
  | .close i =>
    match f.session? i with
    | none => return (.noSession, f)
    | some s => do
      let _ ← s.close P
      return (.closed, ⟨f.sessions.set i none⟩)

/-- ends all sessions in the order of their creation -/
def closeAll (P : Platform σ) (f : Fleet) : Run σ Fleet := do
  f.live.forM fun s => do let _ ← s.close P
  return ⟨f.sessions.map fun _ => none⟩

end Fleet
end NestedGuest
