/-
All requests that a client makes of its session, as one type, so that a history of a session is a list of requests.
-/
import NestedGuest.Session.Lifetime

namespace NestedGuest

variable {σ : Type}

inductive Request where
  | attach (cap : DataspaceCap) (guest : UInt64) (attr : AttachAttr)
  | detach (guest size : UInt64)
  | detachAt (a : UInt64)
  | flush (a : UInt64)
  | unmapRegion (a size : UInt64)
  /-- the interrupt controller is emulated by the client; its page is accepted and ignored -/
  | attachPic (a : UInt64)
  | createVcpu (thread : ThreadCap)
  | exceptionHandler (vcpu : VcpuCap) (signal : SignalCap)
  | raise (ram caps : UInt64)
  | upgrade (args : String)
deriving DecidableEq, Repr

inductive Reply where
  | done (result : Except SessionError Unit)
  | vcpu (cap : VcpuCap)
  | noVcpu
  /-- the kernel object of the vCPU asked for -/
  | handler (kernelObject : Option KernelVcpuCap)

namespace Session

/-- serves one request -/
def perform (P : Platform σ) (s : Session) : Request → Run σ (Reply × Session)
  | .attach cap guest attr => do
    let (r, s) ← s.attach P cap guest attr
    return (.done r, s)
  | .detach guest size => return (.done (.ok ()), ← s.detach P guest size)
  | .detachAt a => return (.done (.ok ()), ← s.detachAt P a)
  | .flush a => return (.done (.ok ()), ← s.reserveAndFlush P a)
  | .unmapRegion a size => do
    let (r, s) ← s.unmapRegion a size
    return (.done r, s)
  | .attachPic _ => return (.done (.ok ()), s)
  | .createVcpu thread => do
    let (cap, s) ← s.createVcpu P thread
    return (.vcpu cap, s)
  | .exceptionHandler cap signal => do
    match ← s.exceptionHandler P cap signal with
    | (none, s) => return (.noVcpu, s)
    | (some kernelObject, s) => return (.handler kernelObject, s)
  | .raise ram caps => return (.done (.ok ()), ← s.raise ram caps)
  | .upgrade args => do
    let (r, s) ← s.upgrade args
    return (.done r, s)

/-- serves requests one after the other -/
def performAll (P : Platform σ) (s : Session) : List Request → Run σ (List Reply × Session)
  | [] => return ([], s)
  | r :: rest => do
    let (reply, s) ← s.perform P r
    let (replies, s) ← s.performAll P rest
    return (reply :: replies, s)

end Session
end NestedGuest
