/-
A virtual processor of a session: its capability, a page of state shared with the kernel and, once the client has
registered a handler for its exceptions, the kernel object that executes it.
-/
import NestedGuest.Ram

namespace NestedGuest

variable {σ : Type}

structure Vcpu where
  identity : VmIdentity
  cap : VcpuCap
  state : RamDataspace
  /-- where the state is in the local address space -/
  stateAddr : UInt64
  location : Affinity
  kernelObject : Option KernelVcpuCap
deriving DecidableEq, Repr

namespace Vcpu

/-- Registers `signal` for the exceptions of the vCPU and has the kernel object created, at most once. An invalid
signal, a second registration and a refusal by the kernel are logged and change nothing. -/
def exceptionHandler (P : Platform σ) (v : Vcpu) (signal : SignalCap) : Run σ Vcpu :=
  spanned "exception_handler" do
    if !signal.isValid then
      log .warn ("no valid signal handler for vCPU " ++ v.cap.describe)
      return v
    else if v.kernelObject.isSome then
      log .warn ("cannot register vCPU " ++ v.cap.describe ++ " exception handler twice")
      return v
    else
      match ← ask P (.createKernelVcpu v.location.cpu v.stateAddr signal v.identity) with
      | some k => return { v with kernelObject := some k }
      | none =>
        log .warn ("cannot instantiate kernel vCPU object for " ++ v.cap.describe ++ ", invalid signal context?")
        return v

/-- releases all that the vCPU holds, its charges included -/
def close (P : Platform σ) (q : Quota) (v : Vcpu) : Run σ Quota := do
  match v.kernelObject with
  | some k => ask P (.destroyKernelVcpu k)
  | none => pure ()
  ask P (.dissolveVcpu v.cap)
  ask P (.detachLocal v.stateAddr)
  let q ← q.freeRam P .session v.state
  return q.replenish vcpuDataSize 0

/-- diagnostic text -/
def describe (v : Vcpu) : String :=
  Text.record "Vcpu"
    [("cap", v.cap.describe), ("vm", toString v.identity.id), ("cpu", toString v.location.cpu),
      ("state", v.state.cap.describe), ("kobj", Text.option (v.kernelObject.map Capability.describe))]

end Vcpu
end NestedGuest
